import CodeGraph.Proofs.Chunking
import CodeGraph.Proofs.Chunking.Coverage
import Mathlib.Data.List.Basic

/-!
Which chunks of a file have the same identifier. An identifier is made from a text that gives back
the label, the type and the lines of its chunk, so only chunks that agree in all of these can share
one. Of two pieces of the same type one ends before the other starts; so the lines of two such
chunks agree only if both stand on one line.
-/

set_option autoImplicit false

namespace CodeGraph

open CodeGraph.Syntax

theorem Text.append_cons_inj {separator : Char} {x x' z z' : List Char}
    (same : x ++ separator :: z = x' ++ separator :: z') (free : separator ∉ z)
    (free' : separator ∉ z') : x = x' ∧ z = z' := by
  induction x generalizing x' with
  | nil =>
      cases x' with
      | nil => exact ⟨rfl, by simpa using same⟩
      | cons c rest =>
          have tail : z = rest ++ separator :: z' := (List.cons.inj same).2
          exact absurd (tail ▸ by simp) free
  | cons c rest ih =>
      cases x' with
      | nil =>
          have tail : rest ++ separator :: z = z' := (List.cons.inj same).2
          exact absurd (tail ▸ by simp) free'
      | cons c' rest' =>
          obtain ⟨rfl, tail⟩ := List.cons.inj same
          obtain ⟨rfl, rfl⟩ := ih tail
          exact ⟨rfl, rfl⟩

theorem not_mem_toDigits {c : Char} (other : c.isDigit = false) (n : Nat) :
    c ∉ Nat.toDigits 10 n := by
  intro member
  rw [Nat.isDigit_of_mem_toDigits (by decide) (by decide) member] at other
  cases other

theorem toDigits_inj {n n' : Nat} (same : Nat.toDigits 10 n = Nat.toDigits 10 n') : n = n' := by
  have read := congrArg (fun digits => Nat.ofDigitChars 10 digits 0) same
  simpa using read

theorem ChunkType.name_inj {type type' : ChunkType} (same : type.name = type'.name) :
    type = type' := by
  have read := congrArg ofName? same
  simpa using read

theorem ChunkType.nul_not_mem_name (type : ChunkType) : '\x00' ∉ type.name.toList := by
  cases type <;> decide

namespace Chunk

/-- The key is read from its end: neither the lines nor the name of a type has a separator. -/
theorem idKey_inj {path symbol symbol' : String} {type type' : ChunkType}
    {start start' stop stop' : Nat}
    (same : idKey path symbol type start stop = idKey path symbol' type' start' stop') :
    symbol = symbol' ∧ type = type' ∧ start = start' ∧ stop = stop' := by
  have texts : (symbol.toList ++ '\x00' :: type.name.toList) ++
        '\x00' :: (Nat.toDigits 10 start ++ '-' :: Nat.toDigits 10 stop) =
      (symbol'.toList ++ '\x00' :: type'.name.toList) ++
        '\x00' :: (Nat.toDigits 10 start' ++ '-' :: Nat.toDigits 10 stop') := by
    have both := congrArg String.toList same
    simpa [idKey, Nat.toString_eq_ofList_toDigits] using both
  have lines (a b : Nat) : '\x00' ∉ Nat.toDigits 10 a ++ '-' :: Nat.toDigits 10 b := by
    simp [not_mem_toDigits]
  have dash := not_mem_toDigits (by decide : '-'.isDigit = false)
  obtain ⟨names, numbers⟩ := Text.append_cons_inj texts (lines start stop) (lines start' stop')
  obtain ⟨symbols, types⟩ :=
    Text.append_cons_inj names type.nul_not_mem_name type'.nul_not_mem_name
  obtain ⟨starts, stops⟩ := Text.append_cons_inj numbers (dash stop) (dash stop')
  exact ⟨String.toList_injective symbols, ChunkType.name_inj (String.toList_injective types),
    toDigits_inj starts, toDigits_inj stops⟩

def key (chunk : Chunk) : String :=
  idKey chunk.filePath chunk.label chunk.type chunk.lineStart chunk.lineEnd

theorem Belongs.id_eq {path : String} {chunk : Chunk} (belongs : chunk.Belongs path) :
    chunk.id = Digest.namedUuid idSpace (Text.bytes chunk.key) := by
  cases belongs
  rfl

structure Alike (a b : Chunk) : Prop where
  label : a.label = b.label
  type : a.type = b.type
  lineStart : a.lineStart = b.lineStart
  lineEnd : a.lineEnd = b.lineEnd

instance (a b : Chunk) : Decidable (a.Alike b) :=
  decidable_of_iff (a.label = b.label ∧ a.type = b.type ∧ a.lineStart = b.lineStart ∧
      a.lineEnd = b.lineEnd)
    ⟨fun all => ⟨all.1, all.2.1, all.2.2.1, all.2.2.2⟩,
      fun alike => ⟨alike.label, alike.type, alike.lineStart, alike.lineEnd⟩⟩

def Twins (a b : Chunk) : Prop :=
  a.Alike b ∧ a.lineStart = a.lineEnd

instance (a b : Chunk) : Decidable (a.Twins b) :=
  inferInstanceAs (Decidable (_ ∧ _))

theorem Twins.symm {a b : Chunk} (twins : a.Twins b) : b.Twins a := by
  obtain ⟨⟨label, type, start, stop⟩, line⟩ := twins
  exact ⟨⟨label.symm, type.symm, start.symm, stop.symm⟩, start ▸ stop ▸ line⟩

theorem key_eq_iff {a b : Chunk} (path : a.filePath = b.filePath) :
    a.key = b.key ↔ a.Alike b := by
  constructor
  · intro same
    rw [key, key, path] at same
    obtain ⟨label, type, start, stop⟩ := idKey_inj same
    exact ⟨label, type, start, stop⟩
  · rintro ⟨label, type, start, stop⟩
    rw [key, key, path, label, type, start, stop]

end Chunk

namespace Syntax

mutual

def Node.every (holds : Node → Bool) : Node → Bool
  | ⟨kind, named, field, start, stop, children⟩ =>
      holds ⟨kind, named, field, start, stop, children⟩ && everyAmong holds children

def everyAmong (holds : Node → Bool) : List Node → Bool
  | [] => true
  | node :: rest => node.every holds && everyAmong holds rest

end

namespace Node

theorem everyAmong_iff {holds : Node → Bool} {nodes : List Node} :
    everyAmong holds nodes = true ↔ ∀ node ∈ nodes, node.every holds = true := by
  induction nodes with
  | nil => simp [everyAmong]
  | cons node rest ih => simp [everyAmong, ih]

theorem every_iff {holds : Node → Bool} {node : Node} :
    node.every holds = true ↔
      holds node = true ∧ ∀ child ∈ node.children, child.every holds = true := by
  cases node
  rw [every, Bool.and_eq_true, everyAmong_iff]

theorem Below.every {holds : Node → Bool} {root node : Node} (below : root.Below node)
    (all : root.every holds = true) : node.every holds = true := by
  induction below with
  | root => exact all
  | child _ member ih => exact (every_iff.mp ih).2 _ member

end Node

end Syntax

namespace Chunking

/-- A node whose children lie in it, in order and apart. -/
structure LaidOut (node : Node) : Prop where
  proper : node.start ≤ node.stop
  children : InOrder node.children
  inside : ∀ child ∈ node.children, node.start ≤ child.start ∧ child.stop ≤ node.stop

instance (node : Node) : Decidable (LaidOut node) :=
  decidable_of_iff (node.start ≤ node.stop ∧ InOrder node.children ∧
      ∀ child ∈ node.children, node.start ≤ child.start ∧ child.stop ≤ node.stop)
    ⟨fun all => ⟨all.1, all.2.1, all.2.2⟩, fun laid => ⟨laid.proper, laid.children, laid.inside⟩⟩

def fitsLanguage (language : Language) (node : Node) : Bool :=
  decide (LaidOut node) && !(language == .go && Entity.isMethodKind node.kind)

def Grammatical (language : Language) (tree : Node) : Prop :=
  tree.every (fitsLanguage language) = true

instance (language : Language) (tree : Node) : Decidable (Grammatical language tree) :=
  inferInstanceAs (Decidable (_ = true))

variable {language : Language} {context : Context} {tree node container : Node}

theorem Grammatical.below (grammatical : Grammatical language tree) (below : tree.Below node) :
    Grammatical language node :=
  below.every grammatical

theorem Grammatical.laidOut (grammatical : Grammatical language tree) : LaidOut tree := by
  have fits := (Node.every_iff.mp grammatical).1
  simp only [fitsLanguage, Bool.and_eq_true, decide_eq_true_eq] at fits
  exact fits.1

theorem Grammatical.not_go (grammatical : Grammatical language tree)
    (method : Entity.isMethodKind tree.kind = true) : language ≠ .go := by
  rintro rfl
  have fits := (Node.every_iff.mp grammatical).1
  simp [fitsLanguage, method] at fits

theorem Grammatical.within (grammatical : Grammatical language tree) (below : tree.Below node) :
    tree.start ≤ node.start ∧ node.stop ≤ tree.stop := by
  induction below with
  | root => exact ⟨Nat.le_refl _, Nat.le_refl _⟩
  | child above member ih =>
      have inside := (grammatical.below above).laidOut.inside _ member
      omega

theorem Grammatical.namedChildren (grammatical : Grammatical language tree) :
    InOrder tree.namedChildren :=
  grammatical.laidOut.children.sublist List.filter_sublist

theorem Grammatical.of_mem_namedChildren (grammatical : Grammatical language tree)
    (member : node ∈ tree.namedChildren) : Grammatical language node :=
  grammatical.below (Node.Below.root.child (Node.mem_of_mem_namedChildren member))

def Piece.Within (low high : Nat) (piece : Piece) : Prop :=
  low ≤ piece.start ∧ piece.start ≤ piece.stop ∧ piece.stop ≤ high

def Piece.Parted (a b : Piece) : Prop :=
  a.type = b.type → a.stop ≤ b.start ∨ b.stop ≤ a.start

structure Declared.Placed (language : Language) (item : Declared) : Prop where
  nodes : InOrder item.nodes
  outer : Grammatical language item.entity.outer
  inner : item.entity.outer.Below item.entity.inner

theorem docstring?_eq_some {doc : Node} (found : docstring? language node = some doc) :
    doc.kind = "expression_statement" ∧
      ∃ body rest, node.childAt? "body" = some body ∧ body.namedChildren = doc :: rest := by
  unfold docstring? at found
  split at found
  · cases found
  · obtain ⟨body, there, found⟩ := Option.bind_eq_some_iff.mp found
    obtain ⟨first, head, found⟩ := Option.bind_eq_some_iff.mp found
    obtain ⟨rest, children⟩ : ∃ rest, body.namedChildren = first :: rest := by
      cases children : body.namedChildren with
      | nil => simp [children] at head
      | cons other rest => exact ⟨rest, by simpa [children] using head⟩
    split at found
    · cases found
    next kind =>
      obtain ⟨value, -, found⟩ := Option.bind_eq_some_iff.mp found
      split at found
      · cases found
        exact ⟨by simpa using kind, body, rest, there, children⟩
      · cases found

namespace Declared

variable {item : Declared} {piece : Piece}

theorem nodes_ne_nil (item : Declared) : item.nodes ≠ [] := by
  simp [nodes]

theorem stopOf_nodes (item : Declared) : stopOf item.nodes = item.entity.outer.stop := by
  simp [stopOf, nodes]

theorem Placed.comment (placed : item.Placed language) (member : piece ∈ item.comment) :
    piece.type = .doc ∧ piece.Within (startOf item.nodes) item.entity.outer.start := by
  obtain ⟨some, rfl⟩ := of_mem_overNodes member
  have comments : (item.decorations.filter isComment).Sublist item.decorations :=
    List.filter_sublist
  obtain ⟨first, inside, start⟩ := exists_startOf some
  obtain ⟨last, inside', stop⟩ := exists_stopOf some
  have ordered : InOrder (item.decorations.filter isComment) :=
    placed.nodes.sublist (comments.trans (List.sublist_append_left _ _))
  have proper := placed.nodes.proper first (by simp [Declared.nodes, comments.subset inside])
  have above := (List.pairwise_append.mp placed.nodes.apart).2.2 last (comments.subset inside')
    item.entity.outer (List.mem_singleton_self _)
  refine ⟨rfl, ?_, ?_, ?_⟩
  · exact start ▸ placed.nodes.startOf_le (by simp [Declared.nodes, comments.subset inside])
  · have within := ordered.le_stopOf inside
    dsimp only
    omega
  · exact stop ▸ above

theorem Placed.proper (placed : item.Placed language) :
    item.entity.outer.start ≤ item.entity.outer.stop :=
  placed.nodes.proper _ (by simp [Declared.nodes])

theorem Placed.code (placed : item.Placed language) :
    item.code.Within (startOf item.nodes) (stopOf item.nodes) := by
  obtain ⟨low, high⟩ := code_within placed.nodes
  refine ⟨low, ?_, high⟩
  exact Nat.le_trans (entityStart_le item.entity item.decorations).1 placed.proper

theorem Placed.docstring (placed : item.Placed language) {language' : Language}
    (member : piece ∈ item.docstring language') :
    piece.type = .doc ∧ piece.Within item.entity.outer.start item.entity.outer.stop := by
  obtain ⟨doc, found, rfl⟩ := List.mem_map.mp member
  obtain ⟨-, body, rest, there, children⟩ := docstring?_eq_some (Option.mem_toList.mp found)
  have below : item.entity.outer.Below doc := by
    refine (placed.inner.childAt? there).child (Node.mem_of_mem_namedChildren ?_)
    rw [children]
    exact List.mem_cons_self ..
  obtain ⟨low, high⟩ := placed.outer.within below
  exact ⟨rfl, low, (placed.outer.below below).laidOut.proper, high⟩

theorem Placed.startOf_le (placed : item.Placed language) :
    startOf item.nodes ≤ item.entity.outer.start :=
  placed.nodes.startOf_le (by simp [Declared.nodes])

theorem Placed.within (placed : item.Placed language) {language' : Language}
    (member : piece ∈ item.pieces language') :
    piece.Within (startOf item.nodes) (stopOf item.nodes) := by
  have start := placed.startOf_le
  have proper := placed.proper
  rw [stopOf_nodes]
  rcases List.mem_append.mp member with comment | rest
  · obtain ⟨-, low, middle, high⟩ := placed.comment comment
    exact ⟨low, middle, by omega⟩
  · rcases List.mem_cons.mp rest with rfl | docstring
    · exact item.stopOf_nodes ▸ placed.code
    · obtain ⟨-, low, middle, high⟩ := placed.docstring docstring
      exact ⟨by omega, middle, high⟩

theorem Placed.parted (placed : item.Placed language) (symbol : item.type ≠ .doc)
    (language' : Language) : (item.pieces language').Pairwise Piece.Parted := by
  have code : item.code.type ≠ .doc := symbol
  refine List.pairwise_append.mpr ⟨pairwise_overNodes _ _ _ _, List.pairwise_cons.mpr ⟨?_, ?_⟩, ?_⟩
  · intro piece docstring same
    exact absurd (same.trans (placed.docstring docstring).1) code
  · rw [Declared.docstring]
    cases docstring? language' item.entity.inner with
    | none => exact .nil
    | some doc => exact List.pairwise_singleton _ _
  · intro piece comment other member same
    obtain ⟨type, -, -, stop⟩ := placed.comment comment
    rcases List.mem_cons.mp member with rfl | docstring
    · exact absurd (same.symm.trans type) code
    · obtain ⟨-, start, -⟩ := placed.docstring docstring
      exact .inl (Nat.le_trans stop start)

end Declared

theorem member?_of_mem_membersFrom {pending rest : List Node} {item : Declared}
    (listed : item ∈ membersFrom context pending rest) :
    ∃ child ∈ rest, Entity.member? context.language context.source child = some item.entity := by
  induction rest generalizing pending with
  | nil => cases listed
  | cons child rest ih =>
      have later {pending : List Node} (listed : item ∈ membersFrom context pending rest) :
          ∃ other ∈ child :: rest,
            Entity.member? context.language context.source other = some item.entity := by
        obtain ⟨other, inside, found⟩ := ih listed
        exact ⟨other, List.mem_cons_of_mem _ inside, found⟩
      rw [membersFrom] at listed
      split at listed
      · exact later listed
      · split at listed
        next member found =>
          rcases List.mem_cons.mp listed with rfl | rest
          · exact ⟨child, List.mem_cons_self .., found⟩
          · exact later rest
        · exact later listed

theorem nodes_membersFrom (context : Context) (pending rest : List Node) :
    ((membersFrom context pending rest).flatMap Declared.nodes).Sublist (pending ++ rest) := by
  induction rest generalizing pending with
  | nil => simp [membersFrom]
  | cons child rest ih =>
      rw [membersFrom]
      split
      · simpa using ih (pending ++ [child])
      · split
        next member found =>
          rw [List.flatMap_cons, Declared.nodes, (Entity.of_member? found).1, List.append_assoc]
          exact (List.drop_sublist _ _).append ((ih []).cons_cons child)
        next =>
          exact ((ih []).cons child).trans (List.sublist_append_right _ _)

theorem members_in_order (grammatical : Grammatical language container) :
    (∀ item ∈ members context container, item.Placed language ∧
        container.start ≤ startOf item.nodes ∧ stopOf item.nodes ≤ container.stop) ∧
      (members context container).Pairwise (fun a b => stopOf a.nodes ≤ startOf b.nodes) := by
  unfold members
  split
  next body there =>
    have below := Node.Below.root.childAt? there
    -- The nodes of the members are some of the children of the body, in their order.
    have sub := nodes_membersFrom context [] body.namedChildren
    have ordered : InOrder
        ((membersFrom context [] body.namedChildren).flatMap Declared.nodes) :=
      (grammatical.below below).namedChildren.sublist sub
    have bounds {node : Node} (inside : node ∈ body.namedChildren) :=
      grammatical.within (below.child (Node.mem_of_mem_namedChildren inside))
    constructor
    · intro item listed
      have own : item.nodes.Sublist
          ((membersFrom context [] body.namedChildren).flatMap Declared.nodes) :=
        List.sublist_flatten_of_mem (List.mem_map_of_mem listed)
      obtain ⟨child, inside, found⟩ := member?_of_mem_membersFrom listed
      obtain ⟨outer, inner, -⟩ := Entity.of_member? found
      obtain ⟨first, first_mem, start⟩ := exists_startOf item.nodes_ne_nil
      refine ⟨⟨ordered.sublist own, ?_, ?_⟩, ?_, ?_⟩
      · rw [outer]
        exact grammatical.below (below.child (Node.mem_of_mem_namedChildren inside))
      · rwa [outer]
      · exact start ▸ (bounds (sub.subset (own.subset first_mem))).1
      · rw [item.stopOf_nodes, outer]
        exact (bounds inside).2
    · have apart := ordered.apart
      rw [List.pairwise_flatMap] at apart
      refine apart.2.imp fun {a b} before => ?_
      exact stopOf_le_startOf a.nodes_ne_nil b.nodes_ne_nil before
  next => simp

/-- A docstring is the first statement of its body and no member, so the members come after it. -/
theorem docstring_before_members (grammatical : Grammatical language container) {doc : Node}
    (found : docstring? context.language container = some doc) {item : Declared}
    (listed : item ∈ members context container) : doc.stop ≤ startOf item.nodes := by
  obtain ⟨kind, body, rest, there, children⟩ := docstring?_eq_some found
  have statement : isDecoration doc = false := by
    simp [isDecoration, isComment, isAttribute, kind]
  have noMember : Entity.member? context.language context.source doc = none := by
    simp [Entity.member?, Entity.isMethodKind, kind]
  simp only [members, there, children, membersFrom, statement, noMember] at listed
  have ordered := (grammatical.below (Node.Below.root.childAt? there)).namedChildren
  rw [children] at ordered
  have own : item.nodes.Sublist rest :=
    (List.sublist_flatten_of_mem (List.mem_map_of_mem listed)).trans
      (nodes_membersFrom context [] rest)
  obtain ⟨first, inside, start⟩ := exists_startOf item.nodes_ne_nil
  rw [start]
  exact List.rel_of_pairwise_cons ordered.apart (own.subset inside)

theorem isMethodKind_of_mem_members {item : Declared}
    (listed : item ∈ members context container) :
    Entity.isMethodKind item.entity.inner.kind = true := by
  unfold members at listed
  split at listed
  · obtain ⟨child, -, found⟩ := member?_of_mem_membersFrom listed
    exact (Entity.of_member? found).2.2
  · cases listed

theorem memberPieces_within (grammatical : Grammatical language container) {piece : Piece}
    (member : piece ∈ memberPieces context container) :
    piece.Within container.start container.stop := by
  obtain ⟨item, listed, inside⟩ := List.mem_flatMap.mp member
  obtain ⟨placed, start, stop⟩ := (members_in_order grammatical).1 item listed
  obtain ⟨low, middle, high⟩ := placed.within inside
  exact ⟨by omega, middle, by omega⟩

theorem memberPieces_parted (grammatical : Grammatical language container) :
    (memberPieces context container).Pairwise Piece.Parted := by
  obtain ⟨each, ordered⟩ := @members_in_order language context container grammatical
  refine List.pairwise_flatMap.mpr ⟨fun item listed => ?_, ?_⟩
  · exact (each item listed).1.parted (by simp [type_of_mem_members listed]) _
  · refine ordered.imp_of_mem fun first second before piece inside other inside' _ => ?_
    have stop := ((each _ first).1.within inside).2.2
    have start := ((each _ second).1.within inside').1
    exact .inl (by omega)

theorem Declared.placed_of_mem_segments {children : List Node} {item : Declared}
    (each : ∀ node ∈ children, Grammatical context.language node) (ordered : InOrder children)
    (listed : .declared item ∈ segments context children) : item.Placed context.language where
  nodes := (segments_in_order ordered).1 _ listed
  outer := by
    refine each _ ((infix_of_mem_segments listed).subset ?_)
    simp [Segment.nodes, Declared.nodes]
  inner := (sound_of_mem_segments listed).1.inner

theorem Segment.within {children : List Node}
    (each : ∀ node ∈ children, Grammatical context.language node) (ordered : InOrder children)
    {segment : Segment} (listed : segment ∈ segments context children) {piece : Piece}
    (member : piece ∈ segment.pieces context) :
    piece.Within (startOf segment.nodes) (stopOf segment.nodes) := by
  cases segment with
  | run nodes =>
      obtain ⟨some, rfl⟩ := of_mem_blockPieces member
      have inOrder := (segments_in_order ordered).1 _ listed
      obtain ⟨first, inside, start⟩ := exists_startOf some
      have proper := inOrder.proper first inside
      have stop := inOrder.le_stopOf inside
      refine ⟨Nat.le_refl _, ?_, Nat.le_refl _⟩
      dsimp only [Segment.nodes] at stop ⊢
      omega
  | imported node => cases member
  | declared item =>
      have placed := Declared.placed_of_mem_segments each ordered listed
      change piece.Within (startOf item.nodes) (stopOf item.nodes)
      rcases List.mem_append.mp member with own | below
      · exact placed.within own
      · obtain ⟨low, middle, high⟩ :=
          memberPieces_within (placed.outer.below placed.inner) below
        have inner := placed.outer.within placed.inner
        have start := placed.startOf_le
        rw [item.stopOf_nodes]
        exact ⟨by omega, middle, by omega⟩

theorem Segment.parted {children : List Node}
    (each : ∀ node ∈ children, Grammatical context.language node) (ordered : InOrder children)
    {segment : Segment} (listed : segment ∈ segments context children) :
    (segment.pieces context).Pairwise Piece.Parted := by
  cases segment with
  | run nodes => exact pairwise_blockPieces context nodes
  | imported node => exact .nil
  | declared item =>
      have sound := sound_of_mem_segments listed
      have placed := Declared.placed_of_mem_segments each ordered listed
      have inner := placed.outer.below placed.inner
      have symbol : item.type ≠ .doc := by
        intro doc
        have isSymbol := sound.isSymbol
        rw [doc] at isSymbol
        cases isSymbol
      refine List.pairwise_append.mpr
        ⟨placed.parted symbol _, memberPieces_parted inner, fun piece own other below same => ?_⟩
      obtain ⟨method, inMembers, inside⟩ := List.mem_flatMap.mp below
      have within := memberPieces_within inner below
      rcases List.mem_append.mp own with comment | rest
      · obtain ⟨-, -, -, stop⟩ := placed.comment comment
        have start := (placed.outer.within placed.inner).1
        exact .inl (by have := within.1; omega)
      · rcases List.mem_cons.mp rest with rfl | docstring
        · -- Code of the same type as a member would be a method of Go, which has no members.
          rcases Declared.type_of_mem_pieces inside with doc | code
          · exact absurd (same.trans doc) symbol
          · have go : context.language = .go := by
              refine sound.1.method (sound.2.1 ▸ ?_)
              rw [code] at same
              exact same.trans (type_of_mem_members inMembers)
            have method' := ((members_in_order inner).1 method inMembers).1
            exact absurd go ((method'.outer.below method'.inner).not_go
              (isMethodKind_of_mem_members inMembers))
        · obtain ⟨doc, found, rfl⟩ := List.mem_map.mp docstring
          have before := docstring_before_members inner (Option.mem_toList.mp found) inMembers
          have start := (((members_in_order inner).1 method inMembers).1.within inside).1
          exact .inl (Nat.le_trans before start)

/-- Of two chunks of a scope with the same type, one ends before the other starts. -/
theorem scopePieces_parted (grammatical : Grammatical context.language tree) :
    (∀ piece ∈ scopePieces context tree.namedChildren, piece.start ≤ piece.stop) ∧
      (scopePieces context tree.namedChildren).Pairwise Piece.Parted := by
  have ordered := grammatical.namedChildren
  have each : ∀ node ∈ tree.namedChildren, Grammatical context.language node :=
    fun node => grammatical.of_mem_namedChildren
  constructor
  · intro piece member
    obtain ⟨segment, listed, inside⟩ := List.mem_flatMap.mp member
    exact (Segment.within each ordered listed inside).2.1
  · refine List.pairwise_flatMap.mpr ⟨fun segment listed => Segment.parted each ordered listed, ?_⟩
    refine (segments_in_order ordered).2.imp_of_mem
      fun first second before piece inside other inside' _ => ?_
    have stop := (Segment.within each ordered first inside).2.2
    have start := (Segment.within each ordered second inside').1
    exact .inl (by omega)

theorem row_mono (source : Source) {position position' : Nat} (le : position ≤ position') :
    source.row position ≤ source.row position' := by
  unfold Source.row Text.newlines
  exact (List.take_sublist_take_left le).countP_le

theorem Piece.lineStart_le_lineEnd (context : Context) (piece : Piece) :
    (piece.chunk context).lineStart ≤ (piece.chunk context).lineEnd :=
  Nat.succ_le_succ (row_mono context.source (Nat.le_max_right _ _))

theorem Piece.lineEnd_le_lineStart (context : Context) {a b : Piece} (proper : a.start ≤ a.stop)
    (before : a.stop ≤ b.start) : (a.chunk context).lineEnd ≤ (b.chunk context).lineStart :=
  Nat.succ_le_succ (row_mono context.source (by omega))

theorem Piece.Parted.one_line {a b : Piece} (parted : a.Parted b) (proper : a.start ≤ a.stop)
    (proper' : b.start ≤ b.stop) (alike : (a.chunk context).Alike (b.chunk context)) :
    (a.chunk context).lineStart = (a.chunk context).lineEnd := by
  have own := a.lineStart_le_lineEnd context
  have start := alike.lineStart
  have stop := alike.lineEnd
  rcases parted alike.type with before | after
  · have := Piece.lineEnd_le_lineStart context proper before
    omega
  · have := Piece.lineEnd_le_lineStart context proper' after
    omega

theorem chunksOfTree_of_sorted (content : String)
    (some : scopeChunks context tree.namedChildren ≠ [])
    (sorted : (scopeChunks context tree.namedChildren).Pairwise
      (fun a b => lineLe a b = true)) :
    chunksOfTree context content tree = scopeChunks context tree.namedChildren := by
  have found : (scopeChunks context tree.namedChildren).isEmpty = false := by simpa using some
  simp only [chunksOfTree, found, Bool.false_and, Bool.false_eq_true, if_false]
  exact List.mergeSort_of_pairwise sorted

theorem alike_on_one_line (content : String) (grammatical : Grammatical context.language tree) :
    (chunksOfTree context content tree).Pairwise
      (fun a b => a.Alike b → a.Twins b) := by
  have symmetric : Std.Symm fun a b : Chunk => a.Alike b → a.Twins b := by
    refine ⟨fun a b twins alike => (twins ?_).symm⟩
    exact ⟨alike.label.symm, alike.type.symm, alike.lineStart.symm, alike.lineEnd.symm⟩
  refine (List.mergeSort_perm _ _).symm.pairwise ?_ (fun {a b} => symmetric.symm a b)
  split
  · exact List.pairwise_singleton _ _
  · obtain ⟨proper, parted⟩ := scopePieces_parted grammatical
    rw [scopeChunks_eq, List.pairwise_map]
    refine parted.imp_of_mem fun first second apart alike => ⟨alike, ?_⟩
    exact apart.one_line (proper _ first) (proper _ second) alike

/-- As long as no two keys of a file are given the same identifier, only twins share one. -/
theorem ids_distinct_iff (content : String) (grammatical : Grammatical context.language tree)
    (injective : ∀ a ∈ chunksOfTree context content tree,
      ∀ b ∈ chunksOfTree context content tree, a.id = b.id → a.key = b.key) :
    ((chunksOfTree context content tree).map Chunk.id).Nodup ↔
      (chunksOfTree context content tree).Pairwise (fun a b => ¬a.Twins b) := by
  have own := allBelong_chunksOfTree context content tree
  have sameKey {a b : Chunk} (first : a ∈ chunksOfTree context content tree)
      (second : b ∈ chunksOfTree context content tree) : a.key = b.key ↔ a.Alike b :=
    Chunk.key_eq_iff ((own a first).filePath.trans (own b second).filePath.symm)
  rw [List.Nodup, List.pairwise_map]
  constructor
  · refine fun distinct => distinct.imp_of_mem fun first second differ twins => differ ?_
    rw [(own _ first).id_eq, (own _ second).id_eq, (sameKey first second).mpr twins.1]
  · intro apart
    refine ((alike_on_one_line content grammatical).and apart).imp_of_mem
      fun {a b} first second both same => both.2 (both.1 ?_)
    exact (sameKey first second).mp (injective a first b second same)

end Chunking

end CodeGraph
