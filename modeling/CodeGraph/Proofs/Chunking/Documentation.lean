import CodeGraph.Edge.Structure
import CodeGraph.Proofs.Chunking.Identity

/-!
Which chunk the documentation of a declaration is linked to. The link is found again from names and
lines alone: it goes to the nearest chunk of the same name that starts on or below the first line of
the documentation, and to a chunk above only if there is none. A comment above its declaration is
thus linked to it, but a docstring is so only if nothing of the same name follows.
-/

set_option autoImplicit false

namespace CodeGraph

open CodeGraph.Syntax

namespace Edge

def GoesBy (name : String) (chunk : Chunk) : Prop :=
  chunk.type.isSymbol = true ∧ chunk.symbol = some name

instance (name : String) (chunk : Chunk) : Decidable (GoesBy name chunk) :=
  inferInstanceAs (Decidable (_ ∧ _))

def Nearer (doc a b : Chunk) : Prop :=
  nearer (documentDistance doc a) (documentDistance doc b) = true

instance (doc a b : Chunk) : Decidable (Nearer doc a b) :=
  inferInstanceAs (Decidable (_ = true))

theorem nearer_iff {doc a b : Chunk} :
    Nearer doc a b ↔ (documentDistance doc a).1 < (documentDistance doc b).1 ∨
      (documentDistance doc a).1 = (documentDistance doc b).1 ∧
        (documentDistance doc a).2 < (documentDistance doc b).2 := by
  simp [Nearer, nearer]

/-- Chunks that start above the documentation come after all others. -/
theorem nearer_iff_lines {doc a b : Chunk} :
    Nearer doc a b ↔ (doc.lineStart ≤ a.lineStart ∧ b.lineStart < doc.lineStart) ∨
      (doc.lineStart ≤ a.lineStart ↔ doc.lineStart ≤ b.lineStart) ∧
        max a.lineStart doc.lineEnd - min a.lineStart doc.lineEnd <
          max b.lineStart doc.lineEnd - min b.lineStart doc.lineEnd := by
  rw [nearer_iff]
  simp only [documentDistance]
  split <;> split <;> omega

structure IsNearest (doc : Chunk) (chunks : List Chunk) (target : Chunk) : Prop where
  split : ∃ before after, chunks = before ++ target :: after ∧
    (∀ other ∈ before, Nearer doc target other) ∧ ∀ other ∈ after, ¬Nearer doc other target

def choose (doc : Chunk) (best : Option Chunk) (chunk : Chunk) : Option Chunk :=
  match best with
  | none => some chunk
  | some found => if Nearer doc chunk found then some chunk else best

theorem foldl_choose (doc first : Chunk) (rest : List Chunk) :
    ∃ target, rest.foldl (choose doc) (some first) = some target ∧
      IsNearest doc (first :: rest) target := by
  induction rest generalizing first with
  | nil => exact ⟨first, rfl, [], [], rfl, by simp, by simp⟩
  | cons chunk rest ih =>
      -- A later chunk takes the place only if it is nearer, so the first of several stays.
      by_cases closer : Nearer doc chunk first
      · obtain ⟨target, chosen, before, after, split, above, below⟩ := ih chunk
        refine ⟨target, ?_, first :: before, after, by rw [split]; rfl, ?_, below⟩
        · rw [List.foldl_cons, choose, if_pos closer, chosen]
        · refine List.forall_mem_cons.mpr ⟨?_, above⟩
          cases before with
          | nil => exact (List.cons.inj split).1 ▸ closer
          | cons head others =>
              obtain ⟨rfl, -⟩ := List.cons.inj split
              have nearest := above chunk (List.mem_cons_self ..)
              rw [nearer_iff] at closer nearest ⊢
              omega
      · obtain ⟨target, chosen, before, after, split, above, below⟩ := ih first
        have kept : (chunk :: rest).foldl (choose doc) (some first) = some target := by
          rw [List.foldl_cons, choose, if_neg closer, chosen]
        cases before with
        | nil =>
            obtain ⟨rfl, rfl⟩ := List.cons.inj split
            exact ⟨_, kept, [], chunk :: rest, rfl, by simp,
              List.forall_mem_cons.mpr ⟨closer, below⟩⟩
        | cons head others =>
            obtain ⟨rfl, rfl⟩ := List.cons.inj split
            obtain ⟨nearest, above⟩ := List.forall_mem_cons.mp above
            refine ⟨target, kept, first :: chunk :: others, after, rfl, ?_, below⟩
            refine List.forall_mem_cons.mpr ⟨nearest, List.forall_mem_cons.mpr ⟨?_, above⟩⟩
            rw [nearer_iff] at closer nearest ⊢
            omega

def named (name : String) (chunks : List Chunk) : List Chunk :=
  chunks.filter (fun chunk => chunk.type.isSymbol && chunk.symbol == some name)

theorem mem_named {name : String} {chunks : List Chunk} {chunk : Chunk} :
    chunk ∈ named name chunks ↔ chunk ∈ chunks ∧ GoesBy name chunk := by
  simp [named, GoesBy]

theorem documented?_eq (chunks : List Chunk) (doc : Chunk) :
    documented? chunks doc =
      doc.symbol.bind fun name => (named name chunks).foldl (choose doc) none :=
  rfl

theorem exists_documented? {name : String} {chunks : List Chunk} {doc code : Chunk}
    (symbol : doc.symbol = some name) (member : code ∈ named name chunks) :
    ∃ target, documented? chunks doc = some target ∧ IsNearest doc (named name chunks) target := by
  rw [documented?_eq, symbol, Option.bind_some]
  cases found : named name chunks with
  | nil =>
      rw [found] at member
      cases member
  | cons first rest => exact foldl_choose doc first rest

/-- A chunk that is nearer than every other one, or as near and listed before it. Chunks with the
key of `code` stand for it. -/
def Prevails (doc code : Chunk) (chunks : List Chunk) : Prop :=
  ∀ before other after, chunks = before ++ other :: after → other.key ≠ code.key →
    Nearer doc code other ∨ ¬Nearer doc other code ∧ ∃ own ∈ before, own.key = code.key

theorem IsNearest.key_eq_iff {doc code target : Chunk} {chunks : List Chunk}
    (nearest : IsNearest doc chunks target) (member : code ∈ chunks)
    (paths : ∀ chunk ∈ chunks, chunk.filePath = code.filePath) :
    target.key = code.key ↔ Prevails doc code chunks := by
  -- Chunks with one key are equally far from everything.
  have distance {a : Chunk} (inside : a ∈ chunks) (same : a.key = code.key) :
      documentDistance doc a = documentDistance doc code := by
    have alike := (Chunk.key_eq_iff (paths a inside)).mp same
    simp only [documentDistance, alike.lineStart]
  obtain ⟨before, after, rfl, above, below⟩ := nearest.split
  constructor
  · intro own first other last split differ
    have same := distance (by simp) own
    have placed : other ∈ before ∨ target ∈ first ∧ other ∈ after := by
      rcases List.append_eq_append_iff.mp split with ⟨middle, rfl, tail⟩ | ⟨middle, rfl, tail⟩
      · cases middle with
        | nil => exact absurd ((List.cons.inj tail).1 ▸ own) differ
        | cons head rest =>
            obtain ⟨rfl, rfl⟩ := List.cons.inj tail
            exact .inr ⟨by simp, by simp⟩
      · cases middle with
        | nil => exact absurd ((List.cons.inj tail).1 ▸ own) differ
        | cons head rest =>
            obtain ⟨rfl, -⟩ := List.cons.inj tail
            exact .inl (by simp)
    rcases placed with earlier | ⟨listed, later⟩
    · left
      have nearest := above other earlier
      rwa [Nearer, same] at nearest
    · right
      have notNearer := below other later
      rw [Nearer, same] at notNearer
      exact ⟨notNearer, target, listed, own⟩
  · intro prevails
    by_contra differ
    rcases prevails before target after rfl differ with nearest | ⟨notNearer, own, listed, same⟩
    · rcases List.mem_append.mp member with earlier | rest
      · have other := above code earlier
        rw [nearer_iff] at nearest other
        omega
      · rcases List.mem_cons.mp rest with rfl | later
        · exact differ rfl
        · exact below code later nearest
    · have nearest := above own listed
      rw [Nearer, distance (by simp [listed]) same] at nearest
      exact notNearer nearest

theorem prevails_of_nearer {doc code : Chunk} {chunks : List Chunk}
    (nearer : ∀ other ∈ chunks, other.key ≠ code.key → Nearer doc code other) :
    Prevails doc code chunks := by
  intro before other after split differ
  exact .inl (nearer other (by simp [split]) differ)

theorem Prevails.not_nearer {doc code other : Chunk} {chunks : List Chunk}
    (prevails : Prevails doc code chunks) (member : other ∈ chunks) (differ : other.key ≠ code.key) :
    ¬Nearer doc other code := by
  obtain ⟨before, after, split⟩ := List.append_of_mem member
  rcases prevails before other after split differ with nearer | ⟨notNearer, -⟩
  · rw [nearer_iff] at nearer ⊢
    omega
  · exact notNearer

variable {doc code : Chunk} {chunks : List Chunk}

/-- Documentation above its code: what starts above the documentation or below the code is further
away. -/
theorem prevails_below_doc (lines : doc.lineStart ≤ doc.lineEnd)
    (above : doc.lineEnd ≤ code.lineStart)
    (others : ∀ other ∈ chunks, other.key ≠ code.key →
      other.lineStart < doc.lineStart ∨ code.lineStart < other.lineStart) :
    Prevails doc code chunks := by
  refine prevails_of_nearer fun other member differ => ?_
  have place := others other member differ
  rw [nearer_iff_lines]
  omega

/-- Documentation below the start of its code: every other chunk that follows is preferred. -/
theorem prevails_above_doc_iff (lines : doc.lineStart ≤ doc.lineEnd)
    (below : code.lineStart < doc.lineStart)
    (others : ∀ other ∈ chunks, other.key ≠ code.key →
      other.lineStart < code.lineStart ∨ doc.lineStart ≤ other.lineStart) :
    Prevails doc code chunks ↔
      ∀ other ∈ chunks, other.key ≠ code.key → other.lineStart < doc.lineStart := by
  constructor
  · intro prevails other member differ
    have notNearer := prevails.not_nearer member differ
    rw [nearer_iff_lines] at notNearer
    omega
  · refine fun early => prevails_of_nearer fun other member differ => ?_
    have place := others other member differ
    have start := early other member differ
    rw [nearer_iff_lines]
    omega

end Edge

namespace Chunking

variable {context : Context} {children : List Node} {tree : Node} {language : Language}

def Segment.declarations (context : Context) : Segment → List Declared
  | .declared item => item :: members context item.entity.inner
  | _ => []

def declarations (context : Context) (children : List Node) : List Declared :=
  (segments context children).flatMap (Segment.declarations context)

def Declared.docs (language : Language) (item : Declared) : List Piece :=
  item.comment ++ item.docstring language

theorem Declared.of_mem_docs {item : Declared} {piece : Piece}
    (member : piece ∈ item.docs language) :
    piece.type = .doc ∧ piece.symbol = some item.entity.name := by
  rcases List.mem_append.mp member with comment | docstring
  · obtain ⟨-, rfl⟩ := of_mem_overNodes comment
    exact ⟨rfl, rfl⟩
  · obtain ⟨doc, -, rfl⟩ := List.mem_map.mp docstring
    exact ⟨rfl, rfl⟩

theorem Declared.mem_pieces {item : Declared} {piece : Piece} :
    piece ∈ item.pieces language ↔ piece ∈ item.docs language ∨ piece = item.code := by
  simp only [pieces, docs, List.mem_append, List.mem_cons]
  tauto

theorem isSymbol_of_mem_declarations {item : Declared}
    (listed : item ∈ declarations context children) : item.type.isSymbol = true := by
  obtain ⟨segment, inside, own⟩ := List.mem_flatMap.mp listed
  cases segment with
  | run nodes => cases own
  | imported node => cases own
  | declared top =>
      rcases List.mem_cons.mp own with rfl | member
      · exact (sound_of_mem_segments inside).isSymbol
      · rw [type_of_mem_members member]
        rfl

theorem mem_scopePieces_iff {piece : Piece} (other : piece.type ≠ .block) :
    piece ∈ scopePieces context children ↔
      ∃ item ∈ declarations context children, piece ∈ item.pieces context.language := by
  have each (segment : Segment) : piece ∈ segment.pieces context ↔
      ∃ item ∈ segment.declarations context, piece ∈ item.pieces context.language := by
    cases segment with
    | run nodes =>
        constructor
        · intro member
          obtain ⟨-, rfl⟩ := of_mem_blockPieces member
          exact absurd rfl other
        · rintro ⟨item, ⟨⟩, -⟩
    | imported node => simp [Segment.pieces, Segment.declarations]
    | declared item => simp [Segment.pieces, Segment.declarations, memberPieces]
  simp only [scopePieces, declarations, List.mem_flatMap, each]
  tauto

theorem mem_chunksOfTree {content : String} {chunk : Chunk} (other : chunk.type ≠ .file) :
    chunk ∈ chunksOfTree context content tree ↔
      ∃ piece ∈ scopePieces context tree.namedChildren, chunk = piece.chunk context := by
  have scope : chunk ∈ scopeChunks context tree.namedChildren ↔
      ∃ piece ∈ scopePieces context tree.namedChildren, chunk = piece.chunk context := by
    rw [scopeChunks_eq, List.mem_map]
    simp only [eq_comm]
  rw [chunksOfTree, List.mem_mergeSort, ← scope]
  split
  next only =>
    have empty : scopeChunks context tree.namedChildren = [] := by
      simpa using (Bool.and_eq_true_iff.mp only).1
    rw [empty, List.mem_singleton]
    constructor
    · rintro rfl
      exact absurd rfl other
    · intro member
      cases member
  next => rfl

theorem code_of_mem_named {content name : String} {chunk : Chunk}
    (member : chunk ∈ Edge.named name (chunksOfTree context content tree)) :
    ∃ item ∈ declarations context tree.namedChildren, chunk = item.code.chunk context := by
  obtain ⟨inside, symbol, -⟩ := Edge.mem_named.mp member
  have type {other : ChunkType} (no : other.isSymbol = false) : chunk.type ≠ other := by
    rintro rfl
    rw [symbol] at no
    cases no
  obtain ⟨piece, listed, rfl⟩ := (mem_chunksOfTree (type rfl)).mp inside
  obtain ⟨item, declared, own⟩ := (mem_scopePieces_iff (type rfl)).mp listed
  rcases Declared.mem_pieces.mp own with doc | rfl
  · exact absurd (Declared.of_mem_docs doc).1 (type rfl)
  · exact ⟨item, declared, rfl⟩

namespace Declared

/-- A declaration and its docstring begin before another declaration with all that is above it. -/
def Leads (language : Language) (a b : Declared) : Prop :=
  a.entity.outer.start ≤ startOf b.nodes ∧
    ∀ piece ∈ a.docstring language, piece.start ≤ startOf b.nodes

variable {a b : Declared} {language' : Language}

theorem Placed.leads (placed : a.Placed language) (before : stopOf a.nodes ≤ startOf b.nodes) :
    a.Leads language' b := by
  rw [a.stopOf_nodes] at before
  refine ⟨Nat.le_trans placed.proper before, fun piece docstring => ?_⟩
  obtain ⟨-, -, proper, stop⟩ := placed.docstring docstring
  omega

theorem Leads.start_le (leads : a.Leads language b) (placed : b.Placed language') :
    a.code.start ≤ startOf b.nodes ∧ startOf b.nodes ≤ b.code.start :=
  ⟨Nat.le_trans (entityStart_le a.entity a.decorations).1 leads.1, placed.code.1⟩

end Declared

theorem Segment.declarations_within (each : ∀ node ∈ children, Grammatical context.language node)
    (ordered : InOrder children) {segment : Segment} (listed : segment ∈ segments context children)
    {item : Declared} (own : item ∈ segment.declarations context) :
    item.Placed context.language ∧ startOf segment.nodes ≤ startOf item.nodes ∧
      stopOf item.nodes ≤ stopOf segment.nodes := by
  cases segment with
  | run nodes => cases own
  | imported node => cases own
  | declared top =>
      have placed := Declared.placed_of_mem_segments each ordered listed
      rcases List.mem_cons.mp own with rfl | member
      · exact ⟨placed, Nat.le_refl _, Nat.le_refl _⟩
      · obtain ⟨inner, low, high⟩ :=
          (members_in_order (placed.outer.below placed.inner)).1 item member
        have within := placed.outer.within placed.inner
        have start := placed.startOf_le
        have stop := top.stopOf_nodes
        refine ⟨inner, ?_, ?_⟩
        · change startOf top.nodes ≤ _
          omega
        · change _ ≤ stopOf top.nodes
          omega

theorem Segment.declarations_lead (each : ∀ node ∈ children, Grammatical context.language node)
    (ordered : InOrder children) {segment : Segment}
    (listed : segment ∈ segments context children) :
    (segment.declarations context).Pairwise (Declared.Leads context.language) := by
  cases segment with
  | run nodes => exact .nil
  | imported node => exact .nil
  | declared top =>
      have placed := Declared.placed_of_mem_segments each ordered listed
      have inner := placed.outer.below placed.inner
      obtain ⟨own, apart⟩ := @members_in_order context.language context _ inner
      refine List.pairwise_cons.mpr ⟨fun item member => ?_, ?_⟩
      · obtain ⟨-, low, -⟩ := own item member
        refine ⟨Nat.le_trans (placed.outer.within placed.inner).1 low, fun piece docstring => ?_⟩
        obtain ⟨-, -, proper, -⟩ := placed.docstring docstring
        obtain ⟨doc, found, rfl⟩ := List.mem_map.mp docstring
        exact Nat.le_trans proper
          (docstring_before_members inner (Option.mem_toList.mp found) member)
      · exact apart.imp_of_mem fun first _ before => (own _ first).1.leads before

theorem declarations_in_order (grammatical : Grammatical context.language tree) :
    (∀ item ∈ declarations context tree.namedChildren, item.Placed context.language) ∧
      (declarations context tree.namedChildren).Pairwise (Declared.Leads context.language) := by
  have ordered := grammatical.namedChildren
  have each : ∀ node ∈ tree.namedChildren, Grammatical context.language node :=
    fun node => grammatical.of_mem_namedChildren
  constructor
  · intro item listed
    obtain ⟨segment, inside, own⟩ := List.mem_flatMap.mp listed
    exact (Segment.declarations_within each ordered inside own).1
  · refine List.pairwise_flatMap.mpr
      ⟨fun segment inside => Segment.declarations_lead each ordered inside, ?_⟩
    refine (segments_in_order ordered).2.imp_of_mem fun first second before a own b own' => ?_
    obtain ⟨placed, -, stop⟩ := Segment.declarations_within each ordered first own
    obtain ⟨-, start, -⟩ := Segment.declarations_within each ordered second own'
    exact placed.leads (by omega)

theorem Piece.lineStart_mono (context : Context) {a b : Piece} (le : a.start ≤ b.start) :
    (a.chunk context).lineStart ≤ (b.chunk context).lineStart :=
  Nat.succ_le_succ (row_mono context.source le)

theorem lines_of_declared (grammatical : Grammatical context.language tree)
    {item other : Declared} (own : item ∈ declarations context tree.namedChildren)
    (listed : other ∈ declarations context tree.namedChildren) (differ : item ≠ other) :
    (∀ piece ∈ item.comment,
      (other.code.chunk context).lineStart ≤ (piece.chunk context).lineStart ∨
        (item.code.chunk context).lineStart ≤ (other.code.chunk context).lineStart) ∧
    ∀ piece ∈ item.docstring context.language,
      (other.code.chunk context).lineStart ≤ (item.code.chunk context).lineStart ∨
        (piece.chunk context).lineStart ≤ (other.code.chunk context).lineStart := by
  obtain ⟨placed, ordered⟩ := declarations_in_order grammatical
  rcases either_of_pairwise ordered own listed differ with leads | leads
  · obtain ⟨start, code⟩ := leads.start_le (placed other listed)
    refine ⟨fun piece comment => .inr ?_, fun piece docstring => .inr ?_⟩
    · exact Piece.lineStart_mono context (Nat.le_trans start code)
    · exact Piece.lineStart_mono context (Nat.le_trans (leads.2 piece docstring) code)
  · obtain ⟨start, code⟩ := leads.start_le (placed item own)
    refine ⟨fun piece comment => .inl ?_, fun piece docstring => .inl ?_⟩
    · have above := ((placed item own).comment comment).2.1
      exact Piece.lineStart_mono context (Nat.le_trans start above)
    · exact Piece.lineStart_mono context (Nat.le_trans start code)

structure Linked (chunks : List Chunk) (name : String) (doc code target : Chunk) : Prop where
  listed : doc ∈ chunks
  named : code ∈ Edge.named name chunks
  edge : ⟨doc.id, target.id, .documents, []⟩ ∈ Edge.documents chunks
  id : target.key = code.key → target.id = code.id
  home : target.key = code.key ↔ Edge.Prevails doc code (Edge.named name chunks)

def Rival (chunks : List Chunk) (name : String) (code other : Chunk) : Prop :=
  other ∈ Edge.named name chunks ∧ other.key ≠ code.key

variable {content : String} {item : Declared} {piece : Piece}

theorem exists_linked (content : String) (listed : item ∈ declarations context tree.namedChildren)
    (member : piece ∈ item.docs context.language) :
    ∃ target, Linked (chunksOfTree context content tree) item.entity.name (piece.chunk context)
      (item.code.chunk context) target := by
  obtain ⟨type, symbol⟩ := Declared.of_mem_docs member
  have isSymbol := isSymbol_of_mem_declarations listed
  have stored {part : Piece} (inside : part ∈ item.pieces context.language)
      (known : part.type = .doc ∨ part.type.isSymbol = true) :
      part.chunk context ∈ chunksOfTree context content tree := by
    have other (no : ChunkType) (neither : no ≠ .doc ∧ no.isSymbol = false) : part.type ≠ no := by
      rintro rfl
      rcases known with doc | symbol
      · exact neither.1 doc
      · rw [neither.2] at symbol
        cases symbol
    refine (mem_chunksOfTree (other .file (by decide))).mpr ⟨part, ?_, rfl⟩
    exact (mem_scopePieces_iff (other .block (by decide))).mpr ⟨item, listed, inside⟩
  have doc := stored (Declared.mem_pieces.mpr (.inl member)) (.inl type)
  have code : item.code.chunk context ∈
      Edge.named item.entity.name (chunksOfTree context content tree) :=
    Edge.mem_named.mpr
      ⟨stored (Declared.mem_pieces.mpr (.inr rfl)) (.inr isSymbol), isSymbol, rfl⟩
  -- The declaration itself is a candidate, so that some chunk is nearest.
  obtain ⟨target, chosen, nearest⟩ :=
    @Edge.exists_documented? _ _ (piece.chunk context) _ symbol code
  have belongs := allBelong_chunksOfTree context content tree
  refine ⟨target, doc, code, ?_, fun same => ?_, ?_⟩
  · exact List.mem_filterMap.mpr ⟨_, List.mem_filter.mpr ⟨doc, beq_iff_eq.mpr type⟩, by
      rw [chosen]
      rfl⟩
  · obtain ⟨before, after, split, -⟩ := nearest.split
    have inside : target ∈ Edge.named item.entity.name (chunksOfTree context content tree) := by
      simp [split]
    rw [(belongs _ (Edge.mem_named.mp inside).1).id_eq, same,
      (belongs _ (Edge.mem_named.mp code).1).id_eq]
  · refine nearest.key_eq_iff code fun chunk inside => ?_
    exact (belongs _ (Edge.mem_named.mp inside).1).filePath

/-- Every chunk of documentation belongs to a declaration, and is linked to the code of it just if
this prevails among the chunks of its name. In a tree as a parser gives it, as long as no other
chunk of the name starts on the first line of the documentation or of the code: a comment that ends
above its code is linked to it, and a docstring below the start of its code is linked to it just if
all others of the name start above. -/
theorem documentation_is_linked_home_iff (context : Context) (content : String) (tree : Node) :
    let chunks := chunksOfTree context content tree
    (∀ doc ∈ chunks, doc.type = .doc → ∃ item ∈ declarations context tree.namedChildren,
      ∃ piece ∈ item.docs context.language, doc = piece.chunk context) ∧
    ∀ item ∈ declarations context tree.namedChildren, ∀ piece ∈ item.docs context.language,
      let doc := piece.chunk context
      let code := item.code.chunk context
      ∃ target, Linked chunks item.entity.name doc code target ∧
        (Grammatical context.language tree →
          (∀ rival, Rival chunks item.entity.name code rival →
            rival.lineStart ≠ doc.lineStart ∧ rival.lineStart ≠ code.lineStart) →
          (piece ∈ item.comment → doc.lineEnd ≤ code.lineStart → target.key = code.key) ∧
          (piece ∈ item.docstring context.language → code.lineStart < doc.lineStart →
            (target.key = code.key ↔
              ∀ rival, Rival chunks item.entity.name code rival →
                rival.lineStart < doc.lineStart))) := by
  intro chunks
  constructor
  · intro doc member type
    obtain ⟨piece, listed, rfl⟩ := (mem_chunksOfTree (by rw [type]; decide)).mp member
    have kind : piece.type = .doc := type
    obtain ⟨item, declared, own⟩ := (mem_scopePieces_iff (by rw [kind]; decide)).mp listed
    rcases Declared.mem_pieces.mp own with inside | rfl
    · exact ⟨item, declared, piece, inside, rfl⟩
    · have symbol := isSymbol_of_mem_declarations declared
      rw [show item.type = .doc from kind] at symbol
      cases symbol
  · intro item listed piece member doc code
    obtain ⟨target, linked⟩ := exists_linked content listed member
    refine ⟨target, linked, fun grammatical alone => ?_⟩
    have lines : doc.lineStart ≤ doc.lineEnd := piece.lineStart_le_lineEnd context
    -- Declarations come one after the other, so the lines of a rival lie on one side.
    have order {rival : Chunk} (other : Rival chunks item.entity.name code rival) :
        (piece ∈ item.comment →
          rival.lineStart ≤ doc.lineStart ∨ code.lineStart ≤ rival.lineStart) ∧
        (piece ∈ item.docstring context.language →
          rival.lineStart ≤ code.lineStart ∨ doc.lineStart ≤ rival.lineStart) := by
      obtain ⟨origin, declared, rfl⟩ := code_of_mem_named other.1
      have differ : item ≠ origin := by
        rintro rfl
        exact other.2 rfl
      obtain ⟨comments, docstrings⟩ := lines_of_declared grammatical listed declared differ
      exact ⟨comments piece, docstrings piece⟩
    constructor
    · intro comment above
      refine linked.home.mpr (Edge.prevails_below_doc lines above fun rival inside differ => ?_)
      have apart := alone rival ⟨inside, differ⟩
      exact ((order ⟨inside, differ⟩).1 comment).imp (Nat.lt_of_le_of_ne · apart.1)
        (Nat.lt_of_le_of_ne · apart.2.symm)
    · intro docstring below
      rw [linked.home, Edge.prevails_above_doc_iff lines below fun rival inside differ =>
        ((order ⟨inside, differ⟩).2 docstring).imp_left
          (Nat.lt_of_le_of_ne · (alone rival ⟨inside, differ⟩).2)]
      exact ⟨fun early rival other => early rival other.1 other.2,
        fun early rival inside differ => early rival ⟨inside, differ⟩⟩

def classes : String :=
  "class A:\n    def f(self):\n        \"\"\"First.\"\"\"\n\n\nclass B:\n    def f(self):\n        pass\n"

def classesContext : Context :=
  ⟨Source.ofString classes, "m.py", .python, defaultBlockSize⟩

def classesTree : Node :=
  Language.python.tree classes.toList

theorem docstring_is_linked_to_another_class :
    ∃ item ∈ declarations classesContext classesTree.namedChildren,
      ∃ piece ∈ item.docstring .python, ∃ target,
        Linked (chunksOfTree classesContext classes classesTree) item.entity.name
          (piece.chunk classesContext) (item.code.chunk classesContext) target ∧
        target.key ≠ (item.code.chunk classesContext).key := by
  have sorted : chunksOfTree classesContext classes classesTree =
      scopeChunks classesContext classesTree.namedChildren :=
    chunksOfTree_of_sorted classes (by decide +kernel) (by decide +kernel)
  obtain ⟨item, listed, piece, docstring, below, alone, later⟩ :
      ∃ item ∈ declarations classesContext classesTree.namedChildren,
        ∃ piece ∈ item.docstring .python,
          (item.code.chunk classesContext).lineStart < (piece.chunk classesContext).lineStart ∧
          (∀ rival ∈ Edge.named item.entity.name
              (scopeChunks classesContext classesTree.namedChildren),
            rival.key ≠ (item.code.chunk classesContext).key →
              rival.lineStart ≠ (piece.chunk classesContext).lineStart ∧
                rival.lineStart ≠ (item.code.chunk classesContext).lineStart) ∧
          ∃ rival ∈ Edge.named item.entity.name
              (scopeChunks classesContext classesTree.namedChildren),
            rival.key ≠ (item.code.chunk classesContext).key ∧
              (piece.chunk classesContext).lineStart ≤ rival.lineStart := by
    decide +kernel
  obtain ⟨target, linked, grammatical⟩ :=
    (documentation_is_linked_home_iff classesContext classes classesTree).2 item listed piece
      (List.mem_append_right _ docstring)
  obtain ⟨-, home⟩ := grammatical (by decide +kernel) fun rival other =>
    alone rival (sorted ▸ other.1) other.2
  obtain ⟨rival, inside, differ, start⟩ := later
  refine ⟨item, listed, piece, docstring, target, linked, fun same => ?_⟩
  have early := (home docstring below).mp same rival ⟨sorted ▸ inside, differ⟩
  exact absurd start (Nat.not_le.mpr early)

end Chunking

end CodeGraph
