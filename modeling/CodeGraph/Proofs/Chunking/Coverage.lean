import CodeGraph.Proofs.Chunking.Entities
import CodeGraph.Proofs.Chunking.Segments
import Mathlib.Data.List.Induction
import Mathlib.Data.List.Pairwise

/-!
No statement of a scope is lost. Its siblings are the nodes of its segments, one segment after the
other; so what is not an import lies in a block, in a declaration, in the documentation of one, or
in a run that is too short for a block. Blocks and declarations follow one another as their segments
do, and no import is part of either.
-/

set_option autoImplicit false

namespace CodeGraph.Chunking

open CodeGraph.Syntax

structure InOrder (nodes : List Node) : Prop where
  proper : ∀ node ∈ nodes, node.start ≤ node.stop
  apart : nodes.Pairwise (fun a b => a.stop ≤ b.start)

instance (nodes : List Node) : Decidable (InOrder nodes) :=
  decidable_of_iff ((∀ node ∈ nodes, node.start ≤ node.stop) ∧
    nodes.Pairwise (fun a b => a.stop ≤ b.start))
    ⟨fun both => ⟨both.1, both.2⟩, fun ordered => ⟨ordered.proper, ordered.apart⟩⟩

variable {nodes part : List Node} {node : Node} {context : Context}

theorem InOrder.sublist (ordered : InOrder nodes) (sub : part.Sublist nodes) : InOrder part :=
  ⟨fun node member => ordered.proper node (sub.subset member), ordered.apart.sublist sub⟩

theorem exists_startOf (some : nodes ≠ []) : ∃ node ∈ nodes, startOf nodes = node.start := by
  cases nodes with
  | nil => exact absurd rfl some
  | cons first rest => exact ⟨first, List.mem_cons_self .., rfl⟩

theorem exists_stopOf (some : nodes ≠ []) : ∃ node ∈ nodes, stopOf nodes = node.stop := by
  refine ⟨nodes.getLast some, List.getLast_mem some, ?_⟩
  simp [stopOf, List.getLast?_eq_some_getLast some]

theorem InOrder.startOf_le (ordered : InOrder nodes) (member : node ∈ nodes) :
    startOf nodes ≤ node.start := by
  cases nodes with
  | nil => cases member
  | cons first rest =>
      change first.start ≤ node.start
      rcases List.mem_cons.mp member with rfl | later
      · exact Nat.le_refl _
      · have proper := ordered.proper first (List.mem_cons_self ..)
        have apart := List.rel_of_pairwise_cons ordered.apart later
        omega

theorem InOrder.le_stopOf (ordered : InOrder nodes) (member : node ∈ nodes) :
    node.stop ≤ stopOf nodes := by
  induction nodes using List.reverseRecOn with
  | nil => cases member
  | append_singleton earlier last _ =>
      have stop : stopOf (earlier ++ [last]) = last.stop := by simp [stopOf]
      rw [stop]
      rcases List.mem_append.mp member with before | same
      · have apart := (List.pairwise_append.mp ordered.apart).2.2 node before last (by simp)
        have proper := ordered.proper last (by simp)
        omega
      · exact Nat.le_of_eq (congrArg Node.stop (List.mem_singleton.mp same))

theorem le_entityStart {entity : Entity} {decorations : List Node} {bound : Nat}
    (outer : bound ≤ entity.outer.start) (above : ∀ node ∈ decorations, bound ≤ node.start) :
    bound ≤ entityStart entity decorations := by
  suffices folded : ∀ (starts : List Nat) (first : Nat), bound ≤ first →
      (∀ start ∈ starts, bound ≤ start) → bound ≤ starts.foldl min first by
    refine folded _ _ outer fun start member => ?_
    obtain ⟨node, inside, rfl⟩ := List.mem_map.mp member
    exact above node (List.mem_filter.mp inside).1
  intro starts
  induction starts with
  | nil => exact fun first low _ => low
  | cons start rest ih =>
      intro first low all
      obtain ⟨head, tail⟩ := List.forall_mem_cons.mp all
      exact ih (min first start) (by omega) tail

theorem entityStart_le (entity : Entity) (decorations : List Node) :
    entityStart entity decorations ≤ entity.outer.start ∧
      ∀ node ∈ decorations, isAttribute node = true →
        entityStart entity decorations ≤ node.start := by
  have folded (starts : List Nat) (first : Nat) :
      starts.foldl min first ≤ first ∧ ∀ start ∈ starts, starts.foldl min first ≤ start := by
    induction starts generalizing first with
    | nil => simp
    | cons start rest ih =>
        obtain ⟨low, all⟩ := ih (min first start)
        refine ⟨by simp only [List.foldl_cons]; omega, ?_⟩
        refine List.forall_mem_cons.mpr ⟨?_, all⟩
        simp only [List.foldl_cons]
        omega
  obtain ⟨low, all⟩ := folded ((decorations.filter isAttribute).map Node.start) entity.outer.start
  refine ⟨low, fun node member isAttribute => all _ ?_⟩
  exact List.mem_map_of_mem (List.mem_filter.mpr ⟨member, isAttribute⟩)

theorem isImport_of_isDecoration (decoration : isDecoration node = true) :
    isImport context node = false := by
  have kinds : node.kind = "comment" ∨ node.kind = "line_comment" ∨ node.kind = "block_comment" ∨
      node.kind = "attribute_item" := by
    simpa [isDecoration, isComment, isAttribute, or_assoc] using decoration
  rcases kinds with kind | kind | kind | kind
  all_goals
    cases language : context.language <;>
      simp [isImport, Language.importKinds, kind, language]

def Segment.Sound (context : Context) : Segment → Prop
  | .run nodes => nodes ≠ [] ∧ ∀ node ∈ nodes, isImport context node = false
  | .imported node => isImport context node = true
  | .declared item =>
      item.entity.Reads context.language item.entity.outer ∧ item.type = item.entity.type ∧
        isImport context item.entity.outer = false ∧
        ∀ node ∈ item.decorations, isDecoration node = true

theorem nodes_ofRun (nodes : List Node) : (Segment.ofRun nodes).flatMap Segment.nodes = nodes := by
  cases nodes <;> simp [Segment.ofRun, Segment.nodes]

theorem nodes_segmentsFrom (context : Context) (block pending rest : List Node) :
    (segmentsFrom context block pending rest).flatMap Segment.nodes = block ++ pending ++ rest := by
  induction rest generalizing block pending with
  | nil => simp [segmentsFrom, nodes_ofRun]
  | cons child rest ih =>
      rw [segmentsFrom]
      split
      · simp [ih]
      · split
        · simp [ih, nodes_ofRun, Segment.nodes]
        · split
          · simp [ih]
          next entity found =>
            have outer := (Entity.reads_of_ofNode? found).outer
            simp [ih, nodes_ofRun, Segment.nodes, Declared.nodes, attachedTo, outer,
              ← List.append_assoc (List.take _ _)]

/-- The segments of a scope hold its siblings, in their order and each once. -/
theorem nodes_segments (context : Context) (children : List Node) :
    (segments context children).flatMap Segment.nodes = children :=
  nodes_segmentsFrom context [] [] children

theorem sound_ofRun (plain : ∀ node ∈ nodes, isImport context node = false) :
    ∀ segment ∈ Segment.ofRun nodes, segment.Sound context := by
  intro segment member
  cases nodes with
  | nil => cases member
  | cons first rest =>
      rw [List.mem_singleton.mp member]
      exact ⟨by simp, plain⟩

theorem not_import_append {block pending : List Node}
    (plain : ∀ node ∈ block, isImport context node = false)
    (decorations : ∀ node ∈ pending, isDecoration node = true) :
    ∀ node ∈ block ++ pending, isImport context node = false := by
  intro node member
  rcases List.mem_append.mp member with gathered | waiting
  · exact plain node gathered
  · exact isImport_of_isDecoration (decorations node waiting)

theorem sound_segmentsFrom {block pending : List Node} (rest : List Node)
    (plain : ∀ node ∈ block, isImport context node = false)
    (decorations : ∀ node ∈ pending, isDecoration node = true) :
    ∀ segment ∈ segmentsFrom context block pending rest, segment.Sound context := by
  induction rest generalizing block pending with
  | nil => exact sound_ofRun (not_import_append plain decorations)
  | cons child rest ih =>
      have fresh := @ih [] [] (by simp) (by simp)
      rw [segmentsFrom]
      split
      next decoration =>
        refine ih plain fun node member => ?_
        rcases List.mem_append.mp member with waiting | last
        · exact decorations node waiting
        · rwa [List.mem_singleton.mp last]
      next =>
        split
        next imported =>
          simp only [List.forall_mem_append, List.forall_mem_cons]
          exact ⟨sound_ofRun (not_import_append plain decorations), imported, fresh⟩
        next other =>
          have notImport : isImport context child = false := by simpa using other
          split
          next =>
            refine ih ?_ (by simp)
            rw [List.forall_mem_append, List.forall_mem_singleton]
            exact ⟨not_import_append plain decorations, notImport⟩
          -- Of what was pending only the nodes right above the entity go with it.
          next entity found =>
            have reads := Entity.reads_of_ofNode? found
            simp only [List.forall_mem_append, List.forall_mem_cons]
            refine ⟨sound_ofRun (not_import_append plain ?_), ?_, fresh⟩
            · exact fun node inside => decorations node (List.mem_of_mem_take inside)
            · refine ⟨by rwa [reads.outer], rfl, by rwa [reads.outer], ?_⟩
              exact fun node inside => decorations node (List.mem_of_mem_drop inside)

theorem sound_of_mem_segments {children : List Node} {segment : Segment}
    (member : segment ∈ segments context children) : segment.Sound context :=
  sound_segmentsFrom children (by simp) (by simp) segment member

theorem Segment.Sound.isSymbol {item : Declared} (sound : Segment.Sound context (.declared item)) :
    item.type.isSymbol = true := by
  obtain ⟨reads, type, -⟩ := sound
  rw [type]
  exact reads.symbol

theorem Segment.Sound.nodes_ne_nil {segment : Segment} (sound : segment.Sound context) :
    segment.nodes ≠ [] := by
  cases segment with
  | run nodes => exact sound.1
  | imported node => simp [nodes]
  | declared item => simp [nodes, Declared.nodes]

theorem stopOf_le_startOf {nodes nodes' : List Node} (some : nodes ≠ []) (some' : nodes' ≠ [])
    (apart : ∀ a ∈ nodes, ∀ b ∈ nodes', a.stop ≤ b.start) : stopOf nodes ≤ startOf nodes' := by
  obtain ⟨last, inside, stop⟩ := exists_stopOf some
  obtain ⟨first, inside', start⟩ := exists_startOf some'
  rw [stop, start]
  exact apart last inside first inside'

theorem either_of_pairwise {α : Type} {R : α → α → Prop} {items : List α}
    (pairwise : items.Pairwise R) {a b : α} (first : a ∈ items) (second : b ∈ items)
    (differ : a ≠ b) : R a b ∨ R b a := by
  have symmetric : Std.Symm fun a b => R a b ∨ R b a := ⟨fun _ _ => Or.symm⟩
  have either : items.Pairwise (fun a b => R a b ∨ R b a) := pairwise.imp fun before => .inl before
  exact either.forall first second differ

theorem segments_in_order {children : List Node} (ordered : InOrder children) :
    (∀ segment ∈ segments context children, InOrder segment.nodes) ∧
      (segments context children).Pairwise
        (fun a b => stopOf a.nodes ≤ startOf b.nodes) := by
  have apart := ordered.apart
  rw [← nodes_segments context children, List.pairwise_flatMap] at apart
  constructor
  · intro segment member
    refine ⟨fun node inside => ordered.proper node ?_, apart.1 segment member⟩
    rw [← nodes_segments context children]
    exact List.mem_flatMap.mpr ⟨segment, member, inside⟩
  · refine apart.2.imp_of_mem fun first second before => ?_
    exact stopOf_le_startOf (sound_of_mem_segments first).nodes_ne_nil
      (sound_of_mem_segments second).nodes_ne_nil before

def Piece.Covers (piece : Piece) (node : Node) : Prop :=
  piece.start ≤ node.start ∧ node.stop ≤ piece.stop

def Segment.topPieces (context : Context) : Segment → List Piece
  | .run nodes => blockPieces context nodes
  | .imported _ => []
  | .declared item => [item.code]

theorem of_mem_blockPieces {piece : Piece} (member : piece ∈ blockPieces context nodes) :
    nodes ≠ [] ∧ piece = ⟨startOf nodes, stopOf nodes, .block, none, none⟩ := by
  unfold blockPieces at member
  split at member
  · exact of_mem_overNodes member
  · cases member

theorem pairwise_overNodes {R : Piece → Piece → Prop} (nodes : List Node) (type : ChunkType)
    (symbol kind : Option String) : (overNodes nodes type symbol kind).Pairwise R := by
  unfold overNodes
  split
  · exact .nil
  · exact List.pairwise_singleton _ _

theorem pairwise_blockPieces {R : Piece → Piece → Prop} (context : Context) (nodes : List Node) :
    (blockPieces context nodes).Pairwise R := by
  unfold blockPieces
  split
  · exact pairwise_overNodes nodes _ _ _
  · exact .nil

theorem InOrder.covers_overNodes (ordered : InOrder nodes) (member : node ∈ nodes)
    (type : ChunkType) (symbol kind : Option String) :
    ∃ piece ∈ overNodes nodes type symbol kind, piece.Covers node := by
  have some : nodes.isEmpty = false := by
    cases nodes with
    | nil => cases member
    | cons => rfl
  refine ⟨_, by rw [overNodes, some]; exact List.mem_singleton_self _, ?_⟩
  exact ⟨ordered.startOf_le member, ordered.le_stopOf member⟩

theorem Declared.code_within {item : Declared} (ordered : InOrder item.nodes) :
    startOf item.nodes ≤ item.code.start ∧ item.code.stop ≤ stopOf item.nodes := by
  constructor
  · refine le_entityStart (ordered.startOf_le (by simp [nodes])) fun node above => ?_
    exact ordered.startOf_le (by simp [nodes, above])
  · exact ordered.le_stopOf (by simp [nodes])

theorem within_of_mem_topPieces {segment : Segment} (ordered : InOrder segment.nodes)
    {piece : Piece} (member : piece ∈ segment.topPieces context) :
    startOf segment.nodes ≤ piece.start ∧ piece.stop ≤ stopOf segment.nodes := by
  cases segment with
  | run nodes =>
      obtain ⟨-, rfl⟩ := of_mem_blockPieces member
      exact ⟨Nat.le_refl _, Nat.le_refl _⟩
  | imported node => cases member
  | declared item =>
      rw [List.mem_singleton.mp member]
      exact item.code_within ordered

theorem Declared.covers {item : Declared} (ordered : InOrder item.nodes)
    (decorations : ∀ node ∈ item.decorations, isDecoration node = true)
    (member : node ∈ item.nodes) (language : Language) :
    ∃ piece ∈ item.pieces language, piece.Covers node := by
  obtain ⟨start, attributes⟩ := entityStart_le item.entity item.decorations
  rcases List.mem_append.mp member with above | outer
  · have kind : isComment node = true ∨ isAttribute node = true := by
      simpa [isDecoration] using decorations node above
    rcases kind with comment | isAttribute
    · have comments : InOrder (item.decorations.filter isComment) :=
        ordered.sublist (List.filter_sublist.trans (List.sublist_append_left _ _))
      obtain ⟨piece, inside, covers⟩ := comments.covers_overNodes
        (List.mem_filter.mpr ⟨above, comment⟩) .doc (some item.entity.name) (some "doc_comment")
      exact ⟨piece, List.mem_append_left _ inside, covers⟩
    · have before := (List.pairwise_append.mp ordered.apart).2.2 node above _
        (List.mem_singleton_self _)
      have proper := ordered.proper item.entity.outer (by simp [nodes])
      refine ⟨item.code, by simp [pieces], attributes node above isAttribute, ?_⟩
      exact Nat.le_trans before proper
  · rw [List.mem_singleton.mp outer]
    exact ⟨item.code, by simp [pieces], start, Nat.le_refl _⟩

theorem Segment.Sound.covers {segment : Segment} (sound : segment.Sound context)
    (ordered : InOrder segment.nodes) (member : node ∈ segment.nodes)
    (plain : isImport context node = false) :
    (∃ piece ∈ segment.pieces context, piece.Covers node) ∨
      ∃ run, segment = .run run ∧ solidLength (runText context run) < context.minBlockSize := by
  cases segment with
  | run nodes =>
      by_cases long : context.minBlockSize ≤ solidLength (runText context nodes)
      · obtain ⟨piece, inside, covers⟩ := ordered.covers_overNodes member .block none none
        refine .inl ⟨piece, ?_, covers⟩
        rw [pieces, blockPieces, if_pos long]
        exact inside
      · exact .inr ⟨nodes, rfl, by omega⟩
  | imported other =>
      rw [List.mem_singleton.mp member] at plain
      rw [show isImport context other = true from sound] at plain
      cases plain
  | declared item =>
      obtain ⟨piece, inside, covers⟩ := item.covers ordered sound.2.2.2 member context.language
      exact .inl ⟨piece, List.mem_append_left _ inside, covers⟩

theorem Declared.type_of_mem_pieces {item : Declared} {language : Language} {piece : Piece}
    (member : piece ∈ item.pieces language) : piece.type = .doc ∨ piece = item.code := by
  rcases List.mem_append.mp member with comment | rest
  · obtain ⟨-, rfl⟩ := of_mem_overNodes comment
    exact .inl rfl
  · rcases List.mem_cons.mp rest with code | inside
    · exact .inr code
    · obtain ⟨doc, -, rfl⟩ := List.mem_map.mp inside
      exact .inl rfl

theorem type_of_mem_membersFrom {item : Declared} {pending rest : List Node}
    (member : item ∈ membersFrom context pending rest) : item.type = .method := by
  induction rest generalizing pending with
  | nil => cases member
  | cons child rest ih =>
      rw [membersFrom] at member
      split at member
      · exact ih member
      · split at member
        · rcases List.mem_cons.mp member with rfl | later
          · rfl
          · exact ih later
        · exact ih member

theorem type_of_mem_members {item : Declared} {container : Node}
    (member : item ∈ members context container) : item.type = .method := by
  unfold members at member
  split at member
  · exact type_of_mem_membersFrom member
  · cases member

theorem Segment.Sound.mem_topPieces {segment : Segment} (sound : segment.Sound context)
    {piece : Piece} (member : piece ∈ segment.pieces context) (block : piece.type = .block) :
    ∃ nodes, segment = .run nodes ∧ piece ∈ segment.topPieces context := by
  cases segment with
  | run nodes => exact ⟨nodes, rfl, member⟩
  | imported node => cases member
  | declared item =>
      have symbol : item.type ≠ .block := by
        intro same
        have isSymbol := sound.isSymbol
        rw [same] at isSymbol
        cases isSymbol
      rcases List.mem_append.mp member with own | below
      · rcases Declared.type_of_mem_pieces own with doc | code
        · cases doc.symm.trans block
        · rw [code] at block
          exact absurd block symbol
      · obtain ⟨method, listed, inside⟩ := List.mem_flatMap.mp below
        rcases Declared.type_of_mem_pieces inside with doc | code
        · cases doc.symm.trans block
        · rw [code] at block
          cases (type_of_mem_members listed).symm.trans block

theorem infix_of_mem_segments {children : List Node} {segment : Segment}
    (member : segment ∈ segments context children) : segment.nodes <:+: children := by
  obtain ⟨before, after, split⟩ := List.append_of_mem member
  refine ⟨before.flatMap Segment.nodes, after.flatMap Segment.nodes, ?_⟩
  rw [← nodes_segments context children, split]
  simp

structure Accounted (context : Context) (children : List Node) : Prop where
  chunks : scopeChunks context children =
    (scopePieces context children).map (Piece.chunk context)
  /-- A sibling that is no import lies in a chunk, or in a run that is too short for a block. -/
  covered : ∀ node ∈ children, isImport context node = false →
    (∃ piece ∈ scopePieces context children, piece.Covers node) ∨
      ∃ run, .run run ∈ segments context children ∧ node ∈ run ∧ run <:+: children ∧
        solidLength (runText context run) < context.minBlockSize
  /-- Blocks and declarations follow one another. -/
  apart : ((segments context children).flatMap (Segment.topPieces context)).Pairwise
    (fun a b => a.stop ≤ b.start)
  imports : ∀ node ∈ children, isImport context node = true →
    ∀ piece ∈ scopePieces context children, piece.type = .block →
      node.stop ≤ piece.start ∨ piece.stop ≤ node.start

theorem exists_segment {children : List Node} (member : node ∈ children) :
    ∃ segment ∈ segments context children, node ∈ segment.nodes := by
  rw [← nodes_segments context children] at member
  exact List.mem_flatMap.mp member

theorem siblings_are_accounted_for (context : Context) {children : List Node}
    (ordered : InOrder children) : Accounted context children := by
  obtain ⟨inOrder, apart⟩ := @segments_in_order context children ordered
  refine ⟨scopeChunks_eq context children, ?_, ?_, ?_⟩
  · intro node member plain
    obtain ⟨segment, listed, inside⟩ := @exists_segment node context children member
    rcases (sound_of_mem_segments listed).covers (inOrder segment listed) inside plain with
      ⟨piece, found, covers⟩ | ⟨run, rfl, short⟩
    · exact .inl ⟨piece, List.mem_flatMap.mpr ⟨segment, listed, found⟩, covers⟩
    · exact .inr ⟨run, listed, inside, infix_of_mem_segments listed, short⟩
  · rw [List.pairwise_flatMap]
    constructor
    · intro segment listed
      cases segment with
      | run nodes => exact pairwise_blockPieces context nodes
      | imported node => exact .nil
      | declared item => exact List.pairwise_singleton _ _
    · refine apart.imp_of_mem fun {a b} first second before x inside y inside' => ?_
      have stop := (within_of_mem_topPieces (inOrder a first) inside).2
      have start := (within_of_mem_topPieces (inOrder b second) inside').1
      omega
  · intro node member imported piece found block
    obtain ⟨own, listed, inside⟩ := @exists_segment node context children member
    obtain ⟨other, listed', inside'⟩ := List.mem_flatMap.mp found
    obtain ⟨run, rfl, top⟩ := (sound_of_mem_segments listed').mem_topPieces inside' block
    obtain ⟨start, stop⟩ := within_of_mem_topPieces (inOrder _ listed') top
    -- The import is no node of the run, so the two stand in different segments.
    have differ : own ≠ .run run := by
      rintro rfl
      have plain := (sound_of_mem_segments listed).2 node inside
      rw [imported] at plain
      cases plain
    have first := (inOrder own listed).startOf_le inside
    have last := (inOrder own listed).le_stopOf inside
    rcases either_of_pairwise apart listed listed' differ with before | after
    · exact .inl (by omega)
    · exact .inr (by omega)

def script : String :=
  "import a from 'a';\n// note\n\n/** Calls a. */\nfunction f() \x7b a(); \x7d\nf();\n"

def scriptContext : Context :=
  ⟨Source.ofString script, "a.js", .javaScript, defaultBlockSize⟩

def scriptNodes : List Node :=
  (Language.javaScript.tree script.toList).namedChildren

theorem script_is_accounted_for :
    scriptNodes.length = 5 ∧ (scopeChunks scriptContext scriptNodes).length = 2 ∧
      Accounted scriptContext scriptNodes :=
  ⟨by decide +kernel, by decide +kernel,
    siblings_are_accounted_for scriptContext (by decide +kernel)⟩

end CodeGraph.Chunking
