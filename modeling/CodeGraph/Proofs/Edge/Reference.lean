import CodeGraph.Edge.Reference
import CodeGraph.Proofs.Chunking.Documentation
import CodeGraph.Proofs.Edge.Merge

/-!
The references of a file, described by its chunks and its uses of names alone: a use leads from the
shortest chunk around its line, or from the file, to the first chunk that goes by the name. All uses
from one node to another make one edge, which tells the line of the first of them, and both kinds of
use if there are calls and types among them.
-/

set_option autoImplicit false

namespace CodeGraph

namespace Edge

def Surrounds (line : Nat) (chunk : Chunk) : Prop :=
  chunk.type ≠ .doc ∧ chunk.lineStart ≤ line ∧ line ≤ chunk.lineEnd

/-- The first one of the shortest chunks around a line. -/
def IsAround (line : Nat) (chunks : List Chunk) (chunk : Chunk) : Prop :=
  ∃ before after, chunks = before ++ chunk :: after ∧ Surrounds line chunk ∧
    (∀ other ∈ before, Surrounds line other →
      chunk.lineEnd - chunk.lineStart < other.lineEnd - other.lineStart) ∧
    ∀ other ∈ after, Surrounds line other →
      chunk.lineEnd - chunk.lineStart ≤ other.lineEnd - other.lineStart

section Around

variable {line : Nat} {chunks : List Chunk} {first chunk other : Chunk}

theorem surrounds_iff :
    (chunk.type != .doc && chunk.containsLine line) = true ↔ Surrounds line chunk := by
  simp [Surrounds, Chunk.containsLine]

theorem isAround_cons_iff : IsAround line (first :: chunks) chunk ↔
    (chunk = first ∧ Surrounds line first ∧ ∀ other ∈ chunks, Surrounds line other →
      first.lineEnd - first.lineStart ≤ other.lineEnd - other.lineStart) ∨
    (IsAround line chunks chunk ∧ (Surrounds line first →
      chunk.lineEnd - chunk.lineStart < first.lineEnd - first.lineStart)) := by
  constructor
  · rintro ⟨before, after, split, around, above, below⟩
    cases before with
    | nil =>
        obtain ⟨rfl, rfl⟩ := List.cons.inj split
        exact .inl ⟨rfl, around, below⟩
    | cons head before =>
        obtain ⟨rfl, rfl⟩ := List.cons.inj split
        obtain ⟨longer, above⟩ := List.forall_mem_cons.mp above
        exact .inr ⟨⟨before, after, rfl, around, above, below⟩, longer⟩
  · rintro (⟨rfl, around, below⟩ | ⟨⟨before, after, rfl, around, above, below⟩, longer⟩)
    · exact ⟨[], chunks, rfl, around, by simp, below⟩
    · exact ⟨first :: before, after, rfl, around, List.forall_mem_cons.mpr ⟨longer, above⟩, below⟩

theorem IsAround.member (around : IsAround line chunks chunk) :
    chunk ∈ chunks ∧ Surrounds line chunk := by
  obtain ⟨before, after, rfl, surrounds, -⟩ := around
  exact ⟨by simp, surrounds⟩

theorem IsAround.le (around : IsAround line chunks chunk) (member : other ∈ chunks)
    (surrounds : Surrounds line other) :
    chunk.lineEnd - chunk.lineStart ≤ other.lineEnd - other.lineStart := by
  obtain ⟨before, after, rfl, -, above, below⟩ := around
  rcases List.mem_append.mp member with early | late
  · exact Nat.le_of_lt (above other early surrounds)
  · rcases List.mem_cons.mp late with rfl | late
    · exact Nat.le_refl _
    · exact below other late surrounds

theorem IsAround.unique (one : IsAround line chunks chunk) (two : IsAround line chunks other) :
    chunk = other := by
  induction chunks with
  | nil => cases one.member.1
  | cons first rest ih =>
      rcases isAround_cons_iff.mp one with ⟨rfl, around, below⟩ | ⟨inner, longer⟩ <;>
        rcases isAround_cons_iff.mp two with ⟨rfl, around', below'⟩ | ⟨inner', longer'⟩
      · rfl
      · have := below other inner'.member.1 inner'.member.2
        exact absurd (longer' around) (Nat.not_lt.mpr this)
      · have := below' chunk inner.member.1 inner.member.2
        exact absurd (longer around') (Nat.not_lt.mpr this)
      · exact ih inner inner'

theorem enclosing?_spec (chunks : List Chunk) (line : Nat) :
    match enclosing? chunks line with
    | some chunk => IsAround line chunks chunk
    | none => ∀ chunk ∈ chunks, ¬Surrounds line chunk := by
  induction chunks with
  | nil => simp [enclosing?, narrowest?]
  | cons first rest ih =>
      -- A tie goes to the earlier chunk: the head gives way to a shorter one only.
      by_cases around : Surrounds line first
      · have step : enclosing? (first :: rest) line =
            match enclosing? rest line with
            | some other => if other.lineSpan < first.lineSpan then some other else some first
            | none => some first := by
          rw [enclosing?, List.filter_cons, if_pos (surrounds_iff.mpr around), narrowest?]
          rfl
        rw [step]
        cases found : enclosing? rest line with
        | none =>
            rw [found] at ih
            exact isAround_cons_iff.mpr
              (.inl ⟨rfl, around, fun other inside held => absurd held (ih other inside)⟩)
        | some other =>
            rw [found] at ih
            dsimp only at ih ⊢
            by_cases shorter : other.lineSpan < first.lineSpan
            · rw [if_pos shorter]
              exact isAround_cons_iff.mpr (.inr ⟨ih, fun _ => shorter⟩)
            · rw [if_neg shorter]
              refine isAround_cons_iff.mpr (.inl ⟨rfl, around, fun third inside held => ?_⟩)
              exact Nat.le_trans (Nat.not_lt.mp shorter) (ih.le inside held)
      · have step : enclosing? (first :: rest) line = enclosing? rest line := by
          rw [enclosing?, List.filter_cons, if_neg (mt surrounds_iff.mp around)]
          rfl
        rw [step]
        cases found : enclosing? rest line with
        | none =>
            rw [found] at ih
            exact List.forall_mem_cons.mpr ⟨around, ih⟩
        | some other =>
            rw [found] at ih
            exact isAround_cons_iff.mpr (.inr ⟨ih, fun held => absurd held around⟩)

end Around

def IsDefinition (name : String) (chunks : List Chunk) (chunk : Chunk) : Prop :=
  ∃ before after, chunks = before ++ chunk :: after ∧ GoesBy name chunk ∧
    ∀ other ∈ before, ¬GoesBy name other

/-- The node that a line belongs to: the chunk around it, or the file. -/
def IsUser (path : String) (line : Nat) (chunks : List Chunk) (node : String) : Prop :=
  (∃ chunk, IsAround line chunks chunk ∧ node = chunk.id) ∨
    (∀ chunk ∈ chunks, ¬Surrounds line chunk) ∧ node = path

structure Refers (path : String) (chunks : List Chunk) (source target : String) (site : Site) :
    Prop where
  user : IsUser path site.line chunks source
  definition : ∃ chunk, IsDefinition site.name chunks chunk ∧ target = chunk.id
  differ : source ≠ target

def ofUse (source target kind : String) (site : Site) : Edge :=
  (({ source, target, kind := .references } : Edge).withProperty "kind"
    (.string kind)).withProperty "line" (.nat site.line)

variable {path source target kind : String} {chunks : List Chunk} {site : Site} {edge : Edge}

theorem definition?_eq_some_iff {name : String} {chunk : Chunk} :
    definition? chunks name = some chunk ↔ IsDefinition name chunks chunk := by
  simp only [definition?, List.find?_eq_some_iff_append, IsDefinition, GoesBy, Bool.and_eq_true,
    beq_iff_eq, Bool.not_eq_true']
  grind

theorem isUser_iff {line : Nat} :
    IsUser path line chunks source ↔ ((enclosing? chunks line).map Chunk.id).getD path = source := by
  have spec := enclosing?_spec chunks line
  cases found : enclosing? chunks line with
  | none =>
      rw [found] at spec
      constructor
      · rintro (⟨chunk, around, -⟩ | ⟨-, rfl⟩)
        · exact absurd around.member.2 (spec chunk around.member.1)
        · rfl
      · rintro rfl
        exact .inr ⟨spec, rfl⟩
  | some chunk =>
      rw [found] at spec
      constructor
      · rintro (⟨other, around, rfl⟩ | ⟨nowhere, -⟩)
        · rw [IsAround.unique around spec]
          rfl
        · exact absurd spec.member.2 (nowhere chunk spec.member.1)
      · rintro rfl
        exact .inl ⟨chunk, spec, rfl⟩

theorem reference?_eq_some_iff : reference? path chunks kind site = some edge ↔
    ∃ source target, Refers path chunks source target site ∧
      edge = ofUse source target kind site := by
  constructor
  · intro made
    obtain ⟨chunk, defined, rest⟩ := Option.bind_eq_some_iff.mp made
    dsimp only at rest
    split at rest
    · cases rest
    next differ =>
      cases rest
      exact ⟨_, _, ⟨isUser_iff.mpr rfl, ⟨chunk, definition?_eq_some_iff.mp defined, rfl⟩, differ⟩,
        rfl⟩
  · rintro ⟨source, target, ⟨user, ⟨chunk, defined, rfl⟩, differ⟩, rfl⟩
    refine Option.bind_eq_some_iff.mpr ⟨chunk, definition?_eq_some_iff.mpr defined, ?_⟩
    obtain rfl := isUser_iff.mp user
    exact if_neg differ

theorem key_ofUse : (ofUse source target kind site).key = (source, target, .references) :=
  rfl

theorem filter_filterMap_reference? [DecidablePred (Refers path chunks source target)]
    (sites : List Site) :
    (sites.filterMap (reference? path chunks kind)).filter
        (fun edge => edge.key = (source, target, .references)) =
      (sites.filter (Refers path chunks source target)).map (ofUse source target kind) := by
  induction sites with
  | nil => rfl
  | cons site rest ih =>
      by_cases refers : Refers path chunks source target site
      · have made : reference? path chunks kind site = some (ofUse source target kind site) :=
          reference?_eq_some_iff.mpr ⟨source, target, refers, rfl⟩
        simp only [List.filterMap_cons_some made, List.filter_cons, key_ofUse, refers, ih,
          decide_true, if_true, List.map_cons]
      · rw [List.filter_cons_of_neg (by simpa using refers), ← ih]
        cases made : reference? path chunks kind site with
        | none => rw [List.filterMap_cons_none made]
        | some edge =>
            rw [List.filterMap_cons_some made]
            refine List.filter_cons_of_neg fun same => ?_
            obtain ⟨source', target', refers', rfl⟩ := reference?_eq_some_iff.mp made
            simp only [key_ofUse, decide_eq_true_eq, Prod.mk.injEq] at same
            obtain ⟨rfl, rfl, -⟩ := same
            exact refers refers'

theorem properties_ofUse : (ofUse source target kind site).properties =
    [("kind", .string kind), ("line", .nat site.line)] := by
  simp only [ofUse, withProperty, Properties.insert, String.reduceEq, String.reduceLT, reduceIte]

theorem kindText?_ofUse : (ofUse source target kind site).kindText? = some kind := by
  rw [kindText?, properties_ofUse]
  rfl

theorem kindTexts_ofUse : (ofUse source target kind site).kindTexts = [kind] := by
  rw [kindTexts, properties_ofUse, kindText?_ofUse]
  rfl

def ofBoth (source target : String) (site : Site) : Edge :=
  (ofUse source target "call" site).withProperty "kinds" (.array [.string "call", .string "type"])

theorem properties_ofBoth : (ofBoth source target site).properties =
    [("kind", .string "call"), ("kinds", .array [.string "call", .string "type"]),
      ("line", .nat site.line)] := by
  simp only [ofBoth, withProperty, properties_ofUse, Properties.insert, String.reduceEq,
    String.reduceLT, reduceIte]

theorem kindTexts_ofBoth : (ofBoth source target site).kindTexts = ["call", "type"] := by
  rw [kindTexts, properties_ofBoth]
  rfl

theorem mergeKind_ofUse {call type : Site} :
    mergeKind (ofUse source target "call" call) (ofUse source target "type" type) =
      ofBoth source target call := by
  rw [mergeKind, kindText?_ofUse, kindTexts_ofUse]
  rfl

theorem foldl_mergeKind_uses {kept : Edge} (known : kind ∈ kept.kindTexts) (sites : List Site) :
    (sites.map (ofUse source target kind)).foldl mergeKind kept = kept := by
  refine foldl_mergeKind_of_known fun duplicate member => ?_
  obtain ⟨site, -, rfl⟩ := List.mem_map.mp member
  exact ⟨kind, known, kindText?_ofUse⟩

theorem merge_uses (source target : String) (calls types : List Site) :
    merge (calls.map (ofUse source target "call") ++ types.map (ofUse source target "type")) =
      match calls, types with
      | [], [] => []
      | [], type :: _ => [ofUse source target "type" type]
      | call :: _, [] => [ofUse source target "call" call]
      | call :: _, _ :: _ => [ofBoth source target call] := by
  have same (calls types : List Site) :
      ∀ edge ∈ calls.map (ofUse source target "call") ++ types.map (ofUse source target "type"),
        edge.key = (source, target, .references) := by
    simp [or_imp, forall_and, key_ofUse]
  have known (kind : String) (site : Site) : kind ∈ (ofUse source target kind site).kindTexts := by
    rw [kindTexts_ofUse]
    exact List.mem_singleton_self kind
  cases calls with
  | nil =>
      cases types with
      | nil => rfl
      | cons type types =>
          rw [List.map_nil, List.nil_append, List.map_cons, merge_of_same_key (same [] types),
            foldl_mergeKind_uses (known "type" type)]
  | cons call calls =>
      rw [List.map_cons, List.cons_append, merge_of_same_key (same calls types), List.foldl_append,
        foldl_mergeKind_uses (known "call" call)]
      cases types with
      | nil => rfl
      | cons type types =>
          have both : "type" ∈ (ofBoth source target call).kindTexts := by
            rw [kindTexts_ofBoth]
            decide
          rw [List.map_cons, List.foldl_cons, mergeKind_ofUse, foldl_mergeKind_uses both]

end Edge

def Facts.uses (facts : Facts) : List (String × Site) :=
  facts.calls.map (fun site => ("call", site)) ++ facts.typeRefs.map (fun site => ("type", site))

namespace Edge

/-- Both a call and a type lead from one node to another. -/
def UsedBothWays (path : String) (chunks : List Chunk) (facts : Facts) (source target : String) :
    Prop :=
  (∃ site ∈ facts.calls, Refers path chunks source target site) ∧
    ∃ site ∈ facts.typeRefs, Refers path chunks source target site

def IsFirstUse (path : String) (chunks : List Chunk) (facts : Facts) (source target : String)
    (use : String × Site) : Prop :=
  ∃ before after, facts.uses = before ++ use :: after ∧ Refers path chunks source target use.2 ∧
    ∀ earlier ∈ before, ¬Refers path chunks source target earlier.2

variable {path source target : String} {facts : Facts} {chunks : List Chunk} {edge : Edge}

theorem mem_references_iff : edge ∈ references path facts chunks ↔
    ∃ use ∈ facts.uses, ∃ source target, Refers path chunks source target use.2 ∧
      edge = ofUse source target use.1 use.2 := by
  simp only [references, Facts.uses, List.mem_append, List.mem_filterMap, List.mem_map,
    reference?_eq_some_iff]
  constructor
  · rintro (⟨site, member, made⟩ | ⟨site, member, made⟩)
    · exact ⟨("call", site), .inl ⟨site, member, rfl⟩, made⟩
    · exact ⟨("type", site), .inr ⟨site, member, rfl⟩, made⟩
  · rintro ⟨use, ⟨site, member, rfl⟩ | ⟨site, member, rfl⟩, made⟩
    · exact .inl ⟨site, member, made⟩
    · exact .inr ⟨site, member, made⟩

theorem filter_references [DecidablePred (Refers path chunks source target)] :
    (references path facts chunks).filter (fun edge => edge.key = (source, target, .references)) =
      (facts.calls.filter (Refers path chunks source target)).map (ofUse source target "call") ++
      (facts.typeRefs.filter (Refers path chunks source target)).map
        (ofUse source target "type") := by
  rw [references, List.filter_append, filter_filterMap_reference?, filter_filterMap_reference?]

theorem isFirstUse_of_call {before after : List Site} {site : Site}
    (split : facts.calls = before ++ site :: after)
    (refers : Refers path chunks source target site)
    (first : ∀ earlier ∈ before, ¬Refers path chunks source target earlier) :
    IsFirstUse path chunks facts source target ("call", site) := by
  refine ⟨before.map (fun site => ("call", site)),
    after.map (fun site => ("call", site)) ++ facts.typeRefs.map (fun site => ("type", site)), ?_,
    refers, List.forall_mem_map.mpr first⟩
  simp [Facts.uses, split]

theorem isFirstUse_of_type {before after : List Site} {site : Site}
    (uncalled : ∀ call ∈ facts.calls, ¬Refers path chunks source target call)
    (split : facts.typeRefs = before ++ site :: after)
    (refers : Refers path chunks source target site)
    (first : ∀ earlier ∈ before, ¬Refers path chunks source target earlier) :
    IsFirstUse path chunks facts source target ("type", site) := by
  refine ⟨facts.calls.map (fun site => ("call", site)) ++ before.map (fun site => ("type", site)),
    after.map (fun site => ("type", site)), ?_, refers, ?_⟩
  · simp [Facts.uses, split]
  · exact List.forall_mem_append.mpr
      ⟨List.forall_mem_map.mpr uncalled, List.forall_mem_map.mpr first⟩

theorem exists_firstUse (member : edge ∈ merge (references path facts chunks))
    (key : edge.key = (source, target, .references)) :
    ∃ use, IsFirstUse path chunks facts source target use ∧
      ((UsedBothWays path chunks facts source target ∧ use.1 = "call" ∧
          edge = ofBoth source target use.2) ∨
        (¬UsedBothWays path chunks facts source target ∧
          edge = ofUse source target use.1 use.2)) := by
  classical
  rw [mem_merge_iff, key, filter_references, merge_uses] at member
  -- Calls come before types, so the first use is a call if there is one.
  cases calls : facts.calls.filter (Refers path chunks source target) with
  | nil =>
      have uncalled : ∀ call ∈ facts.calls, ¬Refers path chunks source target call := by
        simpa using List.filter_eq_nil_iff.mp calls
      cases types : facts.typeRefs.filter (Refers path chunks source target) with
      | nil =>
          rw [calls, types] at member
          cases member
      | cons type rest =>
          rw [calls, types] at member
          obtain ⟨before, after, split, first, refers, -⟩ := List.filter_eq_cons_iff.mp types
          refine ⟨("type", type), isFirstUse_of_type uncalled split (by simpa using refers)
            (by simpa using first), .inr ⟨?_, List.mem_singleton.mp member⟩⟩
          rintro ⟨⟨call, listed, called⟩, -⟩
          exact uncalled call listed called
  | cons call rest =>
      obtain ⟨before, after, split, first, refers, -⟩ := List.filter_eq_cons_iff.mp calls
      have firstUse : IsFirstUse path chunks facts source target ("call", call) :=
        isFirstUse_of_call split (by simpa using refers) (by simpa using first)
      refine ⟨("call", call), firstUse, ?_⟩
      cases types : facts.typeRefs.filter (Refers path chunks source target) with
      | nil =>
          have untyped : ∀ type ∈ facts.typeRefs, ¬Refers path chunks source target type := by
            simpa using List.filter_eq_nil_iff.mp types
          rw [calls, types] at member
          refine .inr ⟨?_, List.mem_singleton.mp member⟩
          rintro ⟨-, type, listed, typed⟩
          exact untyped type listed typed
      | cons type others =>
          rw [calls, types] at member
          have typed := List.mem_filter.mp (types ▸ List.mem_cons_self .. : type ∈ _)
          have called := List.mem_filter.mp (calls ▸ List.mem_cons_self .. : call ∈ _)
          exact .inl ⟨⟨⟨call, called.1, by simpa using called.2⟩, type, typed.1,
            by simpa using typed.2⟩, rfl, List.mem_singleton.mp member⟩

/-- The merged references of a file: one edge from a node to another if there is a use between
them. It tells the kind and the line of the first use, and both kinds if there are both. -/
theorem references_are_exact (path : String) (facts : Facts) (chunks : List Chunk) :
    let edges := merge (references path facts chunks)
    (edges.map fun edge => (edge.source, edge.target)).Nodup ∧
    (∀ source target, (∃ edge ∈ edges, edge.source = source ∧ edge.target = target) ↔
      ∃ use ∈ facts.uses, Refers path chunks source target use.2) ∧
    ∀ edge ∈ edges, edge.kind = .references ∧ edge.source ≠ edge.target ∧
      ∃ use, IsFirstUse path chunks facts edge.source edge.target use ∧
        (UsedBothWays path chunks facts edge.source edge.target →
          edge.properties = [("kind", .string use.1),
            ("kinds", .array [.string "call", .string "type"]), ("line", .nat use.2.line)]) ∧
        (¬UsedBothWays path chunks facts edge.source edge.target →
          edge.properties = [("kind", .string use.1), ("line", .nat use.2.line)]) := by
  intro edges
  have origin {edge : Edge} (member : edge ∈ edges) : edge.kind = .references ∧
      ∃ use ∈ facts.uses, Refers path chunks edge.source edge.target use.2 := by
    obtain ⟨made, inside, source, target, kind⟩ := exists_of_mem_merge member
    obtain ⟨use, listed, user, definition, refers, rfl⟩ := mem_references_iff.mp inside
    exact ⟨kind.symm, use, listed, by rwa [← source, ← target]⟩
  have key {edge : Edge} (member : edge ∈ edges) :
      edge.key = (edge.source, edge.target, .references) := by
    rw [Edge.key, (origin member).1]
  refine ⟨?_, fun source target => ⟨?_, ?_⟩, fun edge member => ?_⟩
  · -- All edges have one kind, so that different keys have different ends.
    have keys : edges.map Edge.key =
        (edges.map fun edge => (edge.source, edge.target)).map
          (fun ends => (ends.1, ends.2, .references)) := by
      rw [List.map_map]
      exact List.map_congr_left fun edge member => key member
    exact List.Nodup.of_map _ (keys ▸ nodup_key_merge (references path facts chunks))
  · rintro ⟨edge, member, rfl, rfl⟩
    exact (origin member).2
  · rintro ⟨use, listed, refers⟩
    have made := mem_references_iff.mpr ⟨use, listed, source, target, refers, rfl⟩
    obtain ⟨edge, member, same⟩ := List.mem_map.mp
      ((mem_map_key_merge _ _).mpr (List.mem_map_of_mem (f := Edge.key) made))
    rw [key_ofUse, Edge.key, Prod.mk.injEq, Prod.mk.injEq] at same
    exact ⟨edge, member, same.1, same.2.1⟩
  · obtain ⟨kind, use, -, refers⟩ := origin member
    obtain ⟨first, isFirst, made⟩ := exists_firstUse member (key member)
    refine ⟨kind, refers.differ, first, isFirst, fun both => ?_, fun either => ?_⟩
    · obtain ⟨-, called, same⟩ := made.resolve_right fun other => other.1 both
      rw [same, called, properties_ofBoth]
    · obtain ⟨-, same⟩ := made.resolve_left fun other => either other.1
      rw [same, properties_ofUse]

end Edge

end CodeGraph
