import CodeGraph.Proofs.CodeIndex.Restart

/-!
The hashes of the facts that an index remembers.

Facts are remembered under the hash that a file is put with. A pass asks for facts by hashes that
were recorded earlier: what it does not remember under the hash it reads from the disk, and remembers
under this hash whatever the file says by now. So what is remembered fits the hashes as long as
nothing is read that does not, and a file that was edited since it was recorded is what does not.
-/

set_option autoImplicit false

namespace CodeGraph

def contentHash (content : String) : String :=
  Digest.hex (Digest.blake3 (Text.bytes content))

def CachedFacts.Fits (grammars : Grammars) (entry : CachedFacts) : Prop :=
  ∃ content, contentHash content = entry.hash ∧
    entry.facts = Extraction.factsOf grammars entry.path content

namespace CodeIndex

def factsOnDisk? (grammars : Grammars) (disk : Disk) (root : List String) (path : String) :
    Option Facts :=
  match disk.readText (Path.components (Path.join (Path.ofComponents root) path)) with
  | .error _ => none
  | .ok content => Facts.ofFile? path content grammars

def asked (grammars : Grammars) (disk : Disk) (root : List String) (pair : String × String)
    (old : Option CachedFacts) : Option CachedFacts :=
  if (old.filter fun known => known.hash == pair.2).isSome then old
  else ((factsOnDisk? grammars disk root pair.1).map fun facts => ⟨pair.1, pair.2, facts⟩).or old

def Asked (grammars : Grammars) (disk : Disk) (root : List String) (known later : List CachedFacts)
    (pair : String × String) : Prop :=
  Table.get? CachedFacts.path later pair.1 =
    asked grammars disk root pair (Table.get? CachedFacts.path known pair.1)

structure Asks (grammars : Grammars) (disk : Disk) (root : List String)
    (files : List (String × String)) (known later : List CachedFacts) : Prop where
  unique : Table.Unique CachedFacts.path known → Table.Unique CachedFacts.path later
  listed : ∀ pair ∈ files,
    Table.get? CachedFacts.path later pair.1 = Table.get? CachedFacts.path known pair.1 ∨
      Asked grammars disk root known later pair
  others : ∀ path ∉ files.map Prod.fst,
    Table.get? CachedFacts.path later path = Table.get? CachedFacts.path known path

variable {grammars : Grammars} {disk : Disk} {root : List String} {files : List (String × String)}
  {pair : String × String} {known later last : List CachedFacts} {index : CodeIndex} {graph : Graph}

theorem asked_asked (grammars : Grammars) (disk : Disk) (root : List String) (pair : String × String)
    (old : Option CachedFacts) :
    asked grammars disk root pair (asked grammars disk root pair old) =
      asked grammars disk root pair old := by
  unfold asked
  by_cases hit : (old.filter fun known => known.hash == pair.2).isSome = true
  · simp [hit]
  · cases factsOnDisk? grammars disk root pair.1 <;> simp [hit]

theorem Asks.refl (known : List CachedFacts) : Asks grammars disk root files known known :=
  ⟨id, fun _ _ => .inl rfl, fun _ _ => rfl⟩

theorem Asked.after (first : Asks grammars disk root files known later) (listed : pair ∈ files)
    (second : Asked grammars disk root later last pair) :
    Asked grammars disk root known last pair := by
  unfold Asked at second ⊢
  rw [second]
  rcases first.listed pair listed with same | old
  · rw [same]
  · rw [old, asked_asked]

theorem Asked.stays (first : Asked grammars disk root known later pair) (listed : pair ∈ files)
    (second : Asks grammars disk root files later last) :
    Asked grammars disk root known last pair := by
  unfold Asked at first ⊢
  rcases second.listed pair listed with same | new
  · rw [same, first]
  · rw [new, first, asked_asked]

theorem Asks.trans (first : Asks grammars disk root files known later)
    (second : Asks grammars disk root files later last) :
    Asks grammars disk root files known last where
  unique unique := second.unique (first.unique unique)
  listed pair inside := by
    rcases second.listed pair inside with same | new
    · rw [same]
      exact (first.listed pair inside).imp_right fun old => same.trans old
    · exact .inr (new.after first inside)
  others path outside := (second.others path outside).trans (first.others path outside)

theorem Asks.put (distinct : (files.map Prod.fst).Nodup) (listed : pair ∈ files) {facts : Facts}
    (asks : asked grammars disk root pair (Table.get? CachedFacts.path known pair.1) =
      some ⟨pair.1, pair.2, facts⟩) :
    Asks grammars disk root files known
      (Table.put CachedFacts.path ⟨pair.1, pair.2, facts⟩ known) where
  unique unique := unique.put _
  listed other inside := by
    by_cases same : pair.1 = other.1
    · obtain rfl := List.inj_on_of_nodup_map distinct listed inside same
      exact .inr ((Table.get?_put_self CachedFacts.path ⟨pair.1, pair.2, facts⟩ known).trans
        asks.symm)
    · exact .inl (Table.get?_put_of_ne CachedFacts.path _ known _ same)
  others path outside := by
    refine Table.get?_put_of_ne CachedFacts.path _ known path fun same => outside ?_
    exact same ▸ List.mem_map_of_mem listed

theorem factsFor_asks (distinct : (files.map Prod.fst).Nodup) (listed : pair ∈ files) (disk : Disk)
    (index : CodeIndex) :
    ∃ later, (index.factsFor disk pair.1 pair.2).1 = { index with facts := later } ∧
      Asks index.grammars disk index.root files index.facts later ∧
      Asked index.grammars disk index.root index.facts later pair := by
  unfold factsFor
  cases remembered : (Table.get? CachedFacts.path index.facts pair.1).filter
      (fun known => known.hash == pair.2) with
  | some known =>
      have asks : asked index.grammars disk index.root pair
          (Table.get? CachedFacts.path index.facts pair.1) =
          Table.get? CachedFacts.path index.facts pair.1 := if_pos (by rw [remembered]; rfl)
      exact ⟨index.facts, rfl, .refl _, asks.symm⟩
  | none =>
      have asks : asked index.grammars disk index.root pair
          (Table.get? CachedFacts.path index.facts pair.1) =
          ((factsOnDisk? index.grammars disk index.root pair.1).map
            fun facts => ⟨pair.1, pair.2, facts⟩).or
            (Table.get? CachedFacts.path index.facts pair.1) := if_neg (by rw [remembered]; nofun)
      unfold factsOnDisk? at asks
      dsimp only
      cases read : disk.readText
          (Path.components (Path.join (Path.ofComponents index.root) pair.1)) with
      | error error =>
          rw [read] at asks
          exact ⟨index.facts, rfl, .refl _, asks.symm⟩
      | ok content =>
          rw [read] at asks
          dsimp only at asks ⊢
          cases made : Facts.ofFile? pair.1 content index.grammars with
          | none =>
              rw [made] at asks
              exact ⟨index.facts, rfl, .refl _, asks.symm⟩
          | some facts =>
              rw [made] at asks
              refine ⟨_, rfl, .put distinct listed asks, ?_⟩
              exact (Table.get?_put_self CachedFacts.path ⟨pair.1, pair.2, facts⟩
                index.facts).trans asks.symm

theorem targetFacts_asks (distinct : (files.map Prod.fst).Nodup) (disk : Disk) (index : CodeIndex)
    (target : String) :
    ∃ later found, index.targetFacts disk files target = ({ index with facts := later }, found) ∧
      Asks index.grammars disk index.root files index.facts later := by
  unfold targetFacts
  cases listed : files.lookup target with
  | none => exact ⟨index.facts, none, rfl, .refl _⟩
  | some hash =>
      obtain ⟨before, after, split, -⟩ := List.lookup_eq_some_iff.mp listed
      have member : (target, hash) ∈ files := by
        rw [split]
        simp
      obtain ⟨later, looked, asks, -⟩ := factsFor_asks distinct member disk index
      exact ⟨later, _, Prod.ext looked rfl, asks⟩

theorem importEdges_asks (distinct : (files.map Prod.fst).Nodup)
    (tables : index.graph.tables = some graph) (legible : graph.Legible) (path : String)
    (own : List Chunk) (targets : List (Import × String)) :
    ∃ later edges, importEdges disk files path own targets index =
        ({ index with facts := later }, .ok edges) ∧
      Asks index.grammars disk index.root files index.facts later := by
  induction targets generalizing index with
  | nil => exact ⟨index.facts, [], rfl, .refl _⟩
  | cons pair rest ih =>
      obtain ⟨later, found, looked, asks⟩ := targetFacts_asks distinct disk index pair.2
      obtain ⟨last, edges, made, more⟩ := @ih { index with facts := later } tables
      refine ⟨last, (importEdge path pair.2 pair.1 ::
        Edge.symbols path pair.1 own (graph.chunksOf pair.2) found) ++ edges, ?_, asks.trans more⟩
      rw [importEdges_cons, read_eq tables, legible.fileChunks_eq]
      dsimp only
      rw [looked]
      dsimp only
      rw [made]
      rfl

theorem linkFile_asks (distinct : (files.map Prod.fst).Nodup)
    (tables : index.graph.tables = some graph) (legible : graph.Legible) (listed : pair ∈ files) :
    ∃ after later count, index.linkFile disk files pair.1 pair.2 =
        ({ index with graph := ⟨some after⟩, facts := later }, .ok count) ∧
      after.chunks = graph.chunks ∧ Asks index.grammars disk index.root files index.facts later ∧
      Asked index.grammars disk index.root index.facts later pair := by
  obtain ⟨later, looked, asks, own⟩ := factsFor_asks distinct listed disk index
  have same : index.graph = ⟨some graph⟩ := congrArg GraphStore.mk tables
  unfold linkFile
  cases found : index.factsFor disk pair.1 pair.2 with
  | mk known outcome =>
      rw [found] at looked
      dsimp only at looked
      subst looked
      cases outcome with
      | error error => exact ⟨graph, later, 0, by rw [← same], rfl, asks, own⟩
      | ok facts =>
          dsimp only
          rw [@read_eq { index with facts := later } graph tables, legible.fileChunks_eq]
          obtain ⟨last, edges, made, more⟩ := @importEdges_asks disk files
            { index with facts := later } graph distinct tables legible pair.1
            (graph.chunksOf pair.1) (Import.targets pair.1 facts.imports (files.map Prod.fst))
          dsimp only
          rw [made]
          dsimp only
          rw [@replaceLinks_eq { index with facts := last } graph tables]
          exact ⟨_, last, _, rfl, rfl, asks.trans more, own.stays listed more⟩

theorem linkFiles_asks (distinct : (files.map Prod.fst).Nodup) (rest : List (String × String))
    (listed : ∀ pair ∈ rest, pair ∈ files) (tables : index.graph.tables = some graph)
    (legible : graph.Legible) :
    ∃ after later, (linkFiles disk files rest index).1 =
        { index with graph := ⟨some after⟩, facts := later } ∧
      after.chunks = graph.chunks ∧ Asks index.grammars disk index.root files index.facts later ∧
      ∀ pair ∈ rest, Asked index.grammars disk index.root index.facts later pair := by
  induction rest generalizing index graph with
  | nil =>
      have same : index.graph = ⟨some graph⟩ := congrArg GraphStore.mk tables
      exact ⟨graph, index.facts, by rw [← same]; rfl, rfl, .refl _, by simp⟩
  | cons pair others ih =>
      obtain ⟨first, others⟩ := List.forall_mem_cons.mp listed
      obtain ⟨after, later, count, linked, chunks, asks, own⟩ :=
        @linkFile_asks disk files pair index graph distinct tables legible first
      obtain ⟨final, last, passed, chunks', more, all⟩ :=
        @ih { index with graph := ⟨some after⟩, facts := later } after others rfl
          (by rwa [Graph.Legible, chunks])
      refine ⟨final, last, ?_, chunks'.trans chunks, asks.trans more, ?_⟩
      · rw [linkFiles, linked]
        exact passed
      · exact List.forall_mem_cons.mpr ⟨own.stays first more, fun pair inside =>
          (all pair inside).after asks (others pair inside)⟩

theorem link_asks (distinct : (files.map Prod.fst).Nodup) (tables : index.graph.tables = some graph)
    (legible : graph.Legible) :
    ∃ after later, (index.link disk files).1 =
        { index with graph := ⟨some after⟩, facts := later } ∧
      after.chunks = graph.chunks ∧ Asks index.grammars disk index.root files index.facts later ∧
      ∀ pair ∈ files, Asked index.grammars disk index.root index.facts later pair := by
  let sorted := files.mergeSort (fun a b => decide (a.1 ≤ b.1))
  have same (pair : String × String) : pair ∈ sorted ↔ pair ∈ files := List.mem_mergeSort
  have paths : (sorted.map Prod.fst).Perm (files.map Prod.fst) :=
    (List.mergeSort_perm files _).map Prod.fst
  obtain ⟨after, later, passed, chunks, asks, all⟩ := @linkFiles_asks disk sorted index graph
    (paths.nodup_iff.mpr distinct) sorted (fun _ inside => inside) tables legible
  refine ⟨after, later, passed, chunks, ⟨asks.unique, ?_, ?_⟩, ?_⟩
  · exact fun pair inside => asks.listed pair ((same pair).mpr inside)
  · exact fun path outside => asks.others path (mt paths.mem_iff.mp outside)
  · exact fun pair inside => all pair ((same pair).mpr inside)

theorem cached_iff : Cached known pair ↔
    ((Table.get? CachedFacts.path known pair.1).filter
      fun entry => entry.hash == pair.2).isSome = true := by
  rw [Option.isSome_iff_exists]
  simp [Cached, Option.filter_eq_some_iff]

theorem factsOnDisk?_eq_some_iff {path : String} {facts : Facts} :
    factsOnDisk? grammars disk root path = some facts ↔ isSupported path = true ∧ ∃ content,
      disk.readText (Path.components (Path.join (Path.ofComponents root) path)) = .ok content ∧
        Extraction.factsOf grammars path content = facts := by
  unfold factsOnDisk? isSupported Extraction.factsOf Facts.ofFile?
  cases disk.readText (Path.components (Path.join (Path.ofComponents root) path)) with
  | error error => simp
  | ok content => cases Language.ofPath? path <;> simp

theorem asked_of_cached (cached : Cached known pair) :
    asked grammars disk root pair (Table.get? CachedFacts.path known pair.1) =
      Table.get? CachedFacts.path known pair.1 :=
  if_pos (cached_iff.mp cached)

theorem asked_of_missing (missing : ¬Cached known pair) :
    asked grammars disk root pair (Table.get? CachedFacts.path known pair.1) =
      ((factsOnDisk? grammars disk root pair.1).map fun facts => ⟨pair.1, pair.2, facts⟩).or
        (Table.get? CachedFacts.path known pair.1) :=
  if_neg (mt cached_iff.mpr missing)

theorem asked_of_factsFor {facts : Facts}
    (used : (index.factsFor disk pair.1 pair.2).2 = .ok facts) :
    asked index.grammars disk index.root pair (Table.get? CachedFacts.path index.facts pair.1) =
      some ⟨pair.1, pair.2, facts⟩ := by
  rw [factsFor_answer, answer] at used
  -- An answer from what is remembered changes nothing; one from the disk is remembered.
  by_cases cached : Cached index.facts pair
  · obtain ⟨entry, found, hash⟩ := cached
    have remembered : (Table.get? CachedFacts.path index.facts pair.1).filter
        (fun known => known.hash == pair.2) = some entry := by
      simp [found, Option.filter, hash]
    rw [remembered] at used
    rw [asked_of_cached ⟨entry, found, hash⟩, found, ← Except.ok.inj used, ← hash,
      ← (Table.get?_some found).2]
  · have missing : (Table.get? CachedFacts.path index.facts pair.1).filter
        (fun known => known.hash == pair.2) = none := by
      rwa [cached_iff, Option.not_isSome_iff_eq_none] at cached
    rw [missing] at used
    rw [asked_of_missing cached]
    unfold factsOnDisk?
    cases read : disk.readText
        (Path.components (Path.join (Path.ofComponents index.root) pair.1)) with
    | error error =>
        rw [read] at used
        cases used
    | ok content =>
        rw [read] at used
        dsimp only at used ⊢
        cases made : Facts.ofFile? pair.1 content index.grammars with
        | none =>
            rw [made] at used
            cases used
        | some parsed =>
            rw [made] at used
            rw [← Except.ok.inj used]
            rfl

structure Readable (index : CodeIndex) : Prop where
  graph : ∃ graph, index.graph.tables = some graph ∧ graph.Legible
  unique : Table.Unique CachedFacts.path index.facts

def Call.Proper : Call → Prop
  | .put _ _ content hash _ => contentHash content = hash
  | .delete _ => True
  | .link _ files => (files.map Prod.fst).Nodup

/-- What a pass reads of a file that is not remembered under its hash fits this hash. -/
def ReadsFit (index : CodeIndex) : Call → Prop
  | .link disk files => ∀ pair ∈ files, ¬Cached index.facts pair → isSupported pair.1 = true →
      ∀ content,
        disk.readText (Path.components (Path.join (Path.ofComponents index.root) pair.1)) =
          .ok content →
        CachedFacts.Fits index.grammars
          ⟨pair.1, pair.2, Extraction.factsOf index.grammars pair.1 content⟩
  | _ => True

theorem facts_putFile (disk : Disk) (path content hash : String) (chunks : List Chunk) :
    (index.putFile disk path content hash chunks).1.facts = index.facts ∨
      (index.putFile disk path content hash chunks).1.facts =
        Table.put CachedFacts.path
          ⟨path, hash, Extraction.factsOf index.grammars path content⟩ index.facts := by
  rw [← Extraction.facts_ofFile disk index.root index.packages path content chunks, putFile_eq]
  dsimp only
  split
  · exact .inl rfl
  · split
    · exact .inl rfl
    · exact .inr rfl

theorem facts_deleteFile (path : String) :
    (index.deleteFile path).1.facts = index.facts ∨
      (index.deleteFile path).1.facts = Table.erase CachedFacts.path path index.facts := by
  unfold deleteFile
  split
  · exact .inl rfl
  · dsimp only
    split
    · exact .inl rfl
    · exact .inr rfl

theorem Readable.apply (readable : index.Readable) {call : Call} (proper : call.Proper) :
    (index.apply call).Readable := by
  obtain ⟨⟨graph, tables, legible⟩, unique⟩ := readable
  cases call with
  | put disk path content hash chunks =>
      constructor
      · rcases tables_putFile tables disk path content hash chunks with same | replaced
        · exact ⟨graph, same, legible⟩
        · exact ⟨_, replaced, legible.replaced _⟩
      · rcases @facts_putFile index disk path content hash chunks with same | new
        · exact same ▸ unique
        · exact new ▸ unique.put _
  | delete path =>
      constructor
      · exact ⟨_, tables_deleteFile tables path, fun row member =>
          legible row (List.mem_of_mem_filter member)⟩
      · rcases @facts_deleteFile index path with same | less
        · exact same ▸ unique
        · exact less ▸ unique.erase path
  | link disk files =>
      obtain ⟨after, later, passed, chunks, asks, -⟩ := link_asks proper tables legible
      rw [CodeIndex.apply, passed]
      exact ⟨⟨after, rfl, by rwa [Graph.Legible, chunks]⟩, asks.unique unique⟩

/-- A pass remembers only what fits if what it reads fits, as it remembers all that it reads. -/
theorem fits_link_iff (readable : index.Readable) (distinct : (files.map Prod.fst).Nodup)
    (fits : ∀ entry ∈ index.facts, entry.Fits index.grammars) :
    (∀ entry ∈ (index.link disk files).1.facts, entry.Fits index.grammars) ↔
      index.ReadsFit (.link disk files) := by
  obtain ⟨⟨graph, tables, legible⟩, unique⟩ := readable
  obtain ⟨after, later, passed, -, asks, all⟩ := link_asks distinct tables legible
  rw [passed]
  constructor
  · intro sound pair listed missing supported content there
    have asked := all pair listed
    rw [Asked, asked_of_missing missing,
      factsOnDisk?_eq_some_iff.mpr ⟨supported, content, there, rfl⟩] at asked
    exact sound _ (Table.get?_some asked).1
  · intro reads entry member
    -- An entry that is new under its path was read in this pass.
    have found := Table.get?_of_mem (asks.unique unique) member
    have stays (old : Table.get? CachedFacts.path index.facts entry.path = some entry) :
        entry.Fits index.grammars := fits entry (Table.get?_some old).1
    by_cases listed : entry.path ∈ files.map Prod.fst
    · obtain ⟨⟨_, hash⟩, inside, rfl⟩ := List.mem_map.mp listed
      have asked := all (entry.path, hash) inside
      rw [Asked, found] at asked
      by_cases cached : Cached index.facts (entry.path, hash)
      · rw [asked_of_cached cached] at asked
        exact stays asked.symm
      · rw [asked_of_missing cached] at asked
        cases read : factsOnDisk? index.grammars disk index.root entry.path with
        | none =>
            rw [read] at asked
            exact stays asked.symm
        | some facts =>
            obtain ⟨supported, content, there, rfl⟩ := factsOnDisk?_eq_some_iff.mp read
            rw [read] at asked
            rw [Option.some.inj asked]
            exact reads _ inside cached supported content there
    · exact stays ((asks.others _ listed).symm.trans found)

theorem fits_of_factsFor (readable : index.Readable) (distinct : (files.map Prod.fst).Nodup)
    (fits : ∀ entry ∈ (index.link disk files).1.facts, entry.Fits index.grammars)
    (listed : pair ∈ files)
    {facts : Facts} (used : (index.factsFor disk pair.1 pair.2).2 = .ok facts) :
    CachedFacts.Fits index.grammars ⟨pair.1, pair.2, facts⟩ := by
  obtain ⟨⟨graph, tables, legible⟩, -⟩ := readable
  obtain ⟨after, later, passed, -, -, all⟩ := link_asks distinct tables legible
  rw [passed] at fits
  have asked := all pair listed
  rw [Asked, asked_of_factsFor used] at asked
  exact fits _ (Table.get?_some asked).1

theorem fits_apply_iff (readable : index.Readable) {call : Call} (proper : call.Proper)
    (fits : ∀ entry ∈ index.facts, entry.Fits index.grammars) :
    (∀ entry ∈ (index.apply call).facts, entry.Fits index.grammars) ↔ index.ReadsFit call := by
  cases call with
  | put disk path content hash chunks =>
      refine iff_of_true (fun entry member => ?_) trivial
      rw [apply] at member
      rcases @facts_putFile index disk path content hash chunks with same | new
      · exact fits entry (same ▸ member)
      · rw [new, readable.unique.mem_put_iff] at member
        rcases member with rfl | ⟨old, -⟩
        · exact ⟨content, proper, rfl⟩
        · exact fits entry old
  | delete path =>
      refine iff_of_true (fun entry member => ?_) trivial
      rw [apply] at member
      rcases @facts_deleteFile index path with same | less
      · exact fits entry (same ▸ member)
      · rw [less] at member
        exact fits entry (List.mem_of_mem_filter member)
  | link disk files => exact fits_link_iff readable proper fits

theorem Readable.run {start : CodeIndex} (readable : start.Readable) {calls : List Call}
    (proper : ∀ call ∈ calls, call.Proper) : (start.run calls).Readable := by
  induction calls using List.reverseRecOn with
  | nil => exact readable
  | append_singleton earlier call ih =>
      rw [CodeIndex.run, List.foldl_append]
      exact (ih fun call inside => proper call (List.mem_append_left _ inside)).apply
        (proper call (by simp))

/-- The facts that are remembered after some calls, and those that a pass uses, are those of a
content with their hash, as long as each pass that reads a file finds such a content there. -/
theorem remembered_facts_fit_iff {start : CodeIndex} (readable : start.Readable)
    (fits : ∀ entry ∈ start.facts, entry.Fits start.grammars) (calls : List Call)
    (proper : ∀ call ∈ calls, call.Proper) :
    ((∀ earlier, earlier <+: calls →
        ∀ entry ∈ (start.run earlier).facts, entry.Fits start.grammars) ↔
      ∀ earlier call, earlier ++ [call] <+: calls → (start.run earlier).ReadsFit call) ∧
    ((∀ earlier, earlier <+: calls →
        ∀ entry ∈ (start.run earlier).facts, entry.Fits start.grammars) →
      ∀ earlier disk files, earlier ++ [.link disk files] <+: calls → ∀ pair ∈ files, ∀ facts,
        ((start.run earlier).factsFor disk pair.1 pair.2).2 = .ok facts →
          CachedFacts.Fits start.grammars ⟨pair.1, pair.2, facts⟩) := by
  have reached {earlier : List Call} {call : Call} (part : earlier ++ [call] <+: calls) :
      (start.run earlier).Readable ∧ call.Proper :=
    ⟨readable.run fun call inside => proper call (part.subset (by simp [inside])),
      proper call (part.subset (by simp))⟩
  have last (earlier : List Call) (call : Call) :
      start.run (earlier ++ [call]) = (start.run earlier).apply call := by
    rw [run, List.foldl_append]
    rfl
  have parser (earlier : List Call) : (start.run earlier).grammars = start.grammars :=
    (start.run_settings earlier).2
  -- One call keeps what is remembered right just if it reads what fits; runs grow at their end.
  have step {earlier : List Call} {call : Call} (part : earlier ++ [call] <+: calls)
      (sound : ∀ entry ∈ (start.run earlier).facts, entry.Fits start.grammars) :
      (∀ entry ∈ (start.run (earlier ++ [call])).facts, entry.Fits start.grammars) ↔
        (start.run earlier).ReadsFit call := by
    rw [last, ← parser earlier]
    exact fits_apply_iff (reached part).1 (reached part).2 (parser earlier ▸ sound)
  refine ⟨⟨fun sound earlier call part => ?_, fun reads earlier part => ?_⟩, ?_⟩
  · exact (step part (sound earlier ((List.prefix_append ..).trans part))).mp (sound _ part)
  · induction earlier using List.reverseRecOn with
    | nil => exact fits
    | append_singleton earlier call ih =>
        exact (step part (ih ((List.prefix_append ..).trans part))).mpr (reads earlier call part)
  · intro sound earlier disk files part pair listed facts used
    have fits := sound _ part
    rw [last, ← parser earlier] at fits
    rw [← parser earlier]
    exact fits_of_factsFor (reached part).1 (reached part).2 fits listed used

def recorded : String :=
  "import { f } from './b';\n"

def edited : String :=
  "export function g() {}\n"

def passOver (content : String) : Call :=
  .link ⟨[(["w"], .directory), (["w", "a.js"], .file (.bytes (Text.bytes content)))]⟩
    [("a.js", contentHash recorded)]

/-- A version that was edited meanwhile is remembered under the old hash, unless some other content
has this hash as well. -/
theorem edited_file_is_remembered_under_old_hash :
    let start : CodeIndex := { root := ["/", "w"], graph := .initialized }
    (∀ earlier, earlier <+: [passOver recorded] →
      ∀ entry ∈ (start.run earlier).facts, entry.Fits Language.tree) ∧
    ((∀ earlier, earlier <+: [passOver edited] →
      ∀ entry ∈ (start.run earlier).facts, entry.Fits Language.tree) →
        ∃ other, other ≠ recorded ∧ contentHash other = contentHash recorded) := by
  intro start
  have readable : start.Readable := ⟨⟨{}, rfl, by simp [Graph.Legible]⟩, List.nodup_nil⟩
  have remembered (content : String) := remembered_facts_fit_iff readable
    (fun entry member => absurd member List.not_mem_nil) [passOver content]
    (by simp [passOver, Call.Proper])
  constructor
  · refine (remembered recorded).1.mpr fun earlier call part => ?_
    obtain rfl : call = passOver recorded := by
      simpa using part.subset (List.mem_append_right earlier (List.mem_singleton_self call))
    obtain rfl : earlier = [] := by simpa using part.length_le
    rintro pair listed - - content there
    obtain rfl := List.mem_singleton.mp listed
    obtain rfl : recorded = content := by
      refine Except.ok.inj (Eq.trans ?_ there)
      decide +kernel
    exact ⟨recorded, rfl, by dsimp only⟩
  · intro sound
    have reads := (remembered edited).1.mp sound [] (passOver edited) (List.prefix_refl _)
    obtain ⟨original, hash, facts⟩ := reads ("a.js", contentHash recorded)
      (List.mem_singleton_self _) (by rintro ⟨entry, ⟨⟩, -⟩) (by decide +kernel) edited
      (by decide +kernel)
    refine ⟨original, ?_, hash⟩
    rintro rfl
    exact absurd facts (by decide +kernel)

end CodeIndex

end CodeGraph
