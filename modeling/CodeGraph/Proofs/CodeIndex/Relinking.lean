import CodeGraph.Proofs.LinkPass

/-!
A pass over files whose facts are to be had. Facts come from what is remembered or from the disk,
and the pass remembers what it reads; the answers stay the same on the way. So the links that are
written are a function of the chunks in the graph, the facts and the known paths. They take the
place of the old links of these files, and as no two files share a node, those of one file are not
touched when the next one is linked.
-/

set_option autoImplicit false

namespace CodeGraph

namespace Graph

def Legible (graph : Graph) : Prop :=
  ∀ row ∈ graph.chunks, row.chunk = .ok row.value

def chunksOf (graph : Graph) (path : String) : List Chunk :=
  ((graph.chunks.filter (fun row => row.filePath == path)).mergeSort ChunkRow.le).map
    ChunkRow.value

variable {graph : Graph}

theorem chunksOf_of_sorted
    (sorted : graph.chunks.Pairwise (fun a b => ChunkRow.le a b = true)) (path : String) :
    graph.chunksOf path =
      (graph.chunks.filter (fun row => row.filePath == path)).map ChunkRow.value := by
  rw [chunksOf, List.mergeSort_of_pairwise (sorted.filter _)]

theorem Legible.fileChunks_eq (legible : graph.Legible) (path : String) :
    graph.fileChunks path = .ok (graph.chunksOf path) := by
  refine Table.mapM_eq_ok fun row member => ?_
  exact legible row (List.mem_of_mem_filter (List.mem_mergeSort.mp member))

end Graph

namespace CodeIndex

def linksOf (graph : Graph) (known : List String) (facts : String → Facts) (path : String) :
    List Edge :=
  Edge.merge ((Import.targets path (facts path).imports known).flatMap fun pair =>
    importEdge path pair.2 pair.1 ::
      Edge.symbols path pair.1 (graph.chunksOf path) (graph.chunksOf pair.2) (some (facts pair.2)))

def relinkAll (known : List String) (facts : String → Facts) : List String → Graph → Graph × Nat
  | [], graph => (graph, 0)
  | path :: rest, graph =>
      let edges := linksOf graph known facts path
      let after := relinkAll known facts rest
        (graph.relinked ((graph.chunksOf path).map Chunk.id ++ [path]) edges)
      (after.1, edges.length + after.2)

def answer (grammars : Grammars) (disk : Disk) (root : List String) (path hash : String)
    (entry : Option CachedFacts) : Except IndexError Facts :=
  match entry.filter (fun known => known.hash == hash) with
  | some known => .ok known.facts
  | none =>
      match disk.readText (Path.components (Path.join (Path.ofComponents root) path)) with
      | .error error => .error (.unreadable error.message)
      | .ok content =>
          match Facts.ofFile? path content grammars with
          | none => .error (.unsupportedLanguage path)
          | some facts => .ok facts

theorem factsFor_answer (disk : Disk) (index : CodeIndex) (path hash : String) :
    (index.factsFor disk path hash).2 =
      answer index.grammars disk index.root path hash
        (Table.get? CachedFacts.path index.facts path) := by
  unfold factsFor answer
  cases (Table.get? CachedFacts.path index.facts path).filter
      (fun known => known.hash == hash) with
  | some known => rfl
  | none =>
      dsimp only
      cases disk.readText (Path.components (Path.join (Path.ofComponents index.root) path)) with
      | error error => rfl
      | ok content =>
          dsimp only
          cases Facts.ofFile? path content index.grammars <;> rfl

def Answers (grammars : Grammars) (disk : Disk) (root : List String)
    (files : List (String × String)) (facts : String → Facts) (known : List CachedFacts) : Prop :=
  ∀ pair ∈ files,
    answer grammars disk root pair.1 pair.2 (Table.get? CachedFacts.path known pair.1) =
      .ok (facts pair.1)

def Cached (known : List CachedFacts) (pair : String × String) : Prop :=
  ∃ entry, Table.get? CachedFacts.path known pair.1 = some entry ∧ entry.hash = pair.2

/-- What may be remembered in the end, if only the facts of these files are asked for. -/
structure Learned (grammars : Grammars) (disk : Disk) (root : List String)
    (files : List (String × String)) (facts : String → Facts) (known later : List CachedFacts) :
    Prop where
  answers : Answers grammars disk root files facts later
  kept : (files.map Prod.fst).Nodup → ∀ pair ∈ files, Cached known pair → Cached later pair
  settled : (∀ pair ∈ files, Cached known pair) → later = known

variable {grammars : Grammars} {disk : Disk} {root : List String} {files : List (String × String)}
  {facts : String → Facts} {known later last : List CachedFacts} {index : CodeIndex} {graph : Graph}

theorem Answers.learned (answers : Answers grammars disk root files facts known) :
    Learned grammars disk root files facts known known :=
  ⟨answers, fun _ _ _ cached => cached, fun _ => rfl⟩

theorem Learned.trans (first : Learned grammars disk root files facts known later)
    (second : Learned grammars disk root files facts later last) :
    Learned grammars disk root files facts known last where
  answers := second.answers
  kept distinct pair listed cached :=
    second.kept distinct pair listed (first.kept distinct pair listed cached)
  settled all := by
    obtain rfl := first.settled all
    exact second.settled all

/-- A file that was read is remembered under its hash. Under another one it would be read again,
with the same facts. -/
theorem Answers.put (answers : Answers grammars disk root files facts known)
    {pair : String × String} (listed : pair ∈ files)
    (missing : (Table.get? CachedFacts.path known pair.1).filter
      (fun entry => entry.hash == pair.2) = none) :
    Learned grammars disk root files facts known
      (Table.put CachedFacts.path ⟨pair.1, pair.2, facts pair.1⟩ known) := by
  let entry : CachedFacts := ⟨pair.1, pair.2, facts pair.1⟩
  have put := Table.get?_put_self CachedFacts.path entry known
  have stay {path : String} (other : pair.1 ≠ path) :=
    Table.get?_put_of_ne CachedFacts.path entry known path other
  refine ⟨fun other inside => ?_, fun distinct other inside ⟨old, found, hash⟩ => ?_, fun all => ?_⟩
  · by_cases same : pair.1 = other.1
    · have read := answers pair listed
      rw [answer, missing] at read
      rw [← same, put, answer]
      split
      next hit =>
        cases (Option.filter_eq_some_iff.mp hit).1
        rfl
      next => exact read
    · rw [stay same]
      exact answers other inside
  · by_cases same : pair.1 = other.1
    · obtain rfl := List.inj_on_of_nodup_map distinct listed inside same
      exact ⟨entry, put, rfl⟩
    · exact ⟨old, (stay same).trans found, hash⟩
  · obtain ⟨old, found, hash⟩ := all pair listed
    simp [found, Option.filter, hash] at missing

theorem Answers.factsFor (answers : Answers index.grammars disk index.root files facts index.facts)
    {pair : String × String} (listed : pair ∈ files) :
    ∃ known, index.factsFor disk pair.1 pair.2 =
        ({ index with facts := known }, .ok (facts pair.1)) ∧
      Learned index.grammars disk index.root files facts index.facts known ∧ Cached known pair := by
  have own := answers pair listed
  cases remembered : (Table.get? CachedFacts.path index.facts pair.1).filter
      (fun known => known.hash == pair.2) with
  | some entry =>
      simp only [answer, remembered] at own
      obtain ⟨found, hash⟩ := Option.filter_eq_some_iff.mp remembered
      refine ⟨index.facts, ?_, answers.learned, entry, found, by simpa using hash⟩
      simp only [CodeIndex.factsFor, remembered, own]
  | none =>
      have learned := answers.put listed remembered
      simp only [answer, remembered] at own
      split at own
      · cases own
      next content there =>
        split at own
        · cases own
        next parsed made =>
          obtain rfl : parsed = facts pair.1 := by simpa using own
          refine ⟨_, ?_, learned, ⟨pair.1, pair.2, facts pair.1⟩, ?_, rfl⟩
          · simp only [CodeIndex.factsFor, remembered, there, made]
            rfl
          · exact Table.get?_put_self CachedFacts.path ⟨pair.1, pair.2, facts pair.1⟩ index.facts

theorem Answers.targetFacts
    (answers : Answers index.grammars disk index.root files facts index.facts) {target : String}
    (listed : target ∈ files.map Prod.fst) :
    ∃ known, index.targetFacts disk files target =
        ({ index with facts := known }, some (facts target)) ∧
      Learned index.grammars disk index.root files facts index.facts known := by
  unfold CodeIndex.targetFacts
  cases found : files.lookup target with
  | none =>
      obtain ⟨pair, member, rfl⟩ := List.mem_map.mp listed
      have missing := List.lookup_eq_none_iff.mp found pair member
      simp at missing
  | some hash =>
      have member : (target, hash) ∈ files := by
        obtain ⟨before, after, split, -⟩ := List.lookup_eq_some_iff.mp found
        rw [split]
        simp
      obtain ⟨known, looked, learned, -⟩ := answers.factsFor member
      exact ⟨known, by simp only [looked]; rfl, learned⟩

theorem Answers.importEdges (tables : index.graph.tables = some graph) (legible : graph.Legible)
    (answers : Answers index.grammars disk index.root files facts index.facts) (path : String)
    (own : List Chunk)
    {targets : List (Import × String)} (listed : ∀ pair ∈ targets, pair.2 ∈ files.map Prod.fst) :
    ∃ known, importEdges disk files path own targets index =
        ({ index with facts := known }, .ok (targets.flatMap fun pair =>
          importEdge path pair.2 pair.1 ::
            Edge.symbols path pair.1 own (graph.chunksOf pair.2) (some (facts pair.2)))) ∧
      Learned index.grammars disk index.root files facts index.facts known := by
  induction targets generalizing index with
  | nil => exact ⟨index.facts, rfl, answers.learned⟩
  | cons pair rest ih =>
      obtain ⟨known, looked, learned⟩ := answers.targetFacts (listed pair (List.mem_cons_self ..))
      obtain ⟨later, made, more⟩ := @ih { index with facts := known } tables learned.answers
        fun pair inside => listed pair (List.mem_cons_of_mem _ inside)
      refine ⟨later, ?_, learned.trans more⟩
      rw [importEdges_cons, read_eq tables, legible.fileChunks_eq]
      dsimp only
      rw [looked, made]
      rfl

theorem Answers.linkFile (tables : index.graph.tables = some graph) (legible : graph.Legible)
    (answers : Answers index.grammars disk index.root files facts index.facts)
    {pair : String × String} (listed : pair ∈ files) :
    ∃ known, index.linkFile disk files pair.1 pair.2 =
        ({ index with
            graph := ⟨some (graph.relinked ((graph.chunksOf pair.1).map Chunk.id ++ [pair.1])
              (linksOf graph (files.map Prod.fst) facts pair.1))⟩
            facts := known },
          .ok (linksOf graph (files.map Prod.fst) facts pair.1).length) ∧
      Learned index.grammars disk index.root files facts index.facts known ∧
      ((files.map Prod.fst).Nodup → Cached known pair) := by
  obtain ⟨known, looked, learned, cached⟩ := answers.factsFor listed
  obtain ⟨later, made, more⟩ := @Answers.importEdges disk files facts { index with facts := known }
    graph tables legible learned.answers pair.1 (graph.chunksOf pair.1)
    (Import.targets pair.1 (facts pair.1).imports (files.map Prod.fst))
    fun pair inside => (Import.of_mem_targets inside).1
  refine ⟨later, ?_, learned.trans more, fun distinct => more.kept distinct pair listed cached⟩
  have read := @read_eq { index with facts := known } graph tables
  have replaced := @replaceLinks_eq { index with facts := later } graph tables
  simp only [CodeIndex.linkFile, looked, read, legible.fileChunks_eq, made, replaced]
  rfl

theorem Answers.linkFiles (tables : index.graph.tables = some graph) (legible : graph.Legible)
    (answers : Answers index.grammars disk index.root files facts index.facts)
    {rest : List (String × String)} (listed : ∀ pair ∈ rest, pair ∈ files) :
    ∃ known, linkFiles disk files rest index =
        ({ index with
            graph := ⟨some (relinkAll (files.map Prod.fst) facts (rest.map Prod.fst) graph).1⟩
            facts := known },
          .ok (relinkAll (files.map Prod.fst) facts (rest.map Prod.fst) graph).2) ∧
      Learned index.grammars disk index.root files facts index.facts known ∧
      ((files.map Prod.fst).Nodup → ∀ pair ∈ rest, Cached known pair) := by
  induction rest generalizing index graph with
  | nil =>
      refine ⟨index.facts, ?_, answers.learned, by simp⟩
      have same : index.graph = ⟨some graph⟩ := congrArg GraphStore.mk tables
      rw [CodeIndex.linkFiles, List.map_nil, relinkAll, ← same]
  | cons pair others ih =>
      obtain ⟨first, remaining⟩ := List.forall_mem_cons.mp listed
      obtain ⟨known, linked, learned, cached⟩ :=
        @Answers.linkFile disk files facts index graph tables legible answers pair first
      -- The new links leave the chunks alone, so the next file reads the same ones.
      let next := graph.relinked ((graph.chunksOf pair.1).map Chunk.id ++ [pair.1])
        (linksOf graph (files.map Prod.fst) facts pair.1)
      obtain ⟨later, passed, more, rest⟩ := @ih { index with graph := ⟨some next⟩, facts := known }
        next rfl legible learned.answers remaining
      refine ⟨later, ?_, learned.trans more, fun distinct => ?_⟩
      · rw [CodeIndex.linkFiles, linked]
        dsimp only
        rw [passed]
        rfl
      · refine List.forall_mem_cons.mpr ⟨?_, rest distinct⟩
        exact more.kept distinct pair first (cached distinct)

theorem Answers.link (tables : index.graph.tables = some graph) (legible : graph.Legible)
    (answers : Answers index.grammars disk index.root files facts index.facts) :
    let sorted := (files.mergeSort (fun a b => decide (a.1 ≤ b.1))).map Prod.fst
    ∃ known, index.link disk files =
        ({ index with
            graph := ⟨some (relinkAll sorted facts sorted graph).1⟩, facts := known },
          .ok (relinkAll sorted facts sorted graph).2) ∧
      Learned index.grammars disk index.root files facts index.facts known ∧
      ((files.map Prod.fst).Nodup → ∀ pair ∈ files, Cached known pair) := by
  intro sorted
  have same (pair : String × String) :
      pair ∈ files.mergeSort (fun a b => decide (a.1 ≤ b.1)) ↔ pair ∈ files := List.mem_mergeSort
  have paths := (List.mergeSort_perm files (fun a b => decide (a.1 ≤ b.1))).map Prod.fst
  obtain ⟨known, passed, learned, cached⟩ :=
    @Answers.linkFiles disk (files.mergeSort (fun a b => decide (a.1 ≤ b.1))) facts index graph
      tables legible (fun pair inside => answers pair ((same pair).mp inside)) _ fun _ => id
  refine ⟨known, passed, ⟨?_, ?_, ?_⟩, ?_⟩
  · exact fun pair inside => learned.answers pair ((same pair).mpr inside)
  · exact fun distinct pair inside =>
      learned.kept (paths.nodup_iff.mpr distinct) pair ((same pair).mpr inside)
  · exact fun all => learned.settled fun pair inside => all pair ((same pair).mp inside)
  · exact fun distinct pair inside =>
      cached (paths.nodup_iff.mpr distinct) pair ((same pair).mpr inside)

end CodeIndex

namespace Graph

def leaves (graph : Graph) (path : String) (row : EdgeRow) : Bool :=
  row.isLink && (path :: graph.chunkIds path).contains row.source

def Apart (graph : Graph) (paths : List String) : Prop :=
  ∀ a ∈ paths, ∀ b ∈ paths, a ≠ b → ∀ node ∈ a :: graph.chunkIds a, node ∉ b :: graph.chunkIds b

variable {graph : Graph} {paths : List String} {path other : String} {row : EdgeRow}

theorem leaves_iff :
    graph.leaves path row = true ↔ row.isLink = true ∧ row.source ∈ path :: graph.chunkIds path := by
  simp [leaves]

theorem Apart.not_leaves (apart : graph.Apart paths) (listed : path ∈ paths)
    (listed' : other ∈ paths) (differ : path ≠ other) (own : graph.leaves path row = true) :
    graph.leaves other row = false := by
  obtain ⟨-, source⟩ := leaves_iff.mp own
  simpa [leaves] using fun _ => apart path listed other listed' differ row.source source

theorem apart_of_owned
    (owned : ∀ a ∈ graph.chunks, ∀ b ∈ graph.chunks, a.id = b.id → a.filePath = b.filePath)
    (unshared : ∀ row ∈ graph.chunks, row.filePath ∈ paths → row.id ∈ paths →
      row.id = row.filePath) : graph.Apart paths := by
  have stored {path id : String} (member : id ∈ graph.chunkIds path) :
      ∃ row ∈ graph.chunks, row.filePath = path ∧ row.id = id := by
    obtain ⟨row, inside, rfl⟩ := List.mem_map.mp member
    obtain ⟨listed, own⟩ := List.mem_filter.mp inside
    exact ⟨row, listed, by simpa using own, rfl⟩
  have foreign {a b : String} (first : a ∈ paths) (second : b ∈ paths) (differ : a ≠ b) :
      a ∉ graph.chunkIds b := by
    intro member
    obtain ⟨row, listed, rfl, rfl⟩ := stored member
    exact differ (unshared row listed second first)
  intro a first b second differ node inside inside'
  rcases List.mem_cons.mp inside with rfl | chunk
  · rcases List.mem_cons.mp inside' with same | chunk'
    · exact differ same
    · exact foreign first second differ chunk'
  · rcases List.mem_cons.mp inside' with rfl | chunk'
    · exact foreign second first differ.symm chunk
    · obtain ⟨row, listed, rfl, rfl⟩ := stored chunk
      obtain ⟨row', listed', rfl, same⟩ := stored chunk'
      exact differ (owned row listed row' listed' same.symm)

theorem mem_ids_chunksOf {node : String} :
    node ∈ (graph.chunksOf path).map Chunk.id ++ [path] ↔ node ∈ path :: graph.chunkIds path := by
  have ids : (graph.chunksOf path).map Chunk.id =
      ((graph.chunks.filter (fun row => row.filePath == path)).mergeSort ChunkRow.le).map
        ChunkRow.id := by
    simp [chunksOf, ChunkRow.value]
  rw [List.mem_append, List.mem_singleton, List.mem_cons, or_comm, ids, chunkIds,
    ((List.mergeSort_perm _ _).map ChunkRow.id).mem_iff]

end Graph

namespace CodeIndex

variable {disk : Disk} {files : List (String × String)} {facts : String → Facts}
  {known paths : List String} {index : CodeIndex} {graph : Graph} {path : String}

def linkRows (graph : Graph) (known : List String) (facts : String → Facts) (path : String) :
    List EdgeRow :=
  (linksOf graph known facts path).map EdgeRow.ofEdge

theorem isLinkFrom_of_mem_linksOf {edge : Edge} (member : edge ∈ linksOf graph known facts path) :
    edge.IsLinkFrom path (graph.chunksOf path) := by
  refine Edge.isLinkFrom_of_mem_merge (fun edge inside => ?_) member
  obtain ⟨pair, -, made⟩ := List.mem_flatMap.mp inside
  rcases List.mem_cons.mp made with rfl | symbol
  · exact ⟨rfl, List.mem_cons_self ..⟩
  · exact Edge.isLinkFrom_of_mem_symbols symbol

theorem source_of_mem_linksOf {edge : Edge} (member : edge ∈ linksOf graph known facts path) :
    edge.kind.isLink = true ∧ edge.source ∈ (graph.chunksOf path).map Chunk.id ++ [path] := by
  obtain ⟨isLink, source⟩ := isLinkFrom_of_mem_linksOf member
  refine ⟨isLink, ?_⟩
  rw [List.mem_append, List.mem_singleton, or_comm]
  exact List.mem_cons.mp source

theorem leaves_of_mem_linkRows {row : EdgeRow} (member : row ∈ linkRows graph known facts path) :
    graph.leaves path row = true := by
  obtain ⟨edge, inside, rfl⟩ := List.mem_map.mp member
  obtain ⟨isLink, source⟩ := source_of_mem_linksOf inside
  refine Graph.leaves_iff.mpr ⟨?_, Graph.mem_ids_chunksOf.mp source⟩
  rwa [EdgeRow.isLink_ofEdge]

/-- The rows of a graph after a pass: the old ones but for the links of the files, then the new
links of one file after the other. -/
def passed (graph : Graph) (known : List String) (facts : String → Facts) (paths : List String) :
    Graph :=
  { graph with
    edges := graph.edges.filter (fun row => !paths.any (graph.leaves · row)) ++
      paths.flatMap (linkRows graph known facts) }

theorem relinked_eq (graph : Graph) (known : List String) (facts : String → Facts) (path : String) :
    graph.relinked ((graph.chunksOf path).map Chunk.id ++ [path]) (linksOf graph known facts path) =
      passed graph known facts [path] := by
  have edges := @Graph.edges_relinked graph ((graph.chunksOf path).map Chunk.id ++ [path])
    (linksOf graph known facts path) (Edge.nodup_key_merge _) fun edge => source_of_mem_linksOf
  have same (row : EdgeRow) :
      (((graph.chunksOf path).map Chunk.id ++ [path]).contains row.source && row.isLink) =
        graph.leaves path row := by
    rw [Bool.eq_iff_iff, Graph.leaves_iff, Bool.and_eq_true, List.contains_iff_mem,
      Graph.mem_ids_chunksOf, and_comm]
  simp only [same] at edges
  simp only [passed, List.any_cons, List.any_nil, Bool.or_false, List.flatMap_cons,
    List.flatMap_nil, List.append_nil, linkRows, ← edges]
  rfl

theorem relinkAll_eq_foldl (graph : Graph) (known : List String) (facts : String → Facts)
    (paths : List String) :
    relinkAll known facts paths graph =
      (paths.foldl (fun graph path => passed graph known facts [path]) graph,
        (paths.flatMap (linkRows graph known facts)).length) := by
  induction paths generalizing graph with
  | nil => rfl
  | cons path rest ih =>
      rw [relinkAll, relinked_eq, ih]
      simp only [List.foldl_cons, List.flatMap_cons, List.length_append, linkRows, List.length_map]
      rfl

theorem passed_cons {rest : List String} (apart : graph.Apart (path :: rest))
    (fresh : path ∉ rest) :
    passed (passed graph known facts [path]) known facts rest =
      passed graph known facts (path :: rest) := by
  have stay : (linkRows graph known facts path).filter
      (fun row => !rest.any (graph.leaves · row)) = linkRows graph known facts path := by
    refine List.filter_eq_self.mpr fun row member => ?_
    rw [Bool.not_eq_true', List.any_eq_false]
    intro other inside
    have differ : path ≠ other := fun same => fresh (same ▸ inside)
    simpa using apart.not_leaves (List.mem_cons_self ..) (List.mem_cons_of_mem _ inside) differ
      (leaves_of_mem_linkRows member)
  have rows : (passed (passed graph known facts [path]) known facts rest).edges =
      (passed graph known facts (path :: rest)).edges := by
    change ((graph.edges.filter (fun row => !(graph.leaves path row || false)) ++
        (linkRows graph known facts path ++ [])).filter
          (fun row => !rest.any (graph.leaves · row))) ++
        rest.flatMap (linkRows graph known facts) =
      graph.edges.filter (fun row => !(graph.leaves path row || rest.any (graph.leaves · row)))
        ++ (linkRows graph known facts path ++ rest.flatMap (linkRows graph known facts))
    rw [List.append_nil, List.filter_append, stay, List.filter_filter, List.append_assoc]
    congr 2
    funext row
    rw [Bool.or_false, Bool.not_or, Bool.and_comm]
  exact congrArg (fun edges => { graph with edges }) rows

theorem foldl_passed (apart : graph.Apart paths) (distinct : paths.Nodup) :
    paths.foldl (fun graph path => passed graph known facts [path]) graph =
      passed graph known facts paths := by
  induction paths generalizing graph with
  | nil => simp [passed]
  | cons path rest ih =>
      obtain ⟨fresh, distinct⟩ := List.nodup_cons.mp distinct
      have later : graph.Apart rest := fun a first b second =>
        apart a (List.mem_cons_of_mem _ first) b (List.mem_cons_of_mem _ second)
      rw [List.foldl_cons, @ih (passed graph known facts [path]) later distinct,
        passed_cons apart fresh]

theorem linkRows_congr {known' : List String} (same : ∀ path, path ∈ known ↔ path ∈ known')
    (graph : Graph) (facts : String → Facts) (path : String) :
    linkRows graph known facts path = linkRows graph known' facts path := by
  rw [linkRows, linksOf, Import.targets_congr same]
  rfl

theorem any_leaves_of_mem {row : EdgeRow}
    (member : row ∈ paths.flatMap (linkRows graph known facts)) :
    paths.any (graph.leaves · row) = true := by
  obtain ⟨path, listed, inside⟩ := List.mem_flatMap.mp member
  exact List.any_eq_true.mpr ⟨path, listed, leaves_of_mem_linkRows inside⟩

theorem filter_others_passed :
    (passed graph known facts paths).edges.filter (fun row => !paths.any (graph.leaves · row)) =
      graph.edges.filter (fun row => !paths.any (graph.leaves · row)) := by
  have new : (paths.flatMap (linkRows graph known facts)).filter
      (fun row => !paths.any (graph.leaves · row)) = [] := by
    refine List.filter_eq_nil_iff.mpr fun row member => ?_
    simp only [any_leaves_of_mem member, Bool.not_true, Bool.false_eq_true, not_false_eq_true]
  rw [passed, List.filter_append, new, List.append_nil, List.filter_filter]
  simp only [Bool.and_self]

theorem filter_links_passed :
    (passed graph known facts paths).edges.filter (fun row => paths.any (graph.leaves · row)) =
      paths.flatMap (linkRows graph known facts) := by
  have new : (paths.flatMap (linkRows graph known facts)).filter
      (fun row => paths.any (graph.leaves · row)) = paths.flatMap (linkRows graph known facts) :=
    List.filter_eq_self.mpr fun row => any_leaves_of_mem
  rw [passed, List.filter_append, new, List.filter_filter]
  simp

theorem passed_passed :
    passed (passed graph known facts paths) known facts paths = passed graph known facts paths := by
  have rows : (passed (passed graph known facts paths) known facts paths).edges =
      (passed graph known facts paths).edges := by
    change (passed graph known facts paths).edges.filter
        (fun row => !paths.any (graph.leaves · row)) ++ paths.flatMap (linkRows graph known facts) =
      _
    rw [filter_others_passed]
    rfl
  exact congrArg (fun edges => { graph with edges }) rows

theorem filter_own_passed (apart : graph.Apart paths) (distinct : paths.Nodup)
    (listed : path ∈ paths) :
    (passed graph known facts paths).edges.filter (graph.leaves path) =
      linkRows graph known facts path := by
  have old : (graph.edges.filter (fun row => !paths.any (graph.leaves · row))).filter
      (graph.leaves path) = [] := by
    refine List.filter_eq_nil_iff.mpr fun row member => ?_
    have none := (List.mem_filter.mp member).2
    rw [Bool.not_eq_true', List.any_eq_false] at none
    exact none path listed
  have foreign {part : List String} (sub : ∀ other ∈ part, other ∈ paths ∧ path ≠ other) :
      part.flatMap (fun other => (linkRows graph known facts other).filter (graph.leaves path)) =
        [] := by
    refine List.flatMap_eq_nil_iff.mpr fun other inside => List.filter_eq_nil_iff.mpr ?_
    intro row member
    obtain ⟨listed', differ⟩ := sub other inside
    simp [apart.not_leaves listed' listed differ.symm (leaves_of_mem_linkRows member)]
  have own : (linkRows graph known facts path).filter (graph.leaves path) =
      linkRows graph known facts path :=
    List.filter_eq_self.mpr fun row => leaves_of_mem_linkRows
  obtain ⟨before, after, rfl⟩ := List.append_of_mem listed
  have once := List.nodup_middle.mp distinct
  rw [List.nodup_cons, List.mem_append, not_or] at once
  rw [passed, List.filter_append, old, List.nil_append, List.filter_flatMap, List.flatMap_append,
    List.flatMap_cons, foreign, foreign, own, List.nil_append, List.append_nil]
  · exact fun other inside => ⟨by simp [inside], fun same => once.1.2 (same ▸ inside)⟩
  · exact fun other inside => ⟨by simp [inside], fun same => once.1.1 (same ▸ inside)⟩

theorem of_imports_mem_linksOf {edge : Edge} (member : edge ∈ linksOf graph known facts path)
    (kind : edge.kind = .imports) :
    edge.source = path ∧ edge.target ∈ known ∧ edge.target ≠ path := by
  obtain ⟨original, inside, source, target, same⟩ := Edge.exists_of_mem_merge member
  obtain ⟨pair, listed, made⟩ := List.mem_flatMap.mp inside
  rcases List.mem_cons.mp made with rfl | symbol
  · rw [← source, ← target]
    exact ⟨rfl, Import.of_mem_targets listed⟩
  · have other := (Edge.of_mem_symbols symbol).1
    rw [same, kind] at other
    cases other

/-- A graph in which the links of some files were replaced by those that their facts and the stored
chunks give, and the number of these links. -/
structure Relinks (graph after : Graph) (paths : List String) (facts : String → Facts)
    (count : Nat) : Prop where
  files : after.files = graph.files
  chunks : after.chunks = graph.chunks
  own : ∀ path ∈ paths, after.edges.filter (graph.leaves path) = linkRows graph paths facts path
  others : after.edges.filter (fun row => !paths.any (graph.leaves · row)) =
    graph.edges.filter (fun row => !paths.any (graph.leaves · row))
  count : (after.edges.filter (fun row => paths.any (graph.leaves · row))).length = count
  imports : ∀ path ∈ paths, ∀ row ∈ after.edges, graph.leaves path row = true →
    row.kind = EdgeKind.imports.name →
      row.source = path ∧ row.target ∈ paths ∧ row.target ≠ path

theorem relinks_passed (apart : graph.Apart paths) (distinct : paths.Nodup) :
    Relinks graph (passed graph paths facts paths) paths facts
      (paths.flatMap (linkRows graph paths facts)).length where
  files := rfl
  chunks := rfl
  own _ listed := filter_own_passed apart distinct listed
  others := filter_others_passed
  count := by rw [filter_links_passed]
  imports path listed row member leaves kind := by
    have own : row ∈ linkRows graph paths facts path := by
      rw [← filter_own_passed apart distinct listed]
      exact List.mem_filter.mpr ⟨member, leaves⟩
    obtain ⟨edge, inside, rfl⟩ := List.mem_map.mp own
    refine of_imports_mem_linksOf inside ?_
    have names := congrArg EdgeKind.ofName? kind
    simpa [EdgeRow.ofEdge] using names

theorem Relinks.perm {after : Graph} {paths paths' : List String} {count : Nat}
    (relinks : Relinks graph after paths facts count) (perm : paths.Perm paths') :
    Relinks graph after paths' facts count := by
  have any : (fun row => paths'.any (graph.leaves · row)) =
      fun row => paths.any (graph.leaves · row) := by
    funext row
    rw [Bool.eq_iff_iff, List.any_eq_true, List.any_eq_true]
    simp only [perm.mem_iff]
  have others : (fun row => !paths'.any (graph.leaves · row)) =
      fun row => !paths.any (graph.leaves · row) := by
    funext row
    rw [congrFun any row]
  refine ⟨relinks.files, relinks.chunks, fun path listed => ?_, ?_, ?_, fun path listed row => ?_⟩
  · rw [relinks.own path (perm.mem_iff.mpr listed)]
    exact linkRows_congr (fun path => perm.mem_iff) graph facts path
  · rw [others, relinks.others]
  · rw [any, relinks.count]
  · rw [← perm.mem_iff]
    exact relinks.imports path (perm.mem_iff.mpr listed) row

/-- A pass over files whose facts are to be had, in a graph where an identifier of a chunk belongs
to one file and is not the path of another file of the pass: the links that leave the files and
their chunks are replaced by those that the facts give, all else stays, the number of links is given
back, and a second pass changes nothing. -/
theorem link_replaces_links {disk : Disk} {files : List (String × String)} {facts : String → Facts}
    {index : CodeIndex} {graph : Graph} (tables : index.graph.tables = some graph)
    (legible : graph.Legible) (distinct : (files.map Prod.fst).Nodup)
    (available : ∀ pair ∈ files, (index.factsFor disk pair.1 pair.2).2 = .ok (facts pair.1))
    (owned : ∀ a ∈ graph.chunks, ∀ b ∈ graph.chunks, a.id = b.id → a.filePath = b.filePath)
    (unshared : ∀ row ∈ graph.chunks, row.filePath ∈ files.map Prod.fst →
      row.id ∈ files.map Prod.fst → row.id = row.filePath) :
    ∃ after graph' count, index.link disk files = (after, .ok count) ∧
      after = { index with graph := ⟨some graph'⟩, facts := after.facts } ∧
      Relinks graph graph' (files.map Prod.fst) facts count ∧
      after.link disk files = (after, .ok count) := by
  let sorted := (files.mergeSort (fun a b => decide (a.1 ≤ b.1))).map Prod.fst
  have perm : sorted.Perm (files.map Prod.fst) := (List.mergeSort_perm files _).map Prod.fst
  have apart : graph.Apart sorted := fun a first b second =>
    Graph.apart_of_owned owned unshared a (perm.mem_iff.mp first) b (perm.mem_iff.mp second)
  have once : sorted.Nodup := perm.nodup_iff.mpr distinct
  have answers : Answers index.grammars disk index.root files facts index.facts := fun pair listed =>
    (factsFor_answer disk index pair.1 pair.2).symm.trans (available pair listed)
  obtain ⟨known, linked, learned, cached⟩ := Answers.link tables legible answers
  rw [relinkAll_eq_foldl, foldl_passed apart once] at linked
  let after : CodeIndex :=
    { index with graph := ⟨some (passed graph sorted facts sorted)⟩, facts := known }
  refine ⟨after, _, _, linked, rfl, (relinks_passed apart once).perm perm, ?_⟩
  -- The second pass starts from the new graph, with all facts remembered.
  obtain ⟨later, again, more, -⟩ :=
    @Answers.link disk files facts after (passed graph sorted facts sorted) rfl legible
      learned.answers
  have same : (sorted.foldl (fun graph path => passed graph sorted facts [path])
      (passed graph sorted facts sorted)) = passed graph sorted facts sorted := by
    rw [@foldl_passed facts sorted sorted (passed graph sorted facts sorted) apart once,
      passed_passed]
  rw [again, more.settled (cached distinct), relinkAll_eq_foldl, same]
  rfl

def callerGraph (id : String) : Graph where
  files := [⟨"a.js", "javascript", 1⟩, ⟨"b.js", "javascript", 0⟩, ⟨"c.js", "javascript", 1⟩]
  chunks := [⟨id, "a.js", "f()", 1, 1, "block", none, none⟩,
    ⟨"f", "c.js", "export function f() \x7b\x7d", 2, 2, "function", some "f", none⟩]

def callerFacts (path : String) : Facts :=
  if path = "a.js" then { imports := [⟨"./c", ["f"], .static, false, 1⟩] } else {}

def callerFiles : List (String × String) :=
  [("a.js", "1"), ("b.js", "2"), ("c.js", "3")]

def callerIndex (id : String) : CodeIndex where
  root := []
  graph := ⟨some (callerGraph id)⟩
  facts := callerFiles.map fun pair => ⟨pair.1, pair.2, callerFacts pair.1⟩

theorem legible_callerGraph (id : String) : (callerGraph id).Legible := by
  have nonnegative : ∀ row ∈ (callerGraph id).chunks, 0 ≤ row.lineStart ∧ 0 ≤ row.lineEnd := by
    simp [callerGraph]
  exact fun row member =>
    ChunkRow.chunk_eq (nonnegative row member).1 (nonnegative row member).2

def callerRows (id path : String) : List EdgeRow :=
  let chunks (path : String) :=
    ((callerGraph id).chunks.filter (fun row => row.filePath == path)).map ChunkRow.value
  (Edge.merge ((Import.targets path (callerFacts path).imports (callerFiles.map Prod.fst)).flatMap
    fun pair => importEdge path pair.2 pair.1 ::
      Edge.symbols path pair.1 (chunks path) (chunks pair.2) (some (callerFacts pair.2)))).map
    EdgeRow.ofEdge

theorem linkRows_caller {id : String} {graph : Graph}
    (chunks : graph.chunks = (callerGraph id).chunks) (path : String) :
    linkRows graph (callerFiles.map Prod.fst) callerFacts path = callerRows id path := by
  have sorted : graph.chunks.Pairwise (fun a b => ChunkRow.le a b = true) := by
    rw [chunks]
    simp [callerGraph, ChunkRow.le]
  simp only [linkRows, linksOf, Graph.chunksOf_of_sorted sorted, chunks]
  rfl

theorem link_replaces_links_of_caller :
    (linkRows (callerGraph "a") (callerFiles.map Prod.fst) callerFacts "a.js").length = 2 ∧
    ∃ after graph' count, (callerIndex "a").link {} callerFiles = (after, .ok count) ∧
      after = { callerIndex "a" with graph := ⟨some graph'⟩, facts := after.facts } ∧
      Relinks (callerGraph "a") graph' (callerFiles.map Prod.fst) callerFacts count ∧
      after.link {} callerFiles = (after, .ok count) := by
  refine ⟨?_, link_replaces_links rfl (legible_callerGraph "a") (by decide) (by decide +kernel)
    (by decide) (by decide)⟩
  rw [linkRows_caller rfl]
  decide +kernel

def callerStep (id : String) (graph : Graph) (path : String) : Graph :=
  { graph with
    edges := graph.edges.filter (fun row => !graph.leaves path row) ++ callerRows id path }

theorem passed_caller {id : String} {graph : Graph}
    (chunks : graph.chunks = (callerGraph id).chunks) (path : String) :
    passed graph (callerFiles.map Prod.fst) callerFacts [path] = callerStep id graph path := by
  simp [passed, callerStep, linkRows_caller chunks]

/-- A chunk of `a.js` goes by the path of `b.js`. Its link is written and counted, and then dropped
when `b.js` is linked. -/
theorem shared_names_break_linking :
    ∃ after graph', (callerIndex "b.js").link {} callerFiles = (after, .ok 2) ∧
      (callerIndex "b.js").graph.tables = some (callerGraph "b.js") ∧
      (callerGraph "b.js").Legible ∧ (callerFiles.map Prod.fst).Nodup ∧
      (∀ pair ∈ callerFiles,
        ((callerIndex "b.js").factsFor {} pair.1 pair.2).2 = .ok (callerFacts pair.1)) ∧
      (∀ a ∈ (callerGraph "b.js").chunks, ∀ b ∈ (callerGraph "b.js").chunks,
        a.id = b.id → a.filePath = b.filePath) ∧
      after.graph.tables = some graph' ∧
      (linkRows (callerGraph "b.js") (callerFiles.map Prod.fst) callerFacts "a.js").length = 2 ∧
      (graph'.edges.filter (fun row =>
        (callerFiles.map Prod.fst).any ((callerGraph "b.js").leaves · row))).length = 1 := by
  have available : ∀ pair ∈ callerFiles,
      ((callerIndex "b.js").factsFor {} pair.1 pair.2).2 = .ok (callerFacts pair.1) := by
    decide +kernel
  have order : callerFiles.mergeSort (fun a b => decide (a.1 ≤ b.1)) = callerFiles :=
    List.mergeSort_of_pairwise (by decide)
  obtain ⟨known, linked, -⟩ := @Answers.link {} callerFiles callerFacts (callerIndex "b.js")
    (callerGraph "b.js") rfl (legible_callerGraph "b.js") fun pair listed =>
      (factsFor_answer {} (callerIndex "b.js") pair.1 pair.2).symm.trans (available pair listed)
  have rows : (callerFiles.map Prod.fst).flatMap
      (linkRows (callerGraph "b.js") (callerFiles.map Prod.fst) callerFacts) =
        (callerFiles.map Prod.fst).flatMap (callerRows "b.js") :=
    congrArg (List.flatMap · _) (funext (linkRows_caller rfl))
  have final : (callerFiles.map Prod.fst).foldl
      (fun graph path => passed graph (callerFiles.map Prod.fst) callerFacts [path])
        (callerGraph "b.js") =
      (callerFiles.map Prod.fst).foldl (callerStep "b.js") (callerGraph "b.js") := by
    change passed (passed (passed _ _ _ ["a.js"]) _ _ ["b.js"]) _ _ ["c.js"] = _
    rw [@passed_caller "b.js" (callerGraph "b.js") rfl,
      @passed_caller "b.js" (callerStep "b.js" (callerGraph "b.js") "a.js") rfl,
      @passed_caller "b.js" (callerStep "b.js" (callerStep "b.js" _ "a.js") "b.js") rfl]
    rfl
  rw [order, relinkAll_eq_foldl, rows, final] at linked
  refine
    ⟨_, _, linked, rfl, legible_callerGraph "b.js", by decide, available, by decide, rfl, ?_, ?_⟩
  · rw [linkRows_caller rfl]
    decide +kernel
  · decide +kernel

end CodeIndex

end CodeGraph
