import CodeGraph.Proofs.Contents
import CodeGraph.Proofs.Edge.Import

/-!
The links that a pass over all files leaves. If the index remembers the facts of the versions that
it holds, the links of a file are a function of these versions and of the paths that are known; a
pass replaces the links of one file after the other by them and touches no other file's.
-/

set_option autoImplicit false

namespace CodeGraph

def Parsed.storedChunks (path : String) (version : Parsed) : List Chunk :=
  ((version.graph path).chunkRows.mergeSort ChunkRow.le).map ChunkRow.value

theorem FileGraph.chunk_of_mem_chunkRows {file : FileGraph} {row : ChunkRow}
    (member : row ∈ file.chunkRows) : row.chunk = .ok row.value := by
  rcases Table.mem_putAll member with none | image
  · cases none
  · obtain ⟨chunk, -, rfl⟩ := List.mem_map.mp image
    exact ChunkRow.chunk_eq (Int.natCast_nonneg _) (Int.natCast_nonneg _)

namespace Contents

def chunksAt (contents : Contents) (path : String) : List Chunk :=
  (contents path).elim [] (Parsed.storedChunks path)

def factsAt (contents : Contents) (path : String) : Option Facts :=
  (contents path).map Parsed.facts

def linksTo (contents : Contents) (path : String) (own : List Chunk) (pair : Import × String) :
    List Edge :=
  CodeIndex.importEdge path pair.2 pair.1 ::
    Edge.symbols path pair.1 own (contents.chunksAt pair.2) (contents.factsAt pair.2)

def links (contents : Contents) (known : List String) (path : String) (version : Parsed) :
    List Edge :=
  Edge.merge ((Import.targets path version.facts.imports known).flatMap
    (contents.linksTo path (version.storedChunks path)))

end Contents

variable {versions : String → Parsed → Prop} {contents : Contents} {graph : Graph}

theorem Graph.Holds.fileChunks_eq (holds : graph.Holds contents.graphs) (path : String) :
    graph.fileChunks path = .ok (contents.chunksAt path) := by
  unfold Graph.fileChunks Contents.chunksAt
  rw [holds.chunks path, Contents.graphs]
  cases contents path with
  | none =>
      simp only [Option.map_none, Option.elim_none, List.mergeSort_nil]
      rfl
  | some version =>
      apply Table.mapM_eq_ok
      intro row member
      exact FileGraph.chunk_of_mem_chunkRows (List.mem_mergeSort.mp member)

theorem Graph.Holds.mem_nodes_iff (holds : graph.Holds contents.graphs) {path : String}
    {version : Parsed} (held : contents path = some version) (node : String) :
    node ∈ (version.storedChunks path).map Chunk.id ++ [path] ↔
      node ∈ (version.graph path).nodes := by
  have read := holds.fileChunks_eq path
  rw [Contents.chunksAt, held, Option.elim_some] at read
  have ids := Graph.mem_ids_of_fileChunks read node
  rw [holds.chunkIds path node, Contents.graphs, held] at ids
  rw [List.mem_append, List.mem_singleton, ids, FileGraph.nodes, List.mem_cons, or_comm]
  simp [Parsed.graph, CodeIndex.localGraph, CodeIndex.fileGraph]

theorem Graph.edges_relinked {nodes : List String} {edges : List Edge}
    (keys : (edges.map Edge.key).Nodup)
    (links : ∀ edge ∈ edges, edge.kind.isLink = true ∧ edge.source ∈ nodes) :
    (graph.relinked nodes edges).edges =
      graph.edges.filter (fun row => !(nodes.contains row.source && row.isLink)) ++
        edges.map EdgeRow.ofEdge := by
  dsimp only [Graph.relinked]
  rw [Table.putAll_eq_append, Table.putAll_of_unique (EdgeRow.unique_map_ofEdge keys)]
  intro old member added inside same
  have stays := (List.mem_filter.mp member).2
  have source : old.source = added.source := congrArg Prod.fst same
  have kind : old.kind = added.kind := congrArg (fun key => key.2.2) same
  obtain ⟨edge, listed, rfl⟩ := List.mem_map.mp inside
  have link : old.isLink = true := by
    rw [EdgeRow.isLink, kind, ← EdgeRow.isLink, EdgeRow.isLink_ofEdge]
    exact (links edge listed).1
  simp [link, source, EdgeRow.ofEdge, (links edge listed).2] at stays

theorem Graph.mem_relinked {nodes : List String} {edges : List Edge}
    (keys : (edges.map Edge.key).Nodup)
    (links : ∀ edge ∈ edges, edge.kind.isLink = true ∧ edge.source ∈ nodes) {row : EdgeRow}
    (isLink : row.isLink = true) :
    row ∈ (graph.relinked nodes edges).edges ↔
      if row.source ∈ nodes then row ∈ edges.map EdgeRow.ofEdge else row ∈ graph.edges := by
  rw [Graph.edges_relinked keys links, List.mem_append, List.mem_filter]
  split
  next inside => simp [inside, isLink]
  next outside =>
    have old : row ∉ edges.map EdgeRow.ofEdge := by
      intro member
      obtain ⟨edge, listed, rfl⟩ := List.mem_map.mp member
      exact outside (links edge listed).2
    simp [outside, old]

namespace CodeIndex

variable {disk : Disk} {index : CodeIndex} {files : List (String × String)}

def Lists (files : List (String × String)) (contents : Contents) : Prop :=
  ∀ pair ∈ files, ∃ version, contents pair.1 = some version ∧ version.hash = pair.2

theorem factsFor_eq (remembers : index.Remembers contents) {path : String} {version : Parsed}
    (held : contents path = some version) :
    index.factsFor disk path version.hash = (index, .ok version.facts) := by
  simp [factsFor, remembers path version held, Option.filter]

theorem targetFacts_eq (remembers : index.Remembers contents) (lists : Lists files contents)
    {target : String} (known : target ∈ files.map Prod.fst) :
    index.targetFacts disk files target = (index, contents.factsAt target) := by
  unfold targetFacts
  cases found : files.lookup target with
  | none =>
      obtain ⟨pair, member, rfl⟩ := List.mem_map.mp known
      have missing := List.lookup_eq_none_iff.mp found pair member
      simp at missing
  | some hash =>
      have member : (target, hash) ∈ files := by
        obtain ⟨before, after, split, -⟩ := List.lookup_eq_some_iff.mp found
        rw [split]
        simp
      -- The facts are remembered under the hash of the version, so nothing is parsed again.
      obtain ⟨version, held, rfl⟩ := lists (target, hash) member
      simp only [factsFor_eq remembers held, Contents.factsAt, held]
      rfl

theorem importEdges_eq (tables : index.graph.tables = some graph)
    (holds : graph.Holds contents.graphs) (remembers : index.Remembers contents)
    (lists : Lists files contents) (path : String) (own : List Chunk)
    (targets : List (Import × String)) (known : ∀ pair ∈ targets, pair.2 ∈ files.map Prod.fst) :
    importEdges disk files path own targets index =
      (index, .ok (targets.flatMap (contents.linksTo path own))) := by
  induction targets with
  | nil => rfl
  | cons pair rest ih =>
      have later := ih fun pair inside => known pair (List.mem_cons_of_mem _ inside)
      rw [importEdges_cons, read_eq tables, holds.fileChunks_eq]
      dsimp only
      rw [targetFacts_eq remembers lists (known pair (List.mem_cons_self ..)), later]
      rfl

theorem isLinkFrom_of_mem_links {path : String} {version : Parsed} {known : List String}
    {edge : Edge} (member : edge ∈ contents.links known path version) :
    edge.IsLinkFrom path (version.storedChunks path) := by
  refine Edge.isLinkFrom_of_mem_merge (fun edge inside => ?_) member
  obtain ⟨pair, -, made⟩ := List.mem_flatMap.mp inside
  rcases List.mem_cons.mp made with rfl | symbol
  · exact ⟨rfl, List.mem_cons_self ..⟩
  · exact Edge.isLinkFrom_of_mem_symbols symbol

def relinkedAt (graph : Graph) (contents : Contents) (known : List String) (path : String)
    (version : Parsed) : Graph :=
  graph.relinked ((version.storedChunks path).map Chunk.id ++ [path])
    (contents.links known path version)

theorem linkFile_eq (tables : index.graph.tables = some graph)
    (holds : graph.Holds contents.graphs) (remembers : index.Remembers contents)
    (lists : Lists files contents) {path : String} {version : Parsed}
    (held : contents path = some version) :
    index.linkFile disk files path version.hash =
      ({ index with
          graph := ⟨some (relinkedAt graph contents (files.map Prod.fst) path version)⟩ },
        .ok (contents.links (files.map Prod.fst) path version).length) := by
  have own : contents.chunksAt path = version.storedChunks path := by
    simp [Contents.chunksAt, held]
  have edges := @importEdges_eq contents graph disk index files tables holds remembers lists path
    (version.storedChunks path)
    (Import.targets path version.facts.imports (files.map Prod.fst))
    fun pair inside => (Import.of_mem_targets inside).1
  simp only [linkFile, factsFor_eq remembers held, read_eq tables, holds.fileChunks_eq, own, edges,
    replaceLinks_eq tables]
  rfl

theorem mem_relinkedAt (holds : graph.Holds contents.graphs) {path other : String}
    {version version' : Parsed} (held : contents path = some version)
    (held' : contents other = some version') (known : List String) {row : EdgeRow}
    (isLink : row.isLink = true) (source : row.source ∈ (version'.graph other).nodes) :
    row ∈ (relinkedAt graph contents known path version).edges ↔
      if other = path then row ∈ (contents.links known path version).map EdgeRow.ofEdge
      else row ∈ graph.edges := by
  have links : ∀ edge ∈ contents.links known path version, edge.kind.isLink = true ∧
      edge.source ∈ (version.storedChunks path).map Chunk.id ++ [path] := by
    intro edge member
    obtain ⟨isLink, leaves⟩ := isLinkFrom_of_mem_links member
    refine ⟨isLink, ?_⟩
    rw [List.mem_append, List.mem_singleton, or_comm]
    exact List.mem_cons.mp leaves
  have graphAt (path : String) {version : Parsed} (held : contents path = some version) :
      contents.graphs path = some (version.graph path) := by
    simp [Contents.graphs, held]
  have keys : ((contents.links known path version).map Edge.key).Nodup := Edge.nodup_key_merge _
  rw [relinkedAt, Graph.mem_relinked keys links isLink]
  by_cases same : other = path
  · subst same
    obtain rfl : version = version' := Option.some.inj (held.symm.trans held')
    rw [if_pos ((holds.mem_nodes_iff held _).mpr source), if_pos rfl]
  · -- Files share no nodes, so the pass drops no link of another file.
    have outside : row.source ∉ (version.graph path).nodes :=
      holds.apart other _ path _ (graphAt other held') (graphAt path held) same _ source
    rw [if_neg fun inside => outside ((holds.mem_nodes_iff held _).mp inside), if_neg same]

def LinksExact (graph : Graph) (contents : Contents) (known : List String) : Prop :=
  ∀ path version, contents path = some version → ∀ row : EdgeRow, row.isLink = true →
    row.source ∈ (version.graph path).nodes →
    (row ∈ graph.edges ↔ row ∈ (contents.links known path version).map EdgeRow.ofEdge)

theorem linkFiles_exact (lists : Lists files contents) (rest : List (String × String))
    (listed : ∀ pair ∈ rest, pair ∈ files) (ready : index.Ready)
    (tables : index.graph.tables = some graph) (holds : graph.Holds contents.graphs)
    (remembers : index.Remembers contents) :
    ∃ after, (linkFiles disk files rest index).1 = { index with graph := ⟨some after⟩ } ∧
      after.Holds contents.graphs ∧
      ∀ path version, contents path = some version → ∀ row : EdgeRow, row.isLink = true →
        row.source ∈ (version.graph path).nodes →
        (row ∈ after.edges ↔ if path ∈ rest.map Prod.fst then
          row ∈ (contents.links (files.map Prod.fst) path version).map EdgeRow.ofEdge
        else row ∈ graph.edges) := by
  -- The links of a file that is still to come are the old ones, those of the others are exact.
  induction rest generalizing index graph with
  | nil =>
      refine ⟨graph, ?_, holds, by simp⟩
      cases index with
      | mk root store vectors packages batchSize facts grammars =>
          obtain rfl : store = ⟨some graph⟩ := by
            cases store
            exact congrArg GraphStore.mk tables
          rfl
  | cons pair others ih =>
      obtain ⟨path, hash⟩ := pair
      obtain ⟨version, held, rfl⟩ := lists (path, hash) (listed _ (List.mem_cons_self ..))
      have linked := @linkFile_eq contents graph disk index files tables holds remembers lists path
        version held
      let next := relinkedAt graph contents (files.map Prod.fst) path version
      -- The pass keeps what is held, so the rest of it starts from the same versions.
      have kept := @linkFile_linked disk files index ready path version.hash [path] (by simp)
      rw [linked] at kept
      have holds' : next.Holds contents.graphs :=
        holds.linked (by simp [Contents.graphs, held]) kept tables rfl
      obtain ⟨after, passed, held', rows⟩ := @ih next { index with graph := ⟨some next⟩ }
        (fun pair inside => listed pair (List.mem_cons_of_mem _ inside)) (kept.ready ready) rfl
        holds' remembers
      refine ⟨after, ?_, held', ?_⟩
      · rw [linkFiles, linked]
        exact passed
      · intro other version' found row isLink source
        rw [rows other version' found row isLink source, List.map_cons]
        by_cases later : other ∈ others.map Prod.fst
        · simp [later]
        · rw [if_neg later, mem_relinkedAt holds held found _ isLink source]
          by_cases same : other = path
          · subst same
            obtain rfl : version = version' := Option.some.inj (held.symm.trans found)
            simp
          · simp [same, later]

theorem link_exact (lists : Lists files contents)
    (all : ∀ path, (contents path).isSome = true → path ∈ files.map Prod.fst) (ready : index.Ready)
    (tables : index.graph.tables = some graph) (holds : graph.Holds contents.graphs)
    (remembers : index.Remembers contents) :
    ∃ after, (index.link disk files).1 = { index with graph := ⟨some after⟩ } ∧
      after.Holds contents.graphs ∧ LinksExact after contents (files.map Prod.fst) := by
  -- The pass goes by path, which changes neither the files nor the targets of their imports.
  let sorted := files.mergeSort (fun a b => decide (a.1 ≤ b.1))
  have same (pair : String × String) : pair ∈ sorted ↔ pair ∈ files := List.mem_mergeSort
  have paths (path : String) : path ∈ sorted.map Prod.fst ↔ path ∈ files.map Prod.fst :=
    ((List.mergeSort_perm files _).map Prod.fst).mem_iff
  have lists' : Lists sorted contents := fun pair inside => lists pair ((same pair).mp inside)
  obtain ⟨after, passed, held, rows⟩ := @linkFiles_exact contents graph disk index sorted lists'
    sorted (fun _ inside => inside) ready tables holds remembers
  refine ⟨after, passed, held, ?_⟩
  intro path version found row isLink source
  have listed := (paths path).mpr (all path (by simp [found]))
  rw [rows path version found row isLink source, if_pos listed, Contents.links,
    Import.targets_congr paths]
  rfl

end CodeIndex

end CodeGraph
