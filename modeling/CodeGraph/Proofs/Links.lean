import CodeGraph.Proofs.CodeIndex

set_option autoImplicit false

namespace CodeGraph

namespace Graph

def relinked (graph : Graph) (nodes : List String) (edges : List Edge) : Graph :=
  { graph with
    edges := Table.putAll EdgeRow.key
      (graph.edges.filter (fun row => !(nodes.contains row.source && row.isLink)))
      (edges.map EdgeRow.ofEdge) }

theorem id_of_chunk {row : ChunkRow} {chunk : Chunk} (read : row.chunk = .ok chunk) :
    chunk.id = row.id := by
  unfold ChunkRow.chunk at read
  obtain ⟨start, -, more⟩ := Table.of_bind_eq_ok read
  obtain ⟨stop, -, made⟩ := Table.of_bind_eq_ok more
  cases made
  rfl

theorem mem_ids_of_fileChunks {graph : Graph} {path : String} {own : List Chunk}
    (read : graph.fileChunks path = .ok own) (id : String) :
    id ∈ own.map Chunk.id ↔ id ∈ graph.chunkIds path := by
  rw [Table.map_eq_of_mapM_ok (fun row chunk => id_of_chunk) read]
  exact ((List.mergeSort_perm _ _).map ChunkRow.id).mem_iff

end Graph

namespace Edge

def IsLinkFrom (path : String) (own : List Chunk) (edge : Edge) : Prop :=
  edge.kind.isLink = true ∧ edge.source ∈ path :: own.map Chunk.id

theorem of_mem_symbolEdges {path name : String} {entry : Import} {own targetChunks : List Chunk}
    {facts : Option Facts} {edge : Edge}
    (member : edge ∈ symbolEdges path entry own targetChunks facts name) :
    edge.kind = .importsSymbol ∧ edge.source ∈ path :: own.map Chunk.id ∧
      edge.target ∈ targetChunks.map Chunk.id := by
  unfold symbolEdges at member
  split at member
  · cases member
  · split at member
    · cases member
    next target found =>
      have defined : target.id ∈ targetChunks.map Chunk.id :=
        List.mem_map_of_mem (List.mem_of_find?_eq_some found)
      dsimp only at member
      split at member
      · rw [List.mem_singleton.mp member]
        exact ⟨rfl, List.mem_cons_self .., defined⟩
      · obtain ⟨chunk, user, rfl⟩ := List.mem_map.mp member
        refine ⟨rfl, List.mem_cons_of_mem _ ?_, defined⟩
        exact List.mem_map_of_mem (List.mem_of_mem_filter user)

theorem of_mem_symbols {path : String} {entry : Import} {own targetChunks : List Chunk}
    {facts : Option Facts} {edge : Edge}
    (member : edge ∈ symbols path entry own targetChunks facts) :
    edge.kind = .importsSymbol ∧ edge.source ∈ path :: own.map Chunk.id ∧
      edge.target ∈ targetChunks.map Chunk.id := by
  obtain ⟨name, -, inside⟩ := List.mem_flatMap.mp member
  exact of_mem_symbolEdges inside

theorem isLinkFrom_of_mem_symbols {path : String} {entry : Import} {own targetChunks : List Chunk}
    {facts : Option Facts} {edge : Edge}
    (member : edge ∈ symbols path entry own targetChunks facts) : edge.IsLinkFrom path own := by
  obtain ⟨kind, source, -⟩ := of_mem_symbols member
  exact ⟨by rw [kind]; rfl, source⟩

theorem isLinkFrom_of_mem_merge {path : String} {own : List Chunk} {edges : List Edge}
    (all : ∀ edge ∈ edges, edge.IsLinkFrom path own) {edge : Edge} (member : edge ∈ merge edges) :
    edge.IsLinkFrom path own := by
  obtain ⟨original, inside, source, -, kind⟩ := exists_of_mem_merge member
  obtain ⟨isLink, leaves⟩ := all original inside
  exact ⟨kind ▸ isLink, source ▸ leaves⟩

end Edge

namespace CodeIndex

variable {disk : Disk} {files : List (String × String)}

theorem factsFor_facts (disk : Disk) (index : CodeIndex) (path hash : String) :
    ∃ facts, (index.factsFor disk path hash).1 = { index with facts } := by
  unfold factsFor
  split
  · exact ⟨index.facts, rfl⟩
  · split
    · exact ⟨index.facts, rfl⟩
    · split
      · exact ⟨index.facts, rfl⟩
      · exact ⟨_, rfl⟩

def targetFacts (disk : Disk) (files : List (String × String)) (index : CodeIndex)
    (target : String) : CodeIndex × Option Facts :=
  match files.lookup target with
  | some hash => ((index.factsFor disk target hash).1, (index.factsFor disk target hash).2.toOption)
  | none => (index, none)

theorem importEdges_cons (path : String) (own : List Chunk) (entry : Import) (target : String)
    (rest : List (Import × String)) (index : CodeIndex) :
    importEdges disk files path own ((entry, target) :: rest) index =
      match index.graph.read (·.fileChunks target) with
      | .error error => (index, .error (.store error))
      | .ok chunks =>
          let looked := index.targetFacts disk files target
          let later := importEdges disk files path own rest looked.1
          let edges := importEdge path target entry :: Edge.symbols path entry own chunks looked.2
          (later.1, (edges ++ ·) <$> later.2) := by
  rw [importEdges]
  rfl

theorem targetFacts_facts (index : CodeIndex) (target : String) :
    ∃ facts, (index.targetFacts disk files target).1 = { index with facts } := by
  unfold targetFacts
  split
  · exact factsFor_facts disk index target _
  · exact ⟨index.facts, rfl⟩

theorem importEdges_facts (path : String) (own : List Chunk) (targets : List (Import × String))
    (index : CodeIndex) :
    ∃ facts, (importEdges disk files path own targets index).1 = { index with facts } := by
  induction targets generalizing index with
  | nil => exact ⟨index.facts, rfl⟩
  | cons pair rest ih =>
      rw [importEdges_cons]
      split
      · exact ⟨index.facts, rfl⟩
      · obtain ⟨facts, same⟩ := @targetFacts_facts disk files index pair.2
        obtain ⟨later, after⟩ := ih { index with facts }
        dsimp only
        exact ⟨later, by rw [same, after]⟩

theorem exists_target_of_importEdges {path : String} {own : List Chunk}
    {targets : List (Import × String)} {index after : CodeIndex} {edges : List Edge}
    (made : importEdges disk files path own targets index = (after, .ok edges)) {edge : Edge}
    (member : edge ∈ edges) :
    ∃ pair ∈ targets, ∃ chunks facts, index.graph.read (·.fileChunks pair.2) = .ok chunks ∧
      edge ∈ importEdge path pair.2 pair.1 :: Edge.symbols path pair.1 own chunks facts := by
  induction targets generalizing index after edges with
  | nil =>
      cases made
      cases member
  | cons pair rest ih =>
      rw [importEdges_cons] at made
      split at made
      · cases (Prod.mk.inj made).2
      next chunks read =>
        have result := (Prod.mk.inj made).2
        obtain ⟨facts, same⟩ := @targetFacts_facts disk files index pair.2
        cases later : importEdges disk files path own rest
            (index.targetFacts disk files pair.2).1 with
        | mk final outcome =>
            rw [later] at result
            cases outcome with
            | error error => cases result
            | ok others =>
                cases result
                rcases List.mem_append.mp member with now | after
                · exact ⟨pair, List.mem_cons_self .., chunks, _, read, now⟩
                · -- Looking up facts leaves the graph alone, so later targets read the same one.
                  obtain ⟨other, inside, found⟩ := ih later after
                  rw [same] at found
                  exact ⟨other, List.mem_cons_of_mem _ inside, found⟩

theorem isLinkFrom_of_importEdges {path : String} {own : List Chunk}
    {targets : List (Import × String)} {index after : CodeIndex} {edges : List Edge}
    (made : importEdges disk files path own targets index = (after, .ok edges)) :
    ∀ edge ∈ edges, edge.IsLinkFrom path own := by
  intro edge member
  obtain ⟨pair, -, chunks, facts, -, inside⟩ := exists_target_of_importEdges made member
  rcases List.mem_cons.mp inside with rfl | symbol
  · exact ⟨rfl, List.mem_cons_self ..⟩
  · exact Edge.isLinkFrom_of_mem_symbols symbol

theorem replaceLinks_eq {index : CodeIndex} {graph : Graph}
    (tables : index.graph.tables = some graph) (path : String) (own : List Chunk)
    (edges : List Edge) :
    index.replaceLinks path own edges =
      .ok ⟨some (graph.relinked (own.map Chunk.id ++ [path]) edges)⟩ := by
  have dropped : index.graph.dropEdgesFrom (own.map Chunk.id ++ [path]) [.imports, .importsSymbol] =
      .ok ⟨some (graph.dropEdges fun row =>
        (own.map Chunk.id ++ [path]).contains row.source && row.isLink)⟩ := by
    have some : (own.map Chunk.id ++ [path]).isEmpty = false := by simp
    simp only [GraphStore.dropEdgesFrom, GraphStore.writeAll, some, GraphStore.write,
      GraphStore.graph, tables, Graph.dropEdgesFrom_eq]
    rfl
  simp only [replaceLinks, dropped]
  -- Without new edges nothing is written, and the empty write would change nothing.
  cases edges with
  | nil => rfl
  | cons edge rest =>
      simp only [bind, Except.bind, GraphStore.putEdges, GraphStore.writeAll, List.isEmpty_cons,
        GraphStore.write, GraphStore.graph, Graph.putEdges_eq]
      rfl

structure Linked (paths : List String) (index after : CodeIndex) : Prop where
  root : after.root = index.root
  vectors : after.vectors = index.vectors
  graph : ∀ graph, index.graph.tables = some graph → ∃ graph', after.graph.tables = some graph' ∧
    graph'.files = graph.files ∧ graph'.chunks = graph.chunks ∧
    (Table.Unique EdgeRow.key graph.edges → Table.Unique EdgeRow.key graph'.edges) ∧
    (∀ row : EdgeRow, row.isLink = false → (row ∈ graph'.edges ↔ row ∈ graph.edges)) ∧
    ∀ row ∈ graph'.edges, row ∈ graph.edges ∨
      (∃ kind : EdgeKind, row.kind = kind.name) ∧
        ∃ path ∈ paths, row.source ∈ path :: graph.chunkIds path

theorem Linked.refl (paths : List String) (index : CodeIndex) (facts : List CachedFacts) :
    Linked paths index { index with facts } :=
  ⟨rfl, rfl, fun graph tables => ⟨graph, tables, rfl, rfl, id, fun _ _ => Iff.rfl,
    fun _ member => .inl member⟩⟩

theorem Linked.trans {paths : List String} {a b c : CodeIndex} (first : Linked paths a b)
    (second : Linked paths b c) : Linked paths a c where
  root := second.root.trans first.root
  vectors := second.vectors.trans first.vectors
  graph := by
    intro graph tables
    obtain ⟨middle, tables, files, chunks, unique, other, new⟩ := first.graph graph tables
    obtain ⟨last, tables', files', chunks', unique', other', new'⟩ := second.graph middle tables
    refine ⟨last, tables', files'.trans files, chunks'.trans chunks, unique' ∘ unique, ?_, ?_⟩
    · exact fun row isOther => (other' row isOther).trans (other row isOther)
    · intro row member
      rcases new' row member with inside | ⟨kind, path, listed, source⟩
      · exact new row inside
      · refine .inr ⟨kind, path, listed, ?_⟩
        simpa only [Graph.chunkIds, chunks] using source

theorem Linked.ready {paths : List String} {index after : CodeIndex}
    (linked : Linked paths index after) (ready : index.Ready) : after.Ready where
  tables := by
    obtain ⟨graph, tables⟩ := ready.tables
    obtain ⟨graph', tables', -⟩ := linked.graph graph tables
    exact ⟨graph', tables'⟩
  vectors := linked.vectors ▸ ready.vectors

theorem linked_relinked {index : CodeIndex} {graph : Graph}
    (tables : index.graph.tables = some graph) {path : String} {own : List Chunk}
    (read : graph.fileChunks path = .ok own) {edges : List Edge}
    (links : ∀ edge ∈ edges, edge.IsLinkFrom path own) (paths : List String) (listed : path ∈ paths)
    (facts : List CachedFacts) :
    Linked paths index
      { index with
        graph := ⟨some (graph.relinked (own.map Chunk.id ++ [path]) edges)⟩, facts } where
  root := rfl
  vectors := rfl
  graph := by
    intro other same
    rw [tables] at same
    obtain rfl := Option.some.inj same
    have new {row : EdgeRow} (member : row ∈ edges.map EdgeRow.ofEdge) :
        row.isLink = true ∧ (∃ kind : EdgeKind, row.kind = kind.name) ∧
          row.source ∈ path :: graph.chunkIds path := by
      obtain ⟨edge, inside, rfl⟩ := List.mem_map.mp member
      obtain ⟨isLink, source⟩ := links edge inside
      refine ⟨by rw [EdgeRow.isLink_ofEdge, isLink], ⟨edge.kind, rfl⟩, ?_⟩
      rcases List.mem_cons.mp source with same | chunk
      · exact same ▸ List.mem_cons_self ..
      · exact List.mem_cons_of_mem _ ((Graph.mem_ids_of_fileChunks read _).mp chunk)
    refine ⟨_, rfl, rfl, rfl, fun unique => (unique.filter _).putAll _, ?_, ?_⟩
    · intro row isOther
      constructor
      · intro member
        rcases Table.mem_putAll member with old | added
        · exact List.mem_of_mem_filter old
        · rw [(new added).1] at isOther
          cases isOther
      · -- A new edge of the same key would be of the same kind, and thus no link.
        intro member
        apply Table.mem_putAll_of_ne
        · exact List.mem_filter.mpr ⟨member, by simp [isOther]⟩
        · intro added present same
          have kinds : row.kind = added.kind := congrArg (fun key => key.2.2) same
          have isLink := (new present).1
          simp only [EdgeRow.isLink, ← kinds] at isLink
          simp only [EdgeRow.isLink, isLink] at isOther
          cases isOther
    · intro row member
      rcases Table.mem_putAll member with old | added
      · exact .inl (List.mem_of_mem_filter old)
      · exact .inr ⟨(new added).2.1, path, listed, (new added).2.2⟩

theorem read_eq {index : CodeIndex} {graph : Graph} (tables : index.graph.tables = some graph)
    {α : Type} (query : Graph → Except StoreError α) : index.graph.read query = query graph := by
  simp only [GraphStore.read, GraphStore.graph, tables]
  rfl

theorem linkFile_rest (index : CodeIndex) (path hash : String) :
    ∃ graph facts, (index.linkFile disk files path hash).1 = { index with graph, facts } := by
  obtain ⟨facts, same⟩ := factsFor_facts disk index path hash
  unfold linkFile
  cases looked : index.factsFor disk path hash with
  | mk known outcome =>
      rw [looked] at same
      dsimp only at same
      subst same
      cases outcome with
      | error error => exact ⟨index.graph, facts, rfl⟩
      | ok found =>
          dsimp only
          split
          · exact ⟨index.graph, facts, rfl⟩
          next own read =>
            obtain ⟨later, after⟩ := @importEdges_facts disk files path own
              (Import.targets path found.imports (files.map Prod.fst)) { index with facts }
            cases made : importEdges disk files path own
                (Import.targets path found.imports (files.map Prod.fst)) { index with facts } with
            | mk final outcome =>
                rw [made] at after
                dsimp only at after
                subst after
                cases outcome with
                | error error => exact ⟨index.graph, later, rfl⟩
                | ok edges =>
                    dsimp only
                    split
                    · exact ⟨index.graph, later, rfl⟩
                    next graph _ => exact ⟨graph, later, rfl⟩

theorem link_rest (index : CodeIndex) (disk : Disk) (files : List (String × String)) :
    ∃ graph facts, (index.link disk files).1 = { index with graph, facts } := by
  suffices all : ∀ known rest (index : CodeIndex), ∃ graph facts,
      (linkFiles disk known rest index).1 = { index with graph, facts } from all _ _ index
  intro known rest
  induction rest with
  | nil => exact fun index => ⟨index.graph, index.facts, rfl⟩
  | cons pair others ih =>
      intro index
      obtain ⟨path, hash⟩ := pair
      obtain ⟨graph, facts, first⟩ := @linkFile_rest disk known index path hash
      unfold linkFiles
      cases linked : index.linkFile disk known path hash with
      | mk middle outcome =>
          rw [linked] at first
          cases outcome with
          | error error => exact ⟨graph, facts, first⟩
          | ok count =>
              dsimp only at first
              subst first
              exact ih _

/-- What linking a file does: it looks up facts, and then either stops there or replaces the links
of the file. -/
theorem linkFile_cases {index : CodeIndex} {graph : Graph}
    (tables : index.graph.tables = some graph) (path hash : String) :
    (∃ facts, (index.linkFile disk files path hash).1 = { index with facts }) ∨
    ∃ facts later imports own edges, graph.fileChunks path = .ok own ∧
      importEdges disk files path own (Import.targets path imports (files.map Prod.fst))
        { index with facts } = ({ index with facts := later }, .ok edges) ∧
      (index.linkFile disk files path hash).1 =
        { index with
          graph := ⟨some (graph.relinked (own.map Chunk.id ++ [path]) (Edge.merge edges))⟩
          facts := later } := by
  obtain ⟨facts, same⟩ := factsFor_facts disk index path hash
  unfold linkFile
  -- Looking up facts touches what is remembered; the graph is written in the last case only.
  cases looked : index.factsFor disk path hash with
  | mk known outcome =>
      rw [looked] at same
      dsimp only at same
      subst same
      cases outcome with
      | error error => exact .inl ⟨facts, rfl⟩
      | ok found =>
          dsimp only
          rw [@read_eq { index with facts } graph tables]
          split
          · exact .inl ⟨facts, rfl⟩
          next own read =>
            obtain ⟨later, after⟩ := @importEdges_facts disk files path own
              (Import.targets path found.imports (files.map Prod.fst)) { index with facts }
            cases made : importEdges disk files path own
                (Import.targets path found.imports (files.map Prod.fst)) { index with facts } with
            | mk final outcome =>
                rw [made] at after
                dsimp only at after
                subst after
                cases outcome with
                | error error => exact .inl ⟨later, rfl⟩
                | ok edges =>
                    dsimp only
                    rw [@replaceLinks_eq { index with facts := later } graph tables]
                    exact .inr ⟨facts, later, found.imports, own, edges, read, made, rfl⟩

theorem linkFile_linked (index : CodeIndex) (ready : index.Ready) (path hash : String)
    (paths : List String) (listed : path ∈ paths) :
    Linked paths index (index.linkFile disk files path hash).1 := by
  -- Every way out but the last leaves at most more facts behind.
  obtain ⟨graph, tables⟩ := ready.tables
  rcases @linkFile_cases disk files index graph tables path hash with
    ⟨facts, same⟩ | ⟨facts, later, imports, own, edges, read, made, same⟩
  · rw [same]
    exact .refl paths index facts
  · rw [same]
    have links := isLinkFrom_of_importEdges made
    exact linked_relinked tables read
      (fun edge member => Edge.isLinkFrom_of_mem_merge links member) paths listed later

theorem linkFiles_linked (index : CodeIndex) (ready : index.Ready) (rest : List (String × String))
    (paths : List String) (listed : ∀ pair ∈ rest, pair.1 ∈ paths) :
    Linked paths index (linkFiles disk files rest index).1 := by
  induction rest generalizing index with
  | nil => exact .refl paths index index.facts
  | cons pair others ih =>
      obtain ⟨path, hash⟩ := pair
      have first := @linkFile_linked disk files index ready path hash paths
        (listed (path, hash) (List.mem_cons_self ..))
      unfold linkFiles
      cases linked : index.linkFile disk files path hash with
      | mk after outcome =>
          rw [linked] at first
          cases outcome with
          | error error => exact first
          | ok count =>
              have later := ih after (first.ready ready)
                fun pair inside => listed pair (List.mem_cons_of_mem _ inside)
              exact first.trans later

theorem link_linked (index : CodeIndex) (ready : index.Ready) (files : List (String × String)) :
    Linked (files.map Prod.fst) index (index.link disk files).1 := by
  apply linkFiles_linked index ready
  intro pair member
  exact List.mem_map_of_mem (List.mem_mergeSort.mp member)

end CodeIndex

theorem Graph.Holds.linked {graph graph' : Graph} {stored : String → Option FileGraph}
    (holds : graph.Holds stored) {paths : List String}
    (known : ∀ path ∈ paths, (stored path).isSome = true) {index after : CodeIndex}
    (linked : CodeIndex.Linked paths index after) (tables : index.graph.tables = some graph)
    (tables' : after.graph.tables = some graph') : graph'.Holds stored := by
  obtain ⟨other, same, files, chunks, unique, local', new⟩ := linked.graph graph tables
  rw [tables'] at same
  obtain rfl := Option.some.inj same
  refine
    { named := holds.named, closed := holds.closed, apart := holds.apart
      files := by rw [files]; exact holds.files
      uniqueFiles := by rw [files]; exact holds.uniqueFiles
      chunks := by rw [chunks]; exact holds.chunks
      uniqueChunks := by rw [chunks]; exact holds.uniqueChunks
      edges := ?_, uniqueEdges := unique holds.uniqueEdges, owned := ?_ }
  · intro row isLocal
    rw [local' row (EdgeRow.isLink_of_isLocal isLocal), holds.edges row isLocal]
  · intro row member
    rcases new row member with old | ⟨kind, path, listed, source⟩
    · exact holds.owned row old
    · obtain ⟨file, found⟩ := Option.isSome_iff_exists.mp (known path listed)
      refine ⟨kind, path, file, found, ?_⟩
      rcases List.mem_cons.mp source with same | chunk
      · rw [same, ← holds.named path file found]
        exact List.mem_cons_self ..
      · obtain ⟨other, again, inside⟩ := (holds.chunkIds path _).mp chunk
        rw [found] at again
        rw [Option.some.inj again]
        exact List.mem_cons_of_mem _ inside

end CodeGraph
