import CodeGraph.CodeIndex
import CodeGraph.Proofs.Chunking
import CodeGraph.Proofs.Edge.Merge
import CodeGraph.Proofs.Graph.Holds

set_option autoImplicit false

namespace CodeGraph

namespace Edge

theorem of_mem_contains {path : String} {chunks : List Chunk} {edge : Edge}
    (member : edge ∈ contains path chunks) :
    edge.kind = .contains ∧ edge.source = path ∧ edge.target ∈ chunks.map Chunk.id := by
  obtain ⟨order, bound, rfl⟩ := List.mem_mapIdx.mp member
  exact ⟨rfl, rfl, List.mem_map_of_mem (List.getElem_mem bound)⟩

theorem mem_of_foldl_choice {choose : Option Chunk → Chunk → Option Chunk}
    (either : ∀ best chunk, choose best chunk = best ∨ choose best chunk = some chunk)
    {chunks : List Chunk} {best : Option Chunk} {chunk : Chunk}
    (found : chunks.foldl choose best = some chunk) : best = some chunk ∨ chunk ∈ chunks := by
  induction chunks generalizing best with
  | nil => exact .inl found
  | cons first rest ih =>
      rcases ih found with chosen | later
      · rcases either best first with kept | taken
        · exact .inl (kept ▸ chosen)
        · rw [taken] at chosen
          exact .inr (Option.some.inj chosen ▸ List.mem_cons_self ..)
      · exact .inr (List.mem_cons_of_mem _ later)

theorem documented?_mem {chunks : List Chunk} {doc chunk : Chunk}
    (found : documented? chunks doc = some chunk) : chunk ∈ chunks := by
  obtain ⟨name, -, nearest⟩ := Option.bind_eq_some_iff.mp found
  have either := mem_of_foldl_choice (fun best chunk => ?_) nearest
  · rcases either with none | inside
    · cases none
    · exact List.mem_of_mem_filter inside
  · split
    · exact .inr rfl
    · split
      · exact .inr rfl
      · exact .inl rfl

theorem of_mem_documents {chunks : List Chunk} {edge : Edge} (member : edge ∈ documents chunks) :
    edge.kind = .documents ∧ edge.source ∈ chunks.map Chunk.id ∧
      edge.target ∈ chunks.map Chunk.id := by
  obtain ⟨doc, inside, made⟩ := List.mem_filterMap.mp member
  obtain ⟨chunk, found, rfl⟩ := Option.map_eq_some_iff.mp made
  exact ⟨rfl, List.mem_map_of_mem (List.mem_of_mem_filter inside),
    List.mem_map_of_mem (documented?_mem found)⟩

theorem narrowest?_mem {chunks : List Chunk} {chunk : Chunk}
    (found : narrowest? chunks = some chunk) : chunk ∈ chunks := by
  induction chunks generalizing chunk with
  | nil => cases found
  | cons first rest ih =>
      simp only [narrowest?] at found
      split at found
      next other narrower =>
        split at found
        · rw [← Option.some.inj found]
          exact List.mem_cons_of_mem _ (ih narrower)
        · rw [← Option.some.inj found]
          exact List.mem_cons_self ..
      · rw [← Option.some.inj found]
        exact List.mem_cons_self ..

theorem of_reference? {path kind : String} {chunks : List Chunk} {site : Site} {edge : Edge}
    (made : reference? path chunks kind site = some edge) :
    edge.kind = .references ∧ edge.source ∈ path :: chunks.map Chunk.id ∧
      edge.target ∈ chunks.map Chunk.id := by
  obtain ⟨target, defined, rest⟩ := Option.bind_eq_some_iff.mp made
  have inside : target ∈ chunks := List.mem_of_find?_eq_some defined
  have source : ((enclosing? chunks site.line).map Chunk.id).getD path ∈
      path :: chunks.map Chunk.id := by
    cases around : enclosing? chunks site.line with
    | none => simp
    | some chunk =>
        have listed : chunk ∈ chunks := List.mem_of_mem_filter (narrowest?_mem around)
        exact List.mem_cons_of_mem _ (List.mem_map_of_mem listed)
  dsimp only at rest
  split at rest
  · cases rest
  · cases rest
    exact ⟨rfl, source, List.mem_map_of_mem inside⟩

theorem of_mem_references {path : String} {facts : Facts} {chunks : List Chunk} {edge : Edge}
    (member : edge ∈ references path facts chunks) :
    edge.kind = .references ∧ edge.source ∈ path :: chunks.map Chunk.id ∧
      edge.target ∈ chunks.map Chunk.id := by
  rcases List.mem_append.mp member with call | type
  · obtain ⟨site, -, made⟩ := List.mem_filterMap.mp call
    exact of_reference? made
  · obtain ⟨site, -, made⟩ := List.mem_filterMap.mp type
    exact of_reference? made

end Edge

namespace Extraction

def ToPackage (path : String) (edge : Edge) : Prop :=
  edge.kind = .importsPackage ∧ edge.source = path ∧ isPackageNode edge.target = true

theorem of_mem_packageEdges {path : String} {imports : List Import}
    {resolutions : List (Option Resolution)} {edge : Edge}
    (member : edge ∈ packageEdges path imports resolutions) : ToPackage path edge := by
  obtain ⟨⟨entry, resolution⟩, -, made⟩ := List.mem_filterMap.mp member
  obtain ⟨found, -, rfl⟩ := Option.map_eq_some_iff.mp made
  exact ⟨rfl, rfl, isPackageNode_packageNode ..⟩

def factsOf (grammars : Grammars) (path content : String) : Facts :=
  (Facts.ofFile? path content grammars).getD {}

variable (disk : Disk) (root : List String) (cache : PackageCache) (path content : String)
  (chunks : List Chunk) (grammars : Grammars)

theorem facts_ofFile :
    (ofFile disk root cache path content chunks grammars).1.facts =
      factsOf grammars path content := by
  unfold ofFile factsOf
  cases Facts.ofFile? path content grammars <;> rfl

theorem edges_ofFile :
    ∃ packages, (∀ edge ∈ packages, ToPackage path edge) ∧
      (ofFile disk root cache path content chunks grammars).1.edges =
        Edge.merge (packages ++ Edge.references path (factsOf grammars path content) chunks) := by
  unfold ofFile factsOf
  cases Facts.ofFile? path content grammars with
  | none => exact ⟨[], by simp, rfl⟩
  | some facts => exact ⟨_, fun edge member => of_mem_packageEdges member, rfl⟩

end Extraction

namespace CodeIndex

def localGraph (path content : String) (chunks : List Chunk) (facts : Facts) : FileGraph :=
  fileGraph path content chunks (Edge.merge (Edge.references path facts chunks))

variable {path content : String} {chunks : List Chunk} {facts : Facts} {packages : List Edge}

theorem fileGraph_cases (foreign : ∀ edge ∈ packages, Extraction.ToPackage path edge) {edge : Edge}
    (member : edge ∈ (fileGraph path content chunks (Edge.merge
      (packages ++ Edge.references path facts chunks))).edges) :
    (edge.kind = .contains ∧ edge.source = path ∧ edge.target ∈ chunks.map Chunk.id) ∨
    (edge.kind = .documents ∧ edge.source ∈ chunks.map Chunk.id ∧
      edge.target ∈ chunks.map Chunk.id) ∨
    (edge.kind = .references ∧ edge.source ∈ path :: chunks.map Chunk.id ∧
      edge.target ∈ chunks.map Chunk.id) ∨
    Extraction.ToPackage path edge := by
  obtain ⟨original, inside, source, target, kind⟩ := Edge.exists_of_mem_merge member
  unfold Extraction.ToPackage
  rw [← source, ← target, ← kind]
  -- The edges were merged twice: those to packages with the references, then with all others.
  rcases List.mem_append.mp inside with structural | extracted
  · rcases List.mem_append.mp structural with contains | documents
    · exact .inl (Edge.of_mem_contains contains)
    · exact .inr (.inl (Edge.of_mem_documents documents))
  · obtain ⟨first, earlier, source', target', kind'⟩ := Edge.exists_of_mem_merge extracted
    rw [← source', ← target', ← kind']
    rcases List.mem_append.mp earlier with package | reference
    · exact .inr (.inr (.inr (foreign first package)))
    · exact .inr (.inr (.inl (Edge.of_mem_references reference)))

theorem of_mem_fileGraph (foreign : ∀ edge ∈ packages, Extraction.ToPackage path edge) {edge : Edge}
    (member : edge ∈ (fileGraph path content chunks (Edge.merge
      (packages ++ Edge.references path facts chunks))).edges) :
    edge.source ∈ path :: chunks.map Chunk.id ∧
      (edge.kind = .importsPackage ∨
        edge.kind.isLocal = true ∧ edge.target ∈ chunks.map Chunk.id) := by
  rcases fileGraph_cases foreign member with ⟨kind, source, target⟩ | ⟨kind, source, target⟩ |
    ⟨kind, source, target⟩ | ⟨kind, source, -⟩
  · rw [kind, source]
    exact ⟨List.mem_cons_self .., .inr ⟨by decide, target⟩⟩
  · rw [kind]
    exact ⟨List.mem_cons_of_mem _ source, .inr ⟨by decide, target⟩⟩
  · rw [kind]
    exact ⟨source, .inr ⟨by decide, target⟩⟩
  · rw [source]
    exact ⟨List.mem_cons_self .., .inl kind⟩

theorem core_fileGraph (foreign : ∀ edge ∈ packages, Extraction.ToPackage path edge) :
    (fileGraph path content chunks (Edge.merge
      (packages ++ Edge.references path facts chunks))).core =
        localGraph path content chunks facts := by
  have keep {edges : List Edge} (isLocal : ∀ edge ∈ edges, edge.kind.isLocal = true) :
      edges.filter (fun edge => edge.kind.isLocal) = edges :=
    List.filter_eq_self.mpr isLocal
  have none : packages.filter (fun edge => edge.kind.isLocal) = [] := by
    apply List.filter_eq_nil_iff.mpr
    intro edge member
    rw [(foreign edge member).1]
    decide
  have contains := keep fun edge (member : edge ∈ Edge.contains path chunks) => by
    rw [(Edge.of_mem_contains member).1]; decide
  have documents := keep fun edge (member : edge ∈ Edge.documents chunks) => by
    rw [(Edge.of_mem_documents member).1]; decide
  have references := keep fun edge (member : edge ∈ Edge.references path facts chunks) => by
    rw [(Edge.of_mem_references member).1]; decide
  simp only [FileGraph.core, localGraph, fileGraph, Edge.filter_kind_merge EdgeKind.isLocal,
    List.filter_append, contains, documents, references, none, List.nil_append]

theorem closed_localGraph (belong : Chunking.AllBelong path chunks) :
    (localGraph path content chunks facts).Closed := by
  have each {edge : Edge} (member : edge ∈ (localGraph path content chunks facts).edges) :=
    @of_mem_fileGraph path content chunks facts [] (by simp) edge member
  have isLocal : ∀ edge ∈ (localGraph path content chunks facts).edges,
      edge.kind.isLocal = true := by
    rw [← @core_fileGraph path content chunks facts [] (by simp)]
    exact fun edge member => (List.mem_filter.mp member).2
  refine ⟨fun chunk member => (belong chunk member).filePath, isLocal,
    fun edge member => (each member).1, fun edge member => ?_⟩
  rcases (each member).2 with package | ⟨-, target⟩
  · have := isLocal edge member
    rw [package] at this
    exact absurd this (by decide)
  · exact target

end CodeIndex

end CodeGraph
