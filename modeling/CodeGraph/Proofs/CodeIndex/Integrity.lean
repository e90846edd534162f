import CodeGraph.Proofs.CodeIndex.Calls
import CodeGraph.Proofs.Graph.Integrity

/-!
Whatever calls an index takes, and whether they succeed or not, its graph is left without loose
edges. A call may bring any chunks of its file, as long as no two files share an identifier, and may
link any files that are stored.
-/

set_option autoImplicit false

namespace CodeGraph

namespace CodeIndex

variable {owns : String → String → Prop} {index : CodeIndex} {graph : Graph}

theorem joins_of_mem_fileGraph {path content : String} {chunks : List Chunk} {disk : Disk}
    (file : graph.IsFile path)
    (stored : ∀ id ∈ chunks.map Chunk.id, id ∈ graph.chunkIds path) {edge : Edge}
    (member : edge ∈
      (fileGraph path content chunks (extraction disk index path content chunks).edges).edges) :
    graph.Joins edge.kind edge.source edge.target := by
  obtain ⟨packages, foreign, edges⟩ :=
    Extraction.edges_ofFile disk index.root index.packages path content chunks index.grammars
  rw [extraction, edges] at member
  rcases fileGraph_cases foreign member with ⟨kind, source, target⟩ | ⟨kind, source, target⟩ |
    ⟨kind, source, target⟩ | ⟨kind, source, target⟩
  · rw [kind, source]
    exact ⟨file, stored _ target⟩
  · rw [kind]
    exact ⟨path, file, stored _ source, stored _ target⟩
  · rw [kind]
    refine ⟨path, file, ?_, stored _ target⟩
    rcases List.mem_cons.mp source with same | chunk
    · exact same ▸ List.mem_cons_self ..
    · exact List.mem_cons_of_mem _ (stored _ chunk)
  · rw [kind, source]
    exact ⟨file, target⟩

theorem joins_of_importEdges {disk : Disk} {files : List (String × String)} {path : String}
    {own : List Chunk} {targets : List (Import × String)} {after : CodeIndex} {edges : List Edge}
    (tables : index.graph.tables = some graph) (file : graph.IsFile path)
    (read : graph.fileChunks path = .ok own)
    (others : ∀ pair ∈ targets, graph.IsFile pair.2 ∧ pair.2 ≠ path)
    (made : importEdges disk files path own targets index = (after, .ok edges)) {edge : Edge}
    (member : edge ∈ edges) : graph.Joins edge.kind edge.source edge.target := by
  obtain ⟨pair, listed, chunks, facts, target, inside⟩ := exists_target_of_importEdges made member
  rw [read_eq tables] at target
  obtain ⟨known, differ⟩ := others pair listed
  rcases List.mem_cons.mp inside with rfl | symbol
  · exact ⟨file, known, differ.symm⟩
  · obtain ⟨kind, source, defined⟩ := Edge.of_mem_symbols symbol
    rw [kind]
    refine ⟨path, pair.2, file, known, differ.symm, ?_,
      (Graph.mem_ids_of_fileChunks target _).mp defined⟩
    rcases List.mem_cons.mp source with same | chunk
    · exact same ▸ List.mem_cons_self ..
    · exact List.mem_cons_of_mem _ ((Graph.mem_ids_of_fileChunks read _).mp chunk)

def Stores (owns : String → String → Prop) (index : CodeIndex) (files : List FileNodeRow) : Prop :=
  ∃ graph, index.graph.tables = some graph ∧ graph.files = files ∧ graph.Intact owns

variable {disk : Disk} {files : List (String × String)} {rows : List FileNodeRow}

theorem Stores.linkFile (stores : index.Stores owns rows)
    (known : ∀ pair ∈ files, pair.1 ∈ rows.map FileNodeRow.path) (path hash : String)
    (file : path ∈ rows.map FileNodeRow.path) :
    (index.linkFile disk files path hash).1.Stores owns rows := by
  obtain ⟨graph, tables, rfl, intact⟩ := stores
  rcases @linkFile_cases disk files index graph tables path hash with
    ⟨facts, same⟩ | ⟨facts, later, imports, own, edges, read, made, same⟩
  · rw [same]
    exact ⟨graph, tables, rfl, intact⟩
  · rw [same]
    refine ⟨_, rfl, rfl, intact.relinked _ ?_⟩
    intro edge member
    obtain ⟨original, inside, source, target, kind⟩ := Edge.exists_of_mem_merge member
    rw [← source, ← target, ← kind]
    refine @joins_of_importEdges { index with facts } graph disk files path own _ _ _ tables file
      read ?_ made _ inside
    intro pair listed
    obtain ⟨isKnown, differ⟩ := Import.of_mem_targets listed
    obtain ⟨listing, present, named⟩ := List.mem_map.mp isKnown
    exact ⟨named ▸ known listing present, differ⟩

theorem Stores.linkFiles (stores : index.Stores owns rows)
    (known : ∀ pair ∈ files, pair.1 ∈ rows.map FileNodeRow.path) (rest : List (String × String))
    (left : ∀ pair ∈ rest, pair ∈ files) :
    (linkFiles disk files rest index).1.Stores owns rows := by
  induction rest generalizing index with
  | nil => exact stores
  | cons pair others ih =>
      obtain ⟨path, hash⟩ := pair
      have first := @Stores.linkFile owns index disk files rows stores known path hash
        (known _ (left _ (List.mem_cons_self ..)))
      unfold CodeIndex.linkFiles
      cases linked : index.linkFile disk files path hash with
      | mk after outcome =>
          rw [linked] at first
          cases outcome with
          | error error => exact first
          | ok count =>
              exact ih first fun pair inside => left pair (List.mem_cons_of_mem _ inside)

theorem Stores.link (stores : index.Stores owns rows)
    (known : ∀ pair ∈ files, pair.1 ∈ rows.map FileNodeRow.path) :
    (index.link disk files).1.Stores owns rows :=
  stores.linkFiles (fun pair member => known pair (List.mem_mergeSort.mp member)) _
    fun _ member => member

def Call.Linkable (graph : Graph) : Call → Prop
  | .link _ files => ∀ pair ∈ files, graph.IsFile pair.1
  | _ => True

instance (graph : Graph) (call : Call) : Decidable (call.Linkable graph) :=
  match call with
  | .put .. => inferInstanceAs (Decidable True)
  | .delete _ => inferInstanceAs (Decidable True)
  | .link _ files => inferInstanceAs (Decidable (∀ pair ∈ files, graph.IsFile pair.1))

def Permitted (index : CodeIndex) : List Call → Prop
  | [] => True
  | call :: rest =>
      (∀ graph ∈ index.graph.tables, call.Linkable graph) ∧ Permitted (index.apply call) rest

def Owns (calls : List Call) (path id : String) : Prop :=
  ∃ chunk ∈ calls.flatMap Call.chunks, chunk.filePath = path ∧ chunk.id = id

theorem Owns.unique {calls : List Call} (distinct : Call.Distinct calls) (path other id : String)
    (first : Owns calls path id) (second : Owns calls other id) : path = other := by
  obtain ⟨a, listed, rfl, rfl⟩ := first
  obtain ⟨b, also, rfl, same⟩ := second
  exact distinct a listed b also same.symm

theorem intact_apply {calls : List Call} (distinct : Call.Distinct calls) {call : Call}
    (listed : call ∈ calls) (own : call.Own) (tables : index.graph.tables = some graph)
    (linkable : call.Linkable graph) (intact : graph.Intact (Owns calls)) :
    ∃ after, (index.apply call).graph.tables = some after ∧ after.Intact (Owns calls) := by
  cases call with
  | put disk path content hash chunks =>
      rcases tables_putFile tables disk path content hash chunks with kept | replaced
      · exact ⟨graph, kept, intact⟩
      · let file := fileGraph path content chunks (extraction disk index path content chunks).edges
        have fitting : Graph.Fitting (Owns calls) file :=
          ⟨own, fun chunk member =>
            ⟨chunk, List.mem_flatMap.mpr ⟨_, listed, member⟩, own chunk member, rfl⟩⟩
        have apart := Owns.unique distinct
        refine ⟨_, replaced, intact.replaced apart fitting fun edge member => ?_⟩
        exact joins_of_mem_fileGraph (Graph.isFile_replaced.mpr (.inr rfl))
          (fun id new => intact.chunkIds_of_new apart fitting new) member
  | delete path => exact ⟨_, tables_deleteFile tables path, intact.deleteFile path⟩
  | link disk files =>
      have stores : index.Stores (Owns calls) graph.files := ⟨graph, tables, rfl, intact⟩
      obtain ⟨after, tables', -, intact'⟩ := @Stores.link _ _ disk files _ stores linkable
      exact ⟨after, tables', intact'⟩

theorem intact_run {calls : List Call} (distinct : Call.Distinct calls) (rest : List Call)
    (left : ∀ call ∈ rest, call ∈ calls ∧ call.Own) (tables : index.graph.tables = some graph)
    (permitted : index.Permitted rest) (intact : graph.Intact (Owns calls)) :
    ∃ after, (index.run rest).graph.tables = some after ∧ after.Intact (Owns calls) := by
  induction rest generalizing index graph with
  | nil => exact ⟨graph, tables, intact⟩
  | cons call others ih =>
      obtain ⟨listed, own⟩ := left call (List.mem_cons_self ..)
      obtain ⟨linkable, later⟩ := permitted
      obtain ⟨after, tables', intact'⟩ :=
        intact_apply distinct listed own tables (linkable graph tables) intact
      exact ih (fun other inside => left other (List.mem_cons_of_mem _ inside)) tables' later
        intact'

theorem run_keeps_edges_attached (start : CodeIndex) (empty : start.graph.tables = some {})
    (calls : List Call) (own : ∀ call ∈ calls, call.Own) (distinct : Call.Distinct calls)
    (permitted : start.Permitted calls) :
    ∃ graph, (start.run calls).graph.tables = some graph ∧ graph.Integral := by
  obtain ⟨graph, tables, intact⟩ := intact_run distinct calls
    (fun call listed => ⟨listed, own call listed⟩) empty permitted Graph.intact_empty
  exact ⟨graph, tables, intact.edges⟩

def importingCalls : List Call :=
  let other := Call.ofFile Language.tree {} 40 "b.js" "export function f() {}\n" "1"
  let importing := Call.ofFile Language.tree {} 40 "a.js"
    "import { f } from './b';\nimport 'x';\nf();\n" "2"
  [other, importing, .link {} [("a.js", "2"), ("b.js", "1")],
    .ofFile Language.tree {} 40 "b.js" "export function g() {}\n" "3", .delete "a.js", importing]

theorem edges_attached_after_importingCalls :
    ∃ graph, (({ root := ["/", "w"], graph := .initialized } : CodeIndex).run
      importingCalls).graph.tables = some graph ∧ graph.Integral := by
  apply run_keeps_edges_attached
  · rfl
  · simp only [importingCalls, List.forall_mem_cons]
    exact ⟨Call.own_ofFile, Call.own_ofFile, trivial, Call.own_ofFile, trivial,
      Call.own_ofFile, by simp⟩
  · unfold Call.Distinct
    decide +kernel
  · -- Only the third call links; both of its files are stored by then.
    refine ⟨fun _ _ => trivial, fun _ _ => trivial, ?_, fun _ _ => trivial, fun _ _ => trivial,
      fun _ _ => trivial, trivial⟩
    decide +kernel

end CodeIndex

end CodeGraph
