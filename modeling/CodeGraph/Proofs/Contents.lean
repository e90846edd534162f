import CodeGraph.Proofs.Links
import CodeGraph.Proofs.Processing
import Mathlib.Logic.Relation

/-!
What an index holds, said by the versions of the files that were put into it.

`Step` says what deleting and putting files does to an index and to the versions that it holds.
From that follow the two invariants of an index: its graph has exactly the rows of these versions,
and it remembers their facts.
-/

set_option autoImplicit false

namespace CodeGraph

abbrev Contents : Type :=
  String → Option Parsed

structure Separate (grammars : Grammars) (versions : String → Parsed → Prop) : Prop where
  parsed : ∀ path version, versions path version → version.Of grammars path
  chunks : ∀ path version path' version', versions path version → versions path' version' →
    path ≠ path' → ∀ chunk ∈ version.chunks, ∀ chunk' ∈ version'.chunks, chunk.id ≠ chunk'.id

variable {grammars : Grammars} {versions : String → Parsed → Prop} {contents : Contents}

theorem Parsed.Of.not_mem_nodes {path other : String} {version : Parsed}
    (isOf : version.Of grammars path) (supported : isSupported other = true)
    (differ : path ≠ other) : other ∉ (version.graph path).nodes := by
  intro inside
  rcases List.mem_cons.mp inside with same | chunk
  · exact differ same.symm
  · obtain ⟨chunk, listed, id⟩ := List.mem_map.mp chunk
    exact (isOf.belong chunk listed).id_ne_path supported id

theorem Separate.nodes (separate : Separate grammars versions) {path path' : String}
    {version version' : Parsed} (first : versions path version) (second : versions path' version')
    (differ : path ≠ path') :
    ∀ node ∈ (version.graph path).nodes, node ∉ (version'.graph path').nodes := by
  have isOf := separate.parsed path version first
  have isOf' := separate.parsed path' version' second
  intro node inside
  rcases List.mem_cons.mp inside with rfl | inChunks
  · exact isOf'.not_mem_nodes isOf.supported (Ne.symm differ)
  · obtain ⟨chunk, listed, rfl⟩ := List.mem_map.mp inChunks
    intro inside'
    rcases List.mem_cons.mp inside' with same | inChunks'
    · exact (isOf.belong chunk listed).id_ne_path isOf'.supported same
    · obtain ⟨chunk', listed', same⟩ := List.mem_map.mp inChunks'
      exact separate.chunks path version path' version' first second differ chunk listed chunk'
        listed' same.symm

namespace Contents

def graphs (contents : Contents) (path : String) : Option FileGraph :=
  (contents path).map (Parsed.graph path)

def without (contents : Contents) (paths : List String) : Contents := fun path =>
  if path ∈ paths then none else contents path

def renewed (contents newer : Contents) (paths : List String) : Contents := fun path =>
  if path ∈ paths then (newer path).or (contents path) else contents path

theorem graphs_update (contents : Contents) (path : String) (version : Option Parsed) :
    graphs (Function.update contents path version) =
      Function.update contents.graphs path (version.map (Parsed.graph path)) := by
  funext other
  by_cases same : other = path
  · subst same
    simp [graphs]
  · simp [graphs, same]

theorem without_cons (contents : Contents) (path : String) (rest : List String) :
    without (Function.update contents path none) rest = contents.without (path :: rest) := by
  funext other
  by_cases same : other = path
  · subst same
    simp [without]
  · simp [without, same]

theorem renewed_snoc (contents newer : Contents) (paths : List String) (path : String) :
    contents.renewed newer (paths ++ [path]) =
      Function.update (contents.renewed newer paths) path
        ((newer path).or (contents.renewed newer paths path)) := by
  funext other
  by_cases same : other = path
  · subst same
    by_cases again : other ∈ paths <;> cases found : newer other <;> simp [renewed, again, found]
  · simp [renewed, same]

end Contents

namespace CodeIndex

inductive Step (versions : String → Parsed → Prop) :
    CodeIndex × Contents → CodeIndex × Contents → Prop
  | delete {index after : CodeIndex} {contents : Contents} {path : String}
      (supported : isSupported path = true) (deleted : Deleted index path after) :
      Step versions (index, contents) (after, Function.update contents path none)
  | put {index after : CodeIndex} {contents : Contents} {disk : Disk} {path : String}
      {version : Parsed} (known : versions path version)
      (facts : version.facts = Extraction.factsOf index.grammars path version.content)
      (put : Put disk index path version.content version.hash version.chunks after) :
      Step versions (index, contents) (after, Function.update contents path (some version))
  | look (index : CodeIndex) (contents : Contents) (packages : PackageCache) :
      Step versions (index, contents) ({ index with packages }, contents)

abbrev Steps (versions : String → Parsed → Prop) :
    CodeIndex × Contents → CodeIndex × Contents → Prop :=
  Relation.ReflTransGen (Step versions)

structure Holds (versions : String → Parsed → Prop) (index : CodeIndex) (contents : Contents) :
    Prop where
  known : ∀ path version, contents path = some version → versions path version
  graph : ∃ graph, index.graph.tables = some graph ∧ graph.Holds contents.graphs

def Remembers (index : CodeIndex) (contents : Contents) : Prop :=
  ∀ path version, contents path = some version → Table.get? CachedFacts.path index.facts path =
    some { path, hash := version.hash, facts := version.facts }

theorem admits_fileGraph (separate : Separate grammars versions)
    (known : ∀ path version, contents path = some version → versions path version) {disk : Disk}
    {index : CodeIndex} {path : String} {version : Parsed} (new : versions path version)
    (facts : version.facts = Extraction.factsOf index.grammars path version.content) :
    Graph.Admits contents.graphs (fileGraph path version.content version.chunks
      (extraction disk index path version.content version.chunks).edges) ∧
    (fileGraph path version.content version.chunks
      (extraction disk index path version.content version.chunks).edges).core =
        version.graph path := by
  obtain ⟨packages, foreign, edges⟩ := Extraction.edges_ofFile disk index.root index.packages path
    version.content version.chunks index.grammars
  have belong := (separate.parsed path version new).belong
  rw [← facts] at edges
  have core := @core_fileGraph path version.content version.chunks version.facts packages foreign
  rw [extraction, edges]
  refine ⟨⟨?_, Edge.nodup_key_merge _, ?_, ?_⟩, core⟩
  · rw [core]
    exact closed_localGraph belong
  · exact fun edge member => (of_mem_fileGraph foreign member).1
  · intro other file found differ
    obtain ⟨held, holds, rfl⟩ := Option.map_eq_some_iff.mp found
    exact separate.nodes new (known other held holds) (Ne.symm differ)

theorem Holds.step (separate : Separate grammars versions) {before after : CodeIndex × Contents}
    (step : Step versions before after) (holds : before.1.Holds versions before.2) :
    after.1.Holds versions after.2 := by
  obtain ⟨known, graph, tables, held⟩ := holds
  cases step with
  | @delete index after contents path supported deleted =>
      refine ⟨?_, graph.deleteFile path, deleted.graph graph tables, ?_⟩
      · intro other version found
        rcases of_update_eq_some found with ⟨-, none⟩ | ⟨-, old⟩
        · cases none
        · exact known other version old
      · rw [Contents.graphs_update]
        apply held.deleted
        -- The edges at the path itself go too, but it is no node of another file.
        intro other file found differ
        obtain ⟨version, holds, rfl⟩ := Option.map_eq_some_iff.mp found
        exact (separate.parsed other version (known other version holds)).not_mem_nodes supported
          differ
  | @put index after contents disk path version new facts put =>
      obtain ⟨admits, core⟩ := @admits_fileGraph grammars versions contents separate known disk
        index path version new facts
      refine ⟨?_, _, put.graph graph tables, ?_⟩
      · intro other held' found
        rcases of_update_eq_some found with ⟨rfl, same⟩ | ⟨-, old⟩
        · exact Option.some.inj same ▸ new
        · exact known other held' old
      · rw [Contents.graphs_update, Option.map_some, ← core]
        exact held.replaced admits
  | look => exact ⟨known, graph, tables, held⟩

theorem Holds.steps (separate : Separate grammars versions) {before after : CodeIndex × Contents}
    (steps : Steps versions before after) (holds : before.1.Holds versions before.2) :
    after.1.Holds versions after.2 := by
  induction steps with
  | refl => exact holds
  | tail _ step ih => exact Holds.step separate step ih

theorem Remembers.step {before after : CodeIndex × Contents} (step : Step versions before after)
    (remembers : before.1.Remembers before.2) : after.1.Remembers after.2 := by
  cases step with
  | @delete index after contents path supported deleted =>
      intro other version found
      rcases of_update_eq_some found with ⟨-, none⟩ | ⟨differ, old⟩
      · cases none
      · rw [deleted.facts, Table.get?_erase_of_ne _ _ differ]
        exact remembers other version old
  | @put index after contents disk path version new facts put =>
      intro other held found
      rw [put.facts, ← facts]
      rcases of_update_eq_some found with ⟨rfl, same⟩ | ⟨differ, old⟩
      · rw [← Option.some.inj same]
        exact Table.get?_put_self CachedFacts.path
          { path := other, hash := version.hash, facts := version.facts } index.facts
      · rw [Table.get?_put_of_ne _ _ _ _ (Ne.symm differ)]
        exact remembers other held old
  | look => exact remembers

theorem Remembers.steps {before after : CodeIndex × Contents} (steps : Steps versions before after)
    (remembers : before.1.Remembers before.2) : after.1.Remembers after.2 := by
  induction steps with
  | refl => exact remembers
  | tail _ step ih => exact ih.step step

end CodeIndex

namespace Processing

open CodeIndex

variable {disk : Disk} {root : List String} {maxFileSize : Nat}

theorem steps_stores {state : Stores} (ready : ReadyAt grammars root state) (now path : String)
    (offered : ∀ version, stored? grammars disk root maxFileSize path = some version →
      versions path version) (contents : Contents) :
    Steps versions (state.index, contents) ((stores disk maxFileSize now path state).index,
      Function.update contents path
        ((stored? grammars disk root maxFileSize path).or (contents path))) := by
  unfold stores
  rw [ready.root, ready.grammars]
  cases made : attempt grammars disk root maxFileSize path with
  | error error =>
      have none : stored? grammars disk root maxFileSize path = none := by
        simp [stored?, made, Except.toOption]
      rw [none, Option.none_or, Function.update_eq_self]
  | ok parsed =>
      dsimp only
      by_cases takes : parsed.Stored path
      · obtain ⟨after, outcome, written, -, put⟩ := CodeIndex.putFile_taken ready.ready disk path
          parsed.content parsed.hash takes
        have some := stored?_eq_some.mpr ⟨made, takes⟩
        have facts := (attempt_eq_ok made).2.facts
        rw [← ready.grammars] at facts
        rw [written, some, Option.some_or]
        exact .single (.put (offered parsed some) facts put)
      · -- A file that the tables refuse stays as it is, but its packages were looked up.
        obtain ⟨packages, error, written⟩ := CodeIndex.putFile_refused ready.ready disk path
          parsed.content parsed.hash takes
        have none : stored? grammars disk root maxFileSize path = none := by
          simp [stored?, made, Except.toOption, takes, Option.filter]
        rw [written, none, Option.none_or, Function.update_eq_self]
        exact .single (.look state.index contents packages)

theorem steps_of_worked {start state : Stores} (ready : ReadyAt grammars root start)
    {log : Queue.Log}
    (worked : Queue.Session.Worked (worker disk maxFileSize) start log state)
    (offered : ∀ path ∈ log.map Prod.fst, ∀ version,
      stored? grammars disk root maxFileSize path = some version → versions path version)
    (contents : Contents) :
    Steps versions (start.index, contents)
      (state.index, contents.renewed (stored? grammars disk root maxFileSize)
        (log.map Prod.fst)) := by
  induction worked with
  | nil =>
      have same : contents.renewed (stored? grammars disk root maxFileSize) [] = contents := by
        funext path
        simp [Contents.renewed]
      rw [List.map_nil, same]
  | @snoc log state earlier task queue plain ih =>
      rw [List.map_append, List.map_singleton] at offered ⊢
      have steps := ih fun path inside => offered path (List.mem_append_left _ inside)
      rw [worker_state task queue state plain, Contents.renewed_snoc]
      exact steps.trans (steps_stores (ready.worked earlier).1 _ _ (offered task.path (by simp)) _)

end Processing

end CodeGraph
