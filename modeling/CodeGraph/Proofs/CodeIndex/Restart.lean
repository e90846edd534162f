import CodeGraph.Proofs.CodeIndex.Order
import CodeGraph.Proofs.CodeIndex.Relinking

/-!
A pass over files with and without the facts that were remembered when the files were put.

As long as the disk has what was put, facts that are read again are those that were remembered. So
the links are a function of the chunks in the graph and of the files on disk, and a pass after a
restart writes and counts the same ones.
-/

set_option autoImplicit false

namespace CodeGraph

namespace Graph

variable {graph : Graph}

theorem Legible.replaced (legible : graph.Legible) (file : FileGraph) :
    (graph.replaced file).Legible := by
  intro row member
  rcases mem_chunks_replaced member with ⟨old, -⟩ | ⟨chunk, -, rfl⟩
  · exact legible row old
  · exact ChunkRow.chunk_eq (Int.natCast_nonneg _) (Int.natCast_nonneg _)

end Graph

namespace CodeIndex

structure Mirrors (disk : Disk) (paths : List String) (facts : String → Facts)
    (index : CodeIndex) : Prop where
  read : ∀ path ∈ paths, ∃ content,
    disk.readText (Path.components (Path.join (Path.ofComponents index.root) path)) = .ok content ∧
      Facts.ofFile? path content index.grammars = some (facts path)
  known : ∀ path ∈ paths, ∀ entry,
    Table.get? CachedFacts.path index.facts path = some entry → entry.facts = facts path

variable {disk : Disk} {paths : List String} {facts : String → Facts} {index : CodeIndex}
  {graph : Graph} {files : List (String × String)}

theorem Mirrors.answers (mirrors : index.Mirrors disk (files.map Prod.fst) facts) :
    Answers index.grammars disk index.root files facts index.facts := by
  intro pair member
  have listed := List.mem_map_of_mem (f := Prod.fst) member
  unfold answer
  split
  next entry remembered =>
    obtain ⟨found, -⟩ := Option.filter_eq_some_iff.mp remembered
    rw [mirrors.known pair.1 listed entry found]
  next =>
    obtain ⟨content, there, parsed⟩ := mirrors.read pair.1 listed
    simp only [there, parsed]

theorem Mirrors.link (tables : index.graph.tables = some graph) (legible : graph.Legible)
    (mirrors : index.Mirrors disk (files.map Prod.fst) facts) :
    let sorted := (files.mergeSort (fun a b => decide (a.1 ≤ b.1))).map Prod.fst
    (index.link disk files).1.graph = ⟨some (relinkAll sorted facts sorted graph).1⟩ ∧
      (index.link disk files).2 = .ok (relinkAll sorted facts sorted graph).2 := by
  intro sorted
  obtain ⟨known, passed, -⟩ := Answers.link tables legible mirrors.answers
  rw [passed]
  exact ⟨rfl, rfl⟩

def indexed? (submissions : List Submission) (path : String) : Option String :=
  ((submissions.filter fun file => decide (file.path = path ∧
    Takes file.path file.content file.chunks)).getLast?).map Submission.content

theorem indexed?_concat (submissions : List Submission) (file : Submission) (path : String) :
    indexed? (submissions ++ [file]) path =
      if file.path = path ∧ Takes file.path file.content file.chunks then some file.content
      else indexed? submissions path := by
  unfold indexed?
  rw [List.filter_append, List.filter_singleton]
  split
  next taken =>
    rw [decide_eq_true taken, cond_true, List.getLast?_concat]
    rfl
  next other => rw [decide_eq_false other, cond_false, List.append_nil]

structure Built (grammars : Grammars) (submissions : List Submission) (holdings : Holdings) :
    Prop where
  legible : holdings.graph.Legible
  unique : Table.Unique CachedFacts.path holdings.facts
  known : ∀ entry ∈ holdings.facts, ∃ content,
    indexed? submissions entry.path = some content ∧
      entry.facts = Extraction.factsOf grammars entry.path content

theorem Built.put {grammars : Grammars} {submissions : List Submission} {holdings : Holdings}
    (built : Built grammars submissions holdings) (embedder : Option HashEmbedder)
    (file : Submission) {extracted : Extraction}
    (facts : extracted.facts = Extraction.factsOf grammars file.path file.content) :
    Built grammars (submissions ++ [file])
      (if Takes file.path file.content file.chunks then
        holdings.put (contribution embedder file.path file.content file.hash file.chunks extracted)
      else holdings) := by
  split
  next takes =>
    refine ⟨built.legible.replaced _, built.unique.put _, fun entry member => ?_⟩
    rw [indexed?_concat]
    rcases built.unique.mem_put_iff.mp member with rfl | ⟨old, other⟩
    · exact ⟨file.content, if_pos ⟨rfl, takes⟩, facts⟩
    · rw [if_neg fun both => other both.1.symm]
      exact built.known entry old
  next refuses =>
    refine ⟨built.legible, built.unique, fun entry member => ?_⟩
    rw [indexed?_concat, if_neg fun both => refuses both.2]
    exact built.known entry member

theorem Fresh.built {start : CodeIndex} (fresh : start.Fresh) (unknown : start.facts = [])
    (submissions : List Submission) :
    ∃ embedder holdings, (start.run (submissions.map Submission.call)).Has embedder holdings ∧
      Built start.grammars submissions holdings := by
  obtain ⟨embedder, empty⟩ := fresh.has
  refine ⟨embedder, ?_⟩
  induction submissions using List.reverseRecOn with
  | nil =>
      refine ⟨_, empty, by simp [Graph.Legible], ?_, ?_⟩
      · simp [unknown, Table.Unique]
      · simp [unknown]
  | append_singleton earlier file ih =>
      obtain ⟨holdings, has, built⟩ := ih
      have put := has.putFile file.disk file.path file.content file.hash file.chunks
      rw [List.map_append, run, List.foldl_append]
      refine ⟨_, put, built.put embedder file ?_⟩
      rw [extraction, Extraction.facts_ofFile, (start.run_settings (earlier.map Submission.call)).2]

/-- A pass over files that are on disk as they were put does not depend on what is remembered. -/
theorem link_after_restart {start : CodeIndex} (fresh : start.Fresh) (unknown : start.facts = [])
    (submissions : List Submission) (disk : Disk) (files : List (String × String))
    (current : ∀ pair ∈ files, isSupported pair.1 = true ∧ ∃ content,
      indexed? submissions pair.1 = some content ∧
      disk.readText (Path.components (Path.join (Path.ofComponents start.root) pair.1)) =
        .ok content)
    (cold : CodeIndex) (root : cold.root = start.root) (grammars : cold.grammars = start.grammars)
    (graph : cold.graph = (start.run (submissions.map Submission.call)).graph)
    (subset : ∀ entry ∈ cold.facts,
      entry ∈ (start.run (submissions.map Submission.call)).facts) :
    (cold.link disk files).1.graph =
      ((start.run (submissions.map Submission.call)).link disk files).1.graph ∧
    ∃ count, (cold.link disk files).2 = .ok count ∧
      ((start.run (submissions.map Submission.call)).link disk files).2 = .ok count := by
  obtain ⟨embedder, holdings, has, built⟩ := fresh.built unknown submissions
  let facts (path : String) : Facts :=
    Extraction.factsOf start.grammars path ((indexed? submissions path).getD "")
  -- Both indexes know of the files what the disk says, if they know anything.
  have mirrors (index : CodeIndex) (place : index.root = start.root)
      (parser : index.grammars = start.grammars)
      (old : ∀ entry ∈ index.facts, entry ∈ holdings.facts) :
      index.Mirrors disk (files.map Prod.fst) facts := by
    constructor
    · intro path listed
      obtain ⟨pair, member, rfl⟩ := List.mem_map.mp listed
      obtain ⟨supported, content, last, there⟩ := current pair member
      obtain ⟨language, found⟩ := Option.isSome_iff_exists.mp supported
      refine ⟨content, by rw [place, there], ?_⟩
      simp [facts, last, Extraction.factsOf, Facts.ofFile?, found, parser]
    · intro path listed entry found
      obtain ⟨member, rfl⟩ := Table.get?_some found
      obtain ⟨content, last, same⟩ := built.known entry (old entry member)
      simp [facts, last, same]
  have tables : cold.graph.tables = some holdings.graph := by rw [graph, has.tables]
  obtain ⟨sameRoot, sameGrammars⟩ := start.run_settings (submissions.map Submission.call)
  have warm := (mirrors _ sameRoot sameGrammars (by rw [has.facts]; exact fun _ => id)).link
    has.tables built.legible
  have again := (mirrors cold root grammars fun entry member =>
    has.facts ▸ subset entry member).link tables built.legible
  exact ⟨again.1.trans warm.1.symm, _, again.2, warm.2⟩

open Submission in
def importingFiles : List Submission :=
  [ofChunks "b.js" "export function f() {}\nexport function g() {}\n" "1"
      [define "b.js" "1-f" "f" .function 1, define "b.js" "1-g" "g" .function 2],
    ofChunks "a.js" "import { f, g } from './b';\n" "2" [],
    ofChunks "b.js" "function f() {}\nexport function g() {}\n" "3"
      [define "b.js" "3-f" "f" .function 1, define "b.js" "3-g" "g" .function 2]]

def importingDisk : Disk where
  entries :=
    [(["w"], .directory),
      (["w", "a.js"], .file (.bytes (Text.bytes "import { f, g } from './b';\n"))),
      (["w", "b.js"], .file (.bytes (Text.bytes "function f() {}\nexport function g() {}\n")))]

def importingIndex : CodeIndex :=
  ({ root := ["/", "w"], graph := .initialized } : CodeIndex).run
    (importingFiles.map Submission.call)

theorem link_after_restart_of_importingFiles :
    importingIndex.facts.length = 2 ∧
    (link importingDisk { root := ["/", "w"], graph := importingIndex.graph }
        [("a.js", "2"), ("b.js", "3")]).1.graph =
      (importingIndex.link importingDisk [("a.js", "2"), ("b.js", "3")]).1.graph ∧
    ∃ count,
      (link importingDisk { root := ["/", "w"], graph := importingIndex.graph }
        [("a.js", "2"), ("b.js", "3")]).2 = .ok count ∧
      (importingIndex.link importingDisk [("a.js", "2"), ("b.js", "3")]).2 = .ok count := by
  refine ⟨by decide +kernel, ?_⟩
  refine link_after_restart ⟨rfl, by simp⟩ rfl importingFiles importingDisk
    [("a.js", "2"), ("b.js", "3")] ?_ { root := ["/", "w"], graph := importingIndex.graph } rfl rfl
    rfl (by simp)
  simp only [List.forall_mem_cons]
  exact ⟨⟨by decide +kernel, "import { f, g } from './b';\n", by decide +kernel,
    by decide +kernel⟩,
    ⟨by decide +kernel, "function f() {}\nexport function g() {}\n", by decide +kernel,
      by decide +kernel⟩, by simp⟩

end CodeIndex

end CodeGraph
