import CodeGraph.Proofs.Workspace.Fate

set_option autoImplicit false

namespace CodeGraph.Workspace

open ChangeSet

variable {disk : Disk} {before after : Workspace}

namespace Scan

variable (scan : Scan (before.worker disk) disk before after)

/-- The version of a file that the worker stores in a scan. -/
def stored? (_ : Scan (before.worker disk) disk before after) (path : String) : Option Parsed :=
  Processing.stored? before.index.grammars disk before.discovery.root
    before.discovery.maxFileSize path

theorem hash_of_attempt {entry : FileEntry} (member : entry ∈ scan.found.entries)
    (available : entry.available = true) {grammars : Grammars} {parsed : Parsed}
    (made : Processing.attempt grammars disk before.discovery.root before.discovery.maxFileSize
      entry.path = .ok parsed) : parsed.hash = entry.hash := by
  refine scan.eq_of_hashes member available fun bytes read => ?_
  rw [(Processing.attempt_eq_ok made).1] at read
  rw [← Except.ok.inj read, Parsed.hash]

theorem ready_cleared (settled : before.Settled) :
    Processing.ReadyAt before.index.grammars before.discovery.root
      { index := scan.cleared, files := scan.recorded } :=
  ⟨scan.deletions.ready settled.ready, scan.deletions.settings.1.trans settled.sameRoot,
    scan.deletions.settings.2⟩

theorem ready_rested (settled : before.Settled) :
    Processing.ReadyAt before.index.grammars before.discovery.root
      { index := scan.rested.index, files := scan.rested.files } :=
  ((scan.ready_cleared settled).worked scan.processed.worked).1

include scan in
theorem settled_after (settled : before.Settled) : after.Settled where
  toQuiet := scan.quietAfter
  ready := by
    have rested := (scan.ready_rested settled).ready
    rw [scan.lastIndex]
    split
    · exact (@CodeIndex.link_linked disk scan.rested.index rested (current scan.files)).ready rested
    · exact rested

include scan in
theorem grammars_after (settled : before.Settled) :
    after.index.grammars = before.index.grammars := by
  have rested := (scan.ready_rested settled).grammars
  rw [scan.lastIndex]
  split
  · obtain ⟨graph, facts, same⟩ := scan.rested.index.link_rest disk (current scan.files)
    rw [same]
    exact rested
  · exact rested

section Settled

variable (settled : before.Settled)

include settled

theorem outcome_eq {path : String} {outcome : Option Nat} (listed : (path, outcome) ∈ scan.log) :
    outcome = (scan.stored? path).map (fun version => version.chunks.length) :=
  (((scan.ready_cleared settled).worked scan.processed.worked).2 _ listed).trans
    (Processing.verdict_eq path)

theorem stored_of_accepted {path : String} (accepted : scan.Accepted path) :
    ∃ version, scan.stored? path = some version ∧
      (version.chunks = [] → before.queue.settings.emptyOutput = .succeed) := by
  obtain ⟨outcome, listed, accepted⟩ := accepted
  rw [scan.outcome_eq settled listed] at accepted
  cases found : scan.stored? path with
  | none =>
      rw [found] at accepted
      cases accepted
  | some version =>
      refine ⟨version, rfl, fun empty => ?_⟩
      rw [found] at accepted
      simpa [empty, Queue.accepts] using accepted

theorem empty_of_refused {path : String} (refused : scan.Refused path) {version : Parsed}
    (stored : scan.stored? path = some version) :
    version.chunks = [] ∧ before.queue.settings.emptyOutput ≠ .succeed := by
  obtain ⟨outcome, listed, refused⟩ := refused
  rw [scan.outcome_eq settled listed, stored] at refused
  cases chunks : version.chunks with
  | nil => simpa [chunks, Queue.accepts] using refused
  | cons chunk rest => simp [chunks, Queue.accepts] at refused

theorem not_refused {path : String} {version : Parsed} (stored : scan.stored? path = some version)
    (solid : version.chunks ≠ []) : ¬scan.Refused path :=
  fun refused => solid (scan.empty_of_refused settled refused stored).1

theorem unmarked_of_failed {path : String} {earlier : Prop}
    (reason : scan.Refused path ∨ path ∉ scan.paths ∧ earlier) (count : Nat) :
    (path, some (count + 1)) ∉ scan.log := by
  intro marked
  have refused := reason.resolve_right fun idle => idle.1 (scan.mem_paths marked)
  have stored := scan.outcome_eq settled marked
  cases found : scan.stored? path with
  | none => simp [found] at stored
  | some version =>
      obtain ⟨empty, -⟩ := scan.empty_of_refused settled refused found
      simp [found, empty] at stored

theorem row_of_dirty {entry : FileEntry} (member : entry ∈ scan.found.entries)
    (dirty : Unrecorded before.files.known entry) :
    (after.files.row? entry.path = some ((FileRow.ofEntry entry
        (before.files.row? entry.path)).failed entry.hash) ∧
      (scan.Refused entry.path ∨
        entry.path ∉ scan.paths ∧ ∃ row ∈ before.queue.table.rows, row.path = entry.path ∧
          row.hasStatus .failed = true)) ∨
    scan.Accepted entry.path ∧
      ∃ now, after.files.row? entry.path = some ((FileRow.ofEntry entry
        (before.files.row? entry.path)).indexed now entry.hash) := by
  have only {other : FileEntry} (inside : other ∈ scan.found.entries)
      (same : other.path = entry.path) : other = entry :=
    scan.eq_of_path inside member same
  have fate := scan.fate entry.path
  generalize after.files.row? entry.path = row at fate
  cases fate with
  | gone missing idle => exact absurd (List.mem_map_of_mem member) missing
  | withdrawn other inside same withdraws idle =>
      exact absurd (only inside same ▸ withdraws) (not_withdraws dirty.1)
  | kept other inside same recorded stays idle => exact absurd dirty (only inside same ▸ recorded)
  | failed other inside same dirty' old unmarked reason =>
      obtain rfl := only inside same
      obtain rfl := unmarked (scan.unmarked_of_failed settled reason)
      exact .inl ⟨rfl, reason⟩
  | indexed other inside same dirty' accepted now =>
      obtain rfl := only inside same
      exact .inr ⟨accepted, now, rfl⟩

end Settled

end Scan

end CodeGraph.Workspace
