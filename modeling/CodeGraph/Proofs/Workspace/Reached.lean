import CodeGraph.Proofs.Workspace.Scan

set_option autoImplicit false

namespace CodeGraph

structure Setup where
  discovery : Discovery
  isRoot : Path.IsRoot discovery.root
  settings : QueueSettings := {}
  bounded : settings.maxRetries ≤ maxCount := by decide
  embedder : Option HashEmbedder := none
  batchSize : Nat := 32
  grammars : Grammars := Language.tree

namespace Setup

def fresh (setup : Setup) : Workspace where
  discovery := setup.discovery
  queue := { settings := setup.settings }
  index :=
    ({ root := setup.discovery.root, batchSize := setup.batchSize, grammars := setup.grammars
       vectors := setup.embedder.map (fun embedder => { store := {}, embedder }) } :
      CodeIndex).prepare

theorem ready_fresh (setup : Setup) : setup.fresh.index.Ready where
  tables := ⟨{}, rfl⟩
  vectors := by
    intro vectors found
    simp only [fresh, CodeIndex.prepare, Option.map_map, Option.map_eq_some_iff] at found
    obtain ⟨embedder, -, rfl⟩ := found
    exact VectorIndex.ensure_ready embedder _

theorem quiet_fresh (setup : Setup) : setup.fresh.Quiet where
  root := setup.isRoot
  sameRoot := rfl
  files := FileIndex.sound_empty
  unused := ⟨TaskTable.empty_sound 0, by simp [fresh], by simp [fresh]⟩
  done := by simp [fresh]
  bounded := setup.bounded
  calm := ⟨rfl, rfl⟩
  running := rfl

theorem settled_fresh (setup : Setup) : setup.fresh.Settled :=
  { setup.quiet_fresh with ready := setup.ready_fresh }

def sample : Setup where
  discovery := { root := ["/", "w"], overrides := [], rootRules := [], maxFileSize := 1000 }
  isRoot := ⟨rfl, by simpa using ⟨⟨by decide, by decide⟩, by decide⟩⟩

def sampleDisk (files : List (String × String)) : Disk where
  entries := (["w"], .directory) ::
    files.map (fun (name, text) => (["w", name], .file (.bytes (Text.bytes text))))

def hiddenDisk (name : String) : Disk where
  entries := [(["w"], .directory), (["w", name], .file (.unreadable 20))]

end Setup

namespace Workspace

def scanAll : List Disk → Workspace → Except IndexError Workspace
  | [], workspace => .ok workspace
  | disk :: rest, workspace => do
      let (workspace, _) ← workspace.scan disk
      scanAll rest workspace

/-- A workspace that scans led to, each of them by a worker of its own. -/
inductive Reached (setup : Setup) : Workspace → Prop
  | fresh : Reached setup setup.fresh
  | scan {before after : Workspace} {worker : Worker Stores} {disk : Disk} {report : ScanReport}
      (reached : Reached setup before) (honest : Honest worker disk setup.discovery.root)
      (scanned : before.scanWith worker disk = .ok (after, report)) : Reached setup after

theorem Reached.quiet {setup : Setup} {workspace : Workspace} (reached : Reached setup workspace) :
    workspace.Quiet ∧ workspace.discovery = setup.discovery := by
  induction reached with
  | fresh => exact ⟨setup.quiet_fresh, rfl⟩
  | scan _ honest scanned ih =>
      obtain ⟨quiet, same⟩ := ih
      obtain ⟨quietAfter, place⟩ := quiet.quiet_after (same ▸ honest) scanned
      exact ⟨quietAfter, place.trans same⟩

end Workspace

end CodeGraph
