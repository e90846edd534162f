import CodeGraph.CommandLine
import CodeGraph.Decimal
import CodeGraph.Workspace.Opening

/-!
The program: what a command line does to a machine, and what it prints.

A command opens the workspace, works on it and writes it back, also if the work fails.
-/

set_option autoImplicit false

namespace CodeGraph

inductive Failure where
  | config (path : String)
  | settings (problem : Config.Problem)
  | root (path : String)
  | noVectors
  | opening (error : OpenError)
  | index (error : IndexError)
deriving DecidableEq, Repr

def Failure.message : Failure → String
  | .config path => "loading " ++ path
  | .settings problem => problem.message
  | .root path => "workspace root " ++ path ++ " is not accessible"
  | .noVectors => "search needs vectors; set storage.vector_enabled = true"
  | .opening error => error.message
  | .index error => error.message

/-- A line of output. How long a scan took is known only when the line is written. -/
inductive Line where
  | text (content : String)
  | scanned (report : ScanReport)
deriving DecidableEq, Repr, Inhabited

def Line.render (milliseconds : String) : Line → String
  | .text content => content
  | .scanned report =>
      "Scanned " ++ toString report.scanned ++ " files in " ++ milliseconds ++ "ms: " ++
        toString report.new ++ " new, " ++ toString report.modified ++ " modified, " ++
        toString report.unchanged ++ " unchanged, " ++ toString report.deleted ++ " deleted"

structure Output where
  code : Nat := 0
  lines : List Line := []
  error : Option String := none
deriving DecidableEq, Repr, Inhabited

def ScanReport.lines (report : ScanReport) : List Line :=
  .scanned report ::
    (["Indexed " ++ toString report.processed ++ " of " ++ toString report.enqueued ++ " queued, " ++
        toString report.links ++ " cross-file links"] ++
      report.failed.map ("  failed: " ++ ·) ++ report.errors.map ("  warning: " ++ ·)).map .text

/-- Scores have three places. -/
def SearchResults.hitLine (hit : (Chunk × Float32) × Nat) : String :=
  let ((chunk, score), position) := hit
  Text.padLeft 2 (toString (position + 1)) ++ ". [" ++ Decimal.fixed 3 score ++ "] " ++ chunk.header

def SearchResults.lines (query : String) (results : SearchResults) : List Line :=
  let related :=
    if results.related.isEmpty then []
    else ["", "Related:"] ++ results.related.map (fun chunk => "    " ++ chunk.header)
  if results.direct.isEmpty then [.text ("No results for \"" ++ query ++ "\"")]
  else (results.direct.zipIdx.map SearchResults.hitLine ++ related).map .text

def TaskStats.line (stats : TaskStats) : String :=
  toString stats.pending ++ " pending, " ++ toString stats.processing ++ " processing, " ++
    toString stats.completed ++ " completed, " ++ toString stats.failed ++ " failed"

def Graph.Stats.lines (stats : Graph.Stats) : List String :=
  ("Graph:     " ++ toString stats.files ++ " files, " ++ toString stats.chunks ++ " chunks, " ++
      toString stats.edges ++ " relationships") ::
    stats.byKind.map (fun entry =>
      "           " ++ Text.padRight 16 entry.1 ++ " " ++ toString entry.2)

def FileEntry.summary (entries : List FileEntry) : String :=
  let count (p : FileEntry → Bool) : String := toString (entries.countP p)
  "Files:     " ++ toString entries.length ++ " tracked, " ++ count FileEntry.isDirty ++
    " pending, " ++ count FileEntry.hasFailed ++ " failed, " ++
    count (fun entry => !entry.available) ++ " not indexable"

namespace Workspace

def forget (workspace : Workspace) : Workspace :=
  { workspace with files := workspace.files.clearAllIndexed }

def retry (workspace : Workspace) : Workspace :=
  { workspace with files := workspace.files.clearFailed, queue := workspace.queue.retryFailed }

def summary (root : List String) (workspace : Workspace) : Except IndexError (List Line) := do
  let graph ← workspace.index.stats
  let entries ← workspace.files.list
  return ((["Workspace: " ++ Path.ofComponents root, FileEntry.summary entries] ++ graph.lines ++
    ["Queue:     " ++ workspace.queue.table.stats.line]).map .text)

def perform (workspace : Workspace) : QueueAction → Workspace × String
  | .stats =>
      let stats := workspace.queue.table.stats
      (workspace, stats.line ++ " (" ++ toString stats.total ++ " total)")
  | .retryFailed =>
      (workspace.retry, toString (workspace.queue.table.count .failed) ++
        " failed task(s) reset to pending, " ++ toString workspace.files.failedCount ++
        " file(s) will be re-indexed")
  | .clearCompleted =>
      ({ workspace with queue := workspace.queue.clearCompleted },
        toString (workspace.queue.table.count .completed) ++ " completed task(s) removed")
  | .clearAll =>
      ({ workspace with queue := workspace.queue.clearAll },
        toString workspace.queue.table.rows.length ++ " task(s) removed")

end Workspace

namespace Command

def needsVectors : Command → Bool
  | .index _ | .search .. | .watch => true
  | .stats | .queue _ => false

def afterScan (disk : Disk) (workspace : Workspace)
    (answer : Workspace → ScanReport → Except IndexError (List Line)) :
    Workspace × Except IndexError (List Line) :=
  match workspace.scan disk with
  | .error error => (workspace, .error error)
  | .ok (workspace, report) => (workspace, answer workspace report)

def perform (disk : Disk) (config : Config) (root : List String) (workspace : Workspace) :
    Command → Workspace × Except IndexError (List Line)
  | .index force =>
      afterScan disk (if force then workspace.forget else workspace)
        (fun _ report => .ok report.lines)
  | .search query limit depth =>
      afterScan disk workspace (fun workspace _ => do
        let results ← workspace.index.search query (limit.getD config.search.limit)
          (depth.getD config.search.depth)
        return results.lines query)
  | .watch =>
      afterScan disk workspace (fun _ report => .ok (report.lines ++
        [.text ("Watching " ++ Path.ofComponents root ++ " (ctrl-c to stop)")]))
  | .stats => (workspace, workspace.summary root)
  | .queue action =>
      let (workspace, text) := workspace.perform action
      (workspace, .ok [.text text])

end Command

structure Surroundings where
  directory : String
  environment : Config.Environment := []
deriving DecidableEq, Repr, Inhabited

def Config.locateRoot (config : Config) (disk : Disk) (surroundings : Surroundings) :
    Except Failure (List String) :=
  let path := config.workspaceRoot surroundings.directory
  match disk.find path with
  | .ok (location, _) => .ok ("/" :: location)
  | .error _ => .error (.root path)

namespace Request

def configPath (request : Request) (surroundings : Surroundings) : String :=
  request.config.getD
    ((surroundings.environment.lookup "CODEWEAVE_CONFIG").getD "config/default.toml")

def configText (request : Request) (disk : Disk) (surroundings : Surroundings) :
    Except Failure (Option String) :=
  let path := request.configPath surroundings
  let place := Path.join surroundings.directory path
  if path == "" || !(disk.find place).isOk then .ok none
  else
    match disk.readText (Path.components place) with
    | .ok text => .ok (some text)
    | .error _ => .error (.config path)

def settings (request : Request) (disk : Disk) (surroundings : Surroundings) :
    Except Failure Config := do
  let text ← request.configText disk surroundings
  let config ← (Config.load text surroundings.environment).mapError
    (fun _ => .config (request.configPath surroundings))
  let root := request.root.getD config.workspace.root
  let config := { config with workspace := { config.workspace with root } }
  match config.problem? with
  | some problem => throw (.settings problem)
  | none => return config

def run (request : Request) (machine : Machine) (surroundings : Surroundings) :
    Machine × Except Failure (List Line) :=
  let command := request.command
  let prepared : Except Failure (Config × List String) := do
    let config ← request.settings machine.disk surroundings
    let root ← config.locateRoot machine.disk surroundings
    match command with
    | .search .. => if config.storage.vectorEnabled then return (config, root) else throw .noVectors
    | _ => return (config, root)
  match prepared with
  | .error failure => (machine, .error failure)
  | .ok (config, root) =>
      match Workspace.openAt machine config root command.needsVectors with
      | (machine, .error error) => (machine, .error (.opening error))
      | (machine, .ok (workspace, place)) =>
          let (workspace, answer) := command.perform machine.disk config root workspace
          (workspace.close machine place, answer.mapError .index)

end Request

namespace Program

def version : String := "codeweave 0.3.0"

def usage : String :=
  "Usage: codeweave [--config PATH] [--root PATH] " ++
    "(index [--force] | search QUERY [-n LIMIT] [--depth DEPTH] | watch | stats | queue ACTION)"

def run (machine : Machine) (surroundings : Surroundings) (arguments : List String) :
    Machine × Output :=
  match CommandLine.parse arguments with
  | .error .version => (machine, { lines := [.text version] })
  | .error .misuse => (machine, { code := 2, error := some usage })
  | .ok request =>
      match request.run machine surroundings with
      | (machine, .ok lines) => (machine, { lines })
      | (machine, .error failure) =>
          (machine, { code := 1, error := some ("Error: " ++ failure.message) })

end Program

end CodeGraph
