import CodeGraph.Database.Stored
import CodeGraph.Program

/-!
The command. It reads the files that a run needs from disk, runs the program on them, and writes
back the databases that the run leaves.
-/

set_option autoImplicit false

namespace CodeGraph.Shell

def databaseMark : String := "codeweave database\n"

def database? (content : List UInt8) : Option Database := do
  let text ← Text.ofBytes? content
  if text.startsWith databaseMark then
    Database.ofJson? (← Json.read? (String.ofList (text.toList.drop databaseMark.length)))
  else none

def addFile (machine : Machine) (location : Location) (content : List UInt8) : Machine :=
  match database? content with
  | some database =>
      { disk := machine.disk.write location []
        databases := Table.put Prod.fst (location, database) machine.databases }
  | none => { machine with disk := machine.disk.write location content }

def pathOf (location : Location) : String :=
  Path.ofComponents ("/" :: location)

/-- Reads what is at a location into a machine. Links and what cannot be read are passed over. -/
partial def read (machine : Machine) (location : Location) : IO Machine := do
  let place := (← IO.currentDir) / pathOf location
  try
    match (← place.symlinkMetadata).type with
    | .dir =>
        let machine := { machine with disk := machine.disk.makeDirectory location }
        (← place.readDir).foldlM (fun machine entry => read machine (location ++ [entry.fileName]))
          machine
    | .file =>
        let content ← IO.FS.readBinFile (pathOf location)
        return addFile machine location content.data.toList
    | _ => return machine
  catch _ => return machine

def locate (path : String) : IO (Option Location) := do
  try
    let real ← IO.FS.realPath path
    return some (Path.components real.toString).tail
  catch _ => return none

def readPath (machine : Machine) (path : String) : IO Machine := do
  match ← locate path with
  | some location => read machine location
  | none => return machine

def surroundings : IO Surroundings := do
  let mut environment : Config.Environment := []
  for name in Config.variableNames do
    if let some value ← IO.getEnv name then
      environment := environment ++ [(name, value)]
  return { directory := (← IO.currentDir).toString, environment }

def machineFor (surroundings : Surroundings) (request : Request) : IO Machine := do
  let machine := { disk := Disk.makeDirectory {} (Path.components surroundings.directory).tail }
  let machine ← readPath machine
    (Path.join surroundings.directory (request.configPath surroundings))
  match request.settings machine.disk surroundings with
  | .error _ => return machine
  | .ok config =>
      let root := config.workspaceRoot surroundings.directory
      readPath (← readPath machine root) (config.databasePath root)

def save (machine : Machine) : IO Unit := do
  for (location, database) in machine.databases do
    IO.FS.createDirAll (pathOf location.dropLast)
    IO.FS.writeFile (pathOf location) (databaseMark ++ database.toJson.render)

def runOnce (surroundings : Surroundings) (arguments : List String) : IO Output := do
  let machine ← match CommandLine.parse arguments with
    | .ok request => machineFor surroundings request
    | .error _ => pure {}
  let (machine, output) := Program.run machine surroundings arguments
  save machine
  return output

partial def keepCurrent (surroundings : Surroundings) (arguments : List String) : IO Unit := do
  IO.sleep 1000
  let _ ← runOnce surroundings arguments
  keepCurrent surroundings arguments

end CodeGraph.Shell

open CodeGraph in
def main (arguments : List String) : IO UInt32 := do
  let surroundings ← Shell.surroundings
  let start ← IO.monoMsNow
  let output ← Shell.runOnce surroundings arguments
  let duration := (← IO.monoMsNow) - start
  for line in output.lines do
    IO.println (line.render (toString duration))
  if let some error := output.error then
    IO.eprintln error
  if let .ok { command := .watch, .. } := CommandLine.parse arguments then
    if output.code == 0 then
      Shell.keepCurrent surroundings arguments
  return output.code.toUInt32
