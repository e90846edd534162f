import CodeGraph.Disk
import CodeGraph.Error
import CodeGraph.Json.Reader
import CodeGraph.Json.Record

set_option autoImplicit false

namespace CodeGraph

structure Manifest where
  name : Option String := none
  version : Option String := none
  dependencies : List (String × String) := []
  devDependencies : List (String × String) := []
  peerDependencies : List (String × String) := []
  optionalDependencies : List (String × String) := []
deriving DecidableEq, Repr, Inhabited

namespace Manifest

def fileName : String := "package.json"

def groups (manifest : Manifest) : List (String × List (String × String)) :=
  [("dependencies", manifest.dependencies), ("devDependencies", manifest.devDependencies),
    ("peerDependencies", manifest.peerDependencies),
    ("optionalDependencies", manifest.optionalDependencies)]

def declaredRange? (manifest : Manifest) (name : String) : Option (String × String) :=
  manifest.groups.findSome? (fun (group, ranges) => (ranges.lookup name).map (group, ·))

def ofJson? (value : Json) : Option Manifest := do
  let fields ← value.record? [⟨"name", false⟩, ⟨"version", false⟩, ⟨"dependencies", true⟩,
    ⟨"devDependencies", true⟩, ⟨"peerDependencies", true⟩, ⟨"optionalDependencies", true⟩]
  match fields with
  | [name, version, dependencies, dev, peer, optional] =>
      return { name := ← Json.optionalText? name
               version := ← Json.optionalText? version
               dependencies := ← Json.map? Json.string? dependencies
               devDependencies := ← Json.map? Json.string? dev
               peerDependencies := ← Json.map? Json.string? peer
               optionalDependencies := ← Json.map? Json.string? optional }
  | _ => none

def parse (content : String) : Except IndexError Manifest :=
  match (Json.readWritten? content).bind ofJson? with
  | some manifest => .ok manifest
  | none => .error .json

def read (disk : Disk) (path : List String) : Except IndexError Manifest := do
  parse (← (disk.readText path).mapError (.unreadable ·.message))

def climb (ceiling : List String) : List (List String) → List (List String)
  | [] => []
  | directory :: above =>
      if directory = ceiling then [directory] else directory :: climb ceiling above

def nearestDirectory? (disk : Disk) (start ceiling : List String) : Option (List String) :=
  (climb ceiling (Path.ancestors start)).find? (fun directory =>
    disk.isFile (directory ++ [fileName]))

def installed? (disk : Disk) (start : List String) (name : String) :
    Option (List String × String) :=
  (Path.ancestors start).findSome? fun directory =>
    let package := if Path.isAbsolute name then Path.components name
      else directory ++ "node_modules" :: Path.parts name
    let path := package ++ [fileName]
    if disk.isFile path then
      match read disk path with
      | .ok manifest => manifest.version.map (path, ·)
      | .error _ => none
    else none

end Manifest

end CodeGraph
