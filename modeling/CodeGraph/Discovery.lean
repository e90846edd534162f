import CodeGraph.Digest.Blake3
import CodeGraph.Digest.Hex
import CodeGraph.Disk
import CodeGraph.FileEntry
import CodeGraph.Ignore
import CodeGraph.Language

/-!
Discovery of the files of a workspace: a walk that leaves out hidden and ignored entries, and the
inspection of single files.
-/

set_option autoImplicit false

namespace CodeGraph

structure Discovery where
  root : List String
  /-- Rules that keep what the walk leaves out. -/
  overrides : IgnoreRules
  /-- The ignore file of the root, as it was when the workspace was opened. -/
  rootRules : IgnoreRules
  /-- Larger files are recorded but not indexed. -/
  maxFileSize : Nat
deriving Repr, Inhabited

structure Discovered where
  entries : List FileEntry := []
  errors : List String := []
deriving Repr, Inhabited

namespace Discovery

def defaultIgnores : List String :=
  ["node_modules", "target", "dist", "build", "vendor"]

def rulesAt (disk : Disk) (path : List String) : IgnoreRules :=
  match disk.readBytes path with
  | .ok bytes => IgnoreRules.ofFile bytes
  | .error _ => []

def make (disk : Disk) (root : List String) (patterns : List String) (maxFileSize : Nat) :
    Except IndexError Discovery := do
  let overrides ← (IgnoreRules.ofPatterns (defaultIgnores ++ patterns)).mapError
    (fun bad => .discovery bad.message)
  return { root, overrides, rootRules := rulesAt disk (root ++ [".gitignore"]), maxFileSize }

def relative? (discovery : Discovery) (path : String) : Option String :=
  match Path.below? discovery.root (Path.components path) with
  | some [] | none => none
  | some parts => some (Path.ofParts parts)

def isHidden (name : String) : Bool :=
  name.startsWith "."

def starts (segments : List String) : List String :=
  (List.range segments.length).map (fun count => (segments.take (count + 1)).foldl Path.join "")

/-- Whether a change of a path does not matter: a segment is hidden, the path or a directory above
it matches a pattern, or the ignore file of the root says so. -/
def isIgnored (discovery : Discovery) (path : String) : Bool :=
  let segments := Path.segments path
  let matched := (starts segments).zipIdx.any (fun (start, index) =>
    discovery.overrides.verdict? start (decide (index + 1 < segments.length)) == some .kept)
  segments.any (fun segment => isHidden segment && segment != ".") || matched ||
    discovery.rootRules.verdictAbove? path == some .ignored

def ignoreFiles : List (List String) :=
  [[".ignore"], [".gitignore"], [".git", "info", "exclude"]]

/-- What the ignore files of one name say about an entry: the nearest directory above it comes
first. -/
def fileVerdict? (disk : Disk) (entry : Location) (isDirectory : Bool) (name : List String) :
    Option Verdict :=
  (List.range entry.length).reverse.findSome? (fun depth =>
    (rulesAt disk (entry.take depth ++ name)).verdict? (Path.ofParts (entry.drop depth)) isDirectory)

def skips (disk : Disk) (discovery : Discovery) (root : Location) (parts : List String)
    (isDirectory : Bool) : Bool :=
  match discovery.overrides.verdict? (Path.ofParts parts) isDirectory with
  | some verdict => verdict == .kept
  | none =>
      match ignoreFiles.findSome? (fileVerdict? disk (root ++ parts) isDirectory) with
      | some verdict => verdict == .ignored
      | none => (parts.getLast?.map isHidden).getD false

def reaches (disk : Disk) (discovery : Discovery) (root : Location) (parts : List String) : Bool :=
  (List.range parts.length).all (fun count =>
    !discovery.skips disk root (parts.take (count + 1)) (decide (count + 1 < parts.length)))

def isSpace (byte : UInt8) : Bool :=
  byte == 32 || byte == 9 || byte == 10 || byte == 12 || byte == 13

/-- What is to know about a file. `none` for a path outside the root or without a language. -/
def inspect (disk : Disk) (discovery : Discovery) (path : String) :
    Except IndexError (Option FileEntry) :=
  match discovery.relative? path, Language.ofPath? path with
  | some relative, some language =>
      match disk.lookup (Path.components path) with
      | .error error => .error (.discovery ("stat " ++ relative ++ ": " ++ error.message))
      | .ok found =>
          let entry : FileEntry :=
            { path := relative, available := false, size := found.size, hash := ""
              hashStatus := .skipped, language := some language.id }
          if found.size = 0 ∨ discovery.maxFileSize < found.size then .ok (some entry)
          else
            match found with
            | .directory | .file (.unreadable _) =>
                .ok (some { entry with hashStatus := .failed })
            | .file (.bytes bytes) =>
                if bytes.all isSpace then .ok (some entry)
                else
                  let hash := Digest.hex (Digest.blake3 bytes)
                  .ok (some { entry with hash, hashStatus := .computed, available := true })
  | _, _ => .ok none

def collect (found : Discovered) (path : String) :
    Except IndexError (Option FileEntry) → Discovered
  | .ok entry => { found with entries := found.entries ++ entry.toList }
  | .error error => { found with errors := found.errors ++ [path ++ ": " ++ error.message] }

def discover (disk : Disk) (discovery : Discovery) : Except IndexError Discovered :=
  match disk.locate discovery.root with
  | .ok (root, .directory) =>
      let parts := (disk.filesBelow root).filter (discovery.reaches disk root)
      let found := parts.foldl (fun found parts =>
        let path := Path.ofComponents (discovery.root ++ parts)
        collect found path (discovery.inspect disk path)) {}
      .ok { found with entries := found.entries.mergeSort (fun a b => decide (a.path ≤ b.path)) }
  | _ =>
      .error (.discovery
        ("workspace root " ++ Path.ofComponents discovery.root ++ " is not a directory"))

end Discovery

end CodeGraph
