import CodeGraph.Text

/-!
The command line. Arguments are read from left to right, one level of commands after the other, and
the first one that does not fit ends the reading.

A switch with a value is written `--name value` or `--name=value`, and with its letter `-n value`,
`-nvalue` or `-n=value`. A value in an argument of its own does not look like a switch. No switch is
given twice at one level. After `--` there are only words.
-/

set_option autoImplicit false

namespace CodeGraph

inductive QueueAction where
  | stats
  | retryFailed
  | clearCompleted
  | clearAll
deriving DecidableEq, Repr, Inhabited

inductive Command where
  | index (force : Bool)
  | search (query : String) (limit depth : Option Nat)
  | watch
  | stats
  | queue (action : QueueAction)
deriving DecidableEq, Repr, Inhabited

structure Request where
  config : Option String := none
  root : Option String := none
  command : Command
deriving DecidableEq, Repr, Inhabited

namespace CommandLine

inductive Stop where
  | version
  | misuse
deriving DecidableEq, Repr, Inhabited

inductive SwitchKind where
  | flag
  | path
  | number
  | version
deriving DecidableEq, Repr, Inhabited

namespace SwitchKind

def takesValue : SwitchKind → Bool
  | .path | .number => true
  | .flag | .version => false

def accepts : SwitchKind → String → Bool
  | .path, value => !value.isEmpty
  | .number, value => (Text.boundedNatural? 18446744073709551615 value.toList).isSome
  | .flag, _ | .version, _ => true

end SwitchKind

structure Switch where
  name : String
  letter : Option Char := none
  kind : SwitchKind
deriving DecidableEq, Repr, Inhabited

structure Level where
  switches : List Switch
  commands : List String := []
  words : Nat := 0
deriving DecidableEq, Repr, Inhabited

structure Given where
  switches : List (String × String) := []
  words : List String := []
deriving DecidableEq, Repr, Inhabited

namespace Given

def value? (given : Given) (name : String) : Option String :=
  given.switches.lookup name

def number? (given : Given) (name : String) : Option Nat :=
  (given.value? name).bind (fun value => Text.natural? value.toList)

def add (given : Given) (switch : Switch) (value : String) : Except Stop Given :=
  if (given.value? switch.name).isSome || !switch.kind.accepts value then .error .misuse
  else if switch.kind = .version then .error .version
  else .ok { given with switches := given.switches ++ [(switch.name, value)] }

def addWord (level : Level) (given : Given) (word : String) : Except Stop Given :=
  if given.words.length < level.words then .ok { given with words := given.words ++ [word] }
  else .error .misuse

end Given

inductive Shape where
  | word
  | long (name : String) (value : Option String)
  | letter (letter : Char) (rest : List Char)
deriving DecidableEq, Repr

def Shape.ofArgument (argument : String) : Shape :=
  match argument.toList with
  | '-' :: '-' :: text =>
      match text.dropWhile (· != '=') with
      | [] => .long (String.ofList text) none
      | _ :: value => .long (String.ofList (text.takeWhile (· != '='))) (some (String.ofList value))
  | '-' :: first :: rest => .letter first rest
  | _ => .word

def Level.switch? (level : Level) : Shape → Option (Switch × Option String)
  | .word => none
  | .long name value => (level.switches.find? (·.name == name)).map (·, value)
  | .letter letter rest => do
      let switch ← level.switches.find? (·.letter == some letter)
      match rest with
      | [] => return (switch, none)
      | '=' :: value => return (switch, some (String.ofList value))
      | value => return (switch, some (String.ofList value))

/-- Takes an attached value. The version is asked for whatever stands behind its letter. -/
def Given.attach (given : Given) (shape : Shape) (switch : Switch) (value : String) :
    Except Stop Given :=
  match shape, switch.kind with
  | .letter .., .version => .error .version
  | _, kind => if kind.takesValue then given.add switch value else .error .misuse

def read (level : Level) (given : Given) :
    List String → Except Stop (Given × Option (String × List String))
  | [] => .ok (given, none)
  | argument :: rest =>
      if argument == "--" then
        return (← rest.foldlM (Given.addWord level) given, none)
      else if level.commands.contains argument then .ok (given, some (argument, rest))
      else
        let shape := Shape.ofArgument argument
        match shape, level.switch? shape with
        | .word, _ => do read level (← given.addWord level argument) rest
        | _, none => .error .misuse
        | shape, some (switch, some value) => do
            read level (← given.attach shape switch value) rest
        | _, some (switch, none) =>
            if switch.kind.takesValue then
              match rest with
              | value :: rest =>
                  if Shape.ofArgument value = .word then do
                    read level (← given.add switch value) rest
                  else .error .misuse
              | [] => .error .misuse
            else do read level (← given.add switch "") rest

def shared : List Switch :=
  [{ name := "config", kind := .path }, { name := "root", kind := .path }]

def topLevel : Level :=
  { switches := shared ++ [{ name := "version", letter := some 'V', kind := .version }]
    commands := ["index", "search", "watch", "stats", "queue"] }

def indexLevel : Level :=
  { switches := shared ++ [{ name := "force", kind := .flag }] }

def searchLevel : Level :=
  { switches := shared ++ [{ name := "limit", letter := some 'n', kind := .number },
      { name := "depth", kind := .number }]
    words := 1 }

def plainLevel : Level :=
  { switches := shared }

def queueLevel : Level :=
  { switches := shared, commands := ["stats", "retry-failed", "clear-completed", "clear-all"] }

def queueAction? : String → Option QueueAction
  | "stats" => some .stats
  | "retry-failed" => some .retryFailed
  | "clear-completed" => some .clearCompleted
  | "clear-all" => some .clearAll
  | _ => none

/-- The deepest level at which a shared switch is given decides. -/
def request (levels : List Given) (command : Command) : Request :=
  { config := levels.findSome? (·.value? "config"), root := levels.findSome? (·.value? "root")
    command }

def last (level : Level) (arguments : List String) : Except Stop Given := do
  let (given, _) ← read level {} arguments
  return given

def parse (arguments : List String) : Except Stop Request := do
  let (top, command) ← read topLevel {} arguments
  match command with
  | some ("index", rest) =>
      let given ← last indexLevel rest
      return request [given, top] (.index (given.value? "force").isSome)
  | some ("search", rest) =>
      let given ← last searchLevel rest
      match given.words with
      | [query] =>
          return request [given, top] (.search query (given.number? "limit") (given.number? "depth"))
      | _ => throw .misuse
  | some ("watch", rest) => return request [← last plainLevel rest, top] .watch
  | some ("stats", rest) => return request [← last plainLevel rest, top] .stats
  | some ("queue", rest) =>
      let (given, action) ← read queueLevel {} rest
      let some (name, rest) := action | throw .misuse
      let some action := queueAction? name | throw .misuse
      return request [← last plainLevel rest, given, top] (.queue action)
  | _ => throw .misuse

end CommandLine

end CodeGraph
