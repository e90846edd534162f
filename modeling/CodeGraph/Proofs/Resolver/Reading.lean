import CodeGraph.Proofs.Disk

/-!
The loads of manifests and lockfiles, one look at the disk at a time, so that the disk may change
between two looks. A load that sees one disk all the time gives what the resolver loads at once.
-/

set_option autoImplicit false

namespace CodeGraph

inductive Reading (α : Type) where
  | done (value : α)
  | ask (path : List String) (next : Option FileContent → Reading α)

namespace Reading

variable {α : Type}

def run (disk : Disk) : Reading α → α
  | .done value => value
  | .ask path next => (next (disk.content? path)).run disk

def looks (disk : Disk) : Reading α → Nat
  | .done _ => 0
  | .ask path next => (next (disk.content? path)).looks disk + 1

/-- Whatever it sees, the reading looks at no other paths. -/
def Within (allowed : List String → Prop) : Reading α → Prop
  | .done _ => True
  | .ask path next => allowed path ∧ ∀ content, (next content).Within allowed

theorem run_congr {allowed : List String → Prop} {reading : Reading α}
    (within : reading.Within allowed) {disk disk' : Disk}
    (same : ∀ path, allowed path → disk.content? path = disk'.content? path) :
    reading.run disk = reading.run disk' := by
  induction reading with
  | done value => rfl
  | ask path next ih =>
      obtain ⟨inside, later⟩ := within
      rw [run, run, same path inside]
      exact ih _ (later _)

theorem Within.mono {allowed allowed' : List String → Prop}
    (wider : ∀ path, allowed path → allowed' path) {reading : Reading α}
    (within : reading.Within allowed) : reading.Within allowed' := by
  induction reading with
  | done value => trivial
  | ask path next ih => exact ⟨wider path within.1, fun content => ih _ (within.2 content)⟩

end Reading

namespace Manifest

def ofContent? (content : FileContent) : Option Manifest :=
  content.text?.bind (fun text => (parse text).toOption)

def reading : List (List String) → Reading (Option Manifest)
  | [] => .done none
  | directory :: above =>
      .ask (directory ++ [fileName]) fun
        | none => reading above
        | some _ => .ask (directory ++ [fileName]) fun content => .done (content.bind ofContent?)

theorem within_reading (directories : List (List String)) :
    (reading directories).Within
      (fun path => ∃ directory ∈ directories, path = directory ++ [fileName]) := by
  induction directories with
  | nil => trivial
  | cons directory above ih =>
      refine ⟨⟨directory, List.mem_cons_self .., rfl⟩, fun content => ?_⟩
      cases content with
      | none =>
          refine ih.mono ?_
          rintro path ⟨other, inside, rfl⟩
          exact ⟨other, List.mem_cons_of_mem _ inside, rfl⟩
      | some content => exact ⟨⟨directory, List.mem_cons_self .., rfl⟩, fun _ => trivial⟩

theorem run_reading (disk : Disk) (root start : List String) :
    (reading (climb root (Path.ancestors start))).run disk =
      Resolver.loadManifest disk root start := by
  rw [Disk.loadManifest_eq, nearestDirectory?]
  induction climb root (Path.ancestors start) with
  | nil => rfl
  | cons directory above ih =>
      rw [reading, Reading.run, List.find?_cons, Disk.isFile_eq]
      cases there : disk.content? (directory ++ [fileName]) with
      | none => exact ih
      | some content =>
          rw [Option.isSome_some, Option.bind_some, Disk.toOption_readManifest,
            Disk.toOption_readText]
          simp only [Reading.run, there, Option.bind_some, ofContent?]

end Manifest

namespace Lockfile

def ofContent? (name : String) (format : Format) (content : FileContent) : Option Lockfile :=
  content.text?.bind fun text =>
    (parse format text).toOption.map ({ · with fileName := name })

/-- Looks for the lockfiles one after the other, and passes over those of unknown format. -/
def reading (directory : List String) :
    List (String × Option Format) → Reading (Option Lockfile)
  | [] => .done none
  | (name, none) :: rest => .ask (directory ++ [name]) fun _ => reading directory rest
  | (name, some format) :: rest =>
      .ask (directory ++ [name]) fun
        | none => reading directory rest
        | some _ => .ask (directory ++ [name]) fun content =>
            .done (content.bind (ofContent? name format))

theorem within_reading (directory : List String) (entries : List (String × Option Format)) :
    (reading directory entries).Within
      (fun path => ∃ name ∈ entries.map Prod.fst, path = directory ++ [name]) := by
  induction entries with
  | nil => trivial
  | cons entry rest ih =>
      have later : (reading directory rest).Within
          (fun path => ∃ name ∈ (entry :: rest).map Prod.fst, path = directory ++ [name]) := by
        refine ih.mono ?_
        rintro path ⟨name, inside, rfl⟩
        exact ⟨name, List.mem_cons_of_mem _ inside, rfl⟩
      have first : ∃ name ∈ (entry :: rest).map Prod.fst,
          directory ++ [entry.1] = directory ++ [name] :=
        ⟨entry.1, List.mem_cons_self .., rfl⟩
      obtain ⟨name, format⟩ := entry
      cases format with
      | none => exact ⟨first, fun _ => later⟩
      | some format =>
          refine ⟨first, fun content => ?_⟩
          cases content with
          | none => exact later
          | some content => exact ⟨first, fun _ => trivial⟩

theorem run_reading (disk : Disk) (directory : List String) :
    (reading directory candidates).run disk = Resolver.loadLockfile disk directory := by
  rw [Resolver.loadLockfile, load]
  induction candidates with
  | nil => rfl
  | cons entry rest ih =>
      obtain ⟨name, format⟩ := entry
      cases format with
      | none => simpa [reading, Reading.run] using ih
      | some format =>
          rw [reading, Reading.run, List.find?_cons]
          simp only [Option.isSome_some, Bool.true_and, Disk.isFile_eq]
          cases there : disk.content? (directory ++ [name]) with
          | none => simpa [Disk.isFile_eq] using ih
          | some content =>
              have text := Disk.toOption_readText disk (directory ++ [name])
              rw [there, Option.bind_some] at text
              simp only [Reading.run, there, Option.bind_some, ofContent?, Option.isSome_some]
              rw [← text]
              cases disk.readText (directory ++ [name]) with
              | error error => rfl
              | ok text =>
                  simp only [Except.toOption, Option.bind_some, bind, Except.bind, pure,
                    Except.pure, Except.mapError]
                  cases parse format text <;> rfl

end Lockfile

end CodeGraph
