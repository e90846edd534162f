import CodeGraph.Program
import CodeGraph.Proofs.Disk
import CodeGraph.Proofs.TaskTable.Readable

/-!
What the requests that only show numbers do to the databases of a machine.

Such a request opens its database like every other one, and opening lets every task wait again that
was being processed. That is all it does to the rows of any database.
-/

set_option autoImplicit false

namespace CodeGraph

theorem TaskTable.recover_eq_self_iff {table : TaskTable} :
    table.recover = table ↔ table.processing = [] := by
  constructor
  · intro same
    rw [← same]
    exact table.processing_recover
  · intro free
    rw [TaskTable.processing, List.map_eq_nil_iff, List.filter_eq_nil_iff] at free
    have rows : table.recover.rows = table.rows := by
      refine (List.map_congr_left fun row inside => ?_).trans (List.map_id _)
      exact if_neg (free row inside)
    exact congrArg (TaskTable.mk · table.nextId) rows

namespace Database

def withTables (database : Database) : Database :=
  { database with graph := database.graph.createTables }

def requeued (database : Database) : Database :=
  { database with tasks := database.tasks.recover }

theorem requeued_withTables_eq_iff {database : Database} :
    database.withTables.requeued = database.withTables ↔ database.tasks.processing = [] := by
  rw [← TaskTable.recover_eq_self_iff]
  constructor
  · intro same
    exact congrArg Database.tasks same
  · intro same
    exact congrArg (Database.mk database.graph.createTables database.files) same

end Database

namespace Machine

variable {machine opened : Machine} {location other : Location}

def held (machine : Machine) (location : Location) : Database :=
  if machine.disk.fileAt? location = some (.bytes []) then
    (machine.databaseAt? location).getD {}
  else {}

theorem databaseAt?_of_put {after : Machine} {database : Database}
    (written : after.databases = Table.put Prod.fst (location, database) machine.databases) :
    after.databaseAt? other =
      if other = location then some database else machine.databaseAt? other := by
  rw [databaseAt?, written]
  split
  next same =>
    rw [same, Table.get?_put_self Prod.fst (location, database)]
    rfl
  next differ =>
    rw [Table.get?_put_of_ne Prod.fst _ _ _ (Ne.symm differ)]
    rfl

structure Opens (machine opened : Machine) (location : Location) : Prop where
  file : opened.disk.fileAt? location = some (.bytes [])
  keeps : ∀ other, opened.held other = machine.held other

theorem opens_fresh {disk : Disk}
    (files : ∀ place, disk.fileAt? place = machine.disk.fileAt? place)
    (solid : location ≠ []) (empty : machine.held location = {}) :
    machine.Opens
      { machine with
        disk := disk.write location []
        databases := Table.put Prod.fst (location, {}) machine.databases } location where
  file := by rw [Disk.write, Disk.fileAt?_put solid, if_pos rfl]
  keeps other := by
    rw [held, Disk.write, Disk.fileAt?_put solid, files, databaseAt?_of_put rfl]
    by_cases same : other = location
    · rw [if_pos same, if_pos same, if_pos rfl, same, empty]
      rfl
    · rw [if_neg same, if_neg same]
      rfl

theorem opens_of_connect? {path : String} {place : DatabasePlace}
    (connected : machine.connect? path = some (opened, place)) :
    place = .memory ∧ opened = machine ∨
      ∃ location, place = .file location ∧ machine.Opens opened location := by
  simp only [connect?, Option.bind_eq_bind, Option.pure_def] at connected
  -- The file may be missing, blank or a database; anything else is no database to open.
  split at connected
  next =>
    cases connected
    exact .inl ⟨rfl, rfl⟩
  next =>
    simp only [Option.bind_eq_some_iff] at connected
    obtain ⟨⟨disk, directory⟩, entered, name, -, connected⟩ := connected
    have files : ∀ place, disk.fileAt? place = machine.disk.fileAt? place := fun _ =>
      Disk.fileAt?_enterDirectory? entered
    have solid : directory ++ [name] ≠ [] := by simp
    refine .inr ⟨directory ++ [name], ?_⟩
    split at connected
    next => cases connected
    next missing =>
      cases connected
      refine ⟨rfl, opens_fresh files solid (if_neg ?_)⟩
      rw [← files, Disk.fileAt?, missing]
      simp
    next content present =>
      split at connected
      next => cases connected
      next blank =>
        have nothing : content = .bytes [] := by simpa using blank
        have file : disk.fileAt? (directory ++ [name]) = some (.bytes []) := by
          rw [Disk.fileAt?, present, nothing]
          rfl
        split at connected
        next =>
          cases connected
          refine ⟨rfl, file, fun other => ?_⟩
          rw [held, files]
          rfl
        next unknown =>
          cases connected
          refine ⟨rfl, opens_fresh files solid ?_⟩
          have missing : machine.databaseAt? (directory ++ [name]) = none := by simpa using unknown
          rw [held, ← files, if_pos file, missing]
          rfl

theorem Opens.load (opens : machine.Opens opened location) :
    opened.load (.file location) = machine.held location := by
  rw [← opens.keeps, held, if_pos opens.file]
  rfl

theorem Opens.held_save (opens : machine.Opens opened location) (database : Database) :
    (opened.save database (.file location)).held other =
      if other = location then database else machine.held other := by
  have stored : (opened.save database (.file location)).databaseAt? other =
      if other = location then some database else opened.databaseAt? other :=
    databaseAt?_of_put rfl
  rw [← opens.keeps, held, stored]
  by_cases same : other = location
  · rw [if_pos same, if_pos same, same]
    exact if_pos opens.file
  · rw [if_neg same, if_neg same]
    rfl

theorem save_save (database : Database) (place : DatabasePlace) :
    (machine.save database place).save database place = machine.save database place := by
  cases place with
  | memory => rfl
  | file location =>
      simp only [save]
      rw [Table.put_of_present
        (Table.get?_put_self Prod.fst (location, database) machine.databases)]

end Machine

/-- Without vectors an opened database has its tables and no task in processing, also if there is no
workspace in the end, and the workspace is what the database says. -/
theorem Workspace.openAt_without_vectors {machine opened : Machine} {config : Config}
    {root : List String} {place : DatabasePlace}
    (connected : machine.connect? (config.databasePath (Path.ofComponents root)) =
      some (opened, place)) :
    ∃ answer,
      Workspace.openAt machine config root false =
        (opened.save (opened.load place).withTables.requeued place, answer) ∧
      ∀ workspace place', answer = .ok (workspace, place') →
        workspace.database = (opened.load place).withTables.requeued ∧ place' = place := by
  simp only [openAt, connected, Bool.false_and, openIndex, Bool.false_eq_true, if_false, pure,
    Except.pure]
  split
  next => exact ⟨_, rfl, by simp⟩
  next =>
    refine ⟨_, rfl, ?_⟩
    rintro workspace place' same
    cases same
    exact ⟨rfl, rfl⟩

namespace Request

def opened? (request : Request) (machine : Machine) (surroundings : Surroundings) :
    Option Location := do
  let config ← (request.settings machine.disk surroundings).toOption
  let root ← (config.locateRoot machine.disk surroundings).toOption
  match ← machine.connect? (config.databasePath (Path.ofComponents root)) with
  | (_, .file location) => some location
  | (_, .memory) => none

variable {request : Request} {machine : Machine} {surroundings : Surroundings}

theorem run_of_settings (shows : request.command = .stats ∨ request.command = .queue .stats)
    {config : Config} {root : List String}
    (set : request.settings machine.disk surroundings = .ok config)
    (located : config.locateRoot machine.disk surroundings = .ok root) :
    (request.run machine surroundings).1 =
      match Workspace.openAt machine config root false with
      | (machine, .error _) => machine
      | (machine, .ok (workspace, place)) => workspace.close machine place := by
  obtain ⟨_, _, command⟩ := request
  obtain rfl | rfl : command = .stats ∨ command = .queue .stats := shows
  all_goals
    simp only [run, set, located, bind, Except.bind, pure, Except.pure, Command.needsVectors]
    cases Workspace.openAt machine config root false with
    | mk machine answer => cases answer <;> rfl

/-- Closing writes what opening wrote, so it does not matter whether it comes to that. -/
theorem run_of_connect? (shows : request.command = .stats ∨ request.command = .queue .stats)
    {config : Config} {root : List String} {opened : Machine} {place : DatabasePlace}
    (set : request.settings machine.disk surroundings = .ok config)
    (located : config.locateRoot machine.disk surroundings = .ok root)
    (connected : machine.connect? (config.databasePath (Path.ofComponents root)) =
      some (opened, place)) :
    (request.run machine surroundings).1 =
      opened.save (opened.load place).withTables.requeued place := by
  obtain ⟨answer, opening, agrees⟩ := Workspace.openAt_without_vectors connected
  rw [run_of_settings shows set located, opening]
  cases answer with
  | error error => rfl
  | ok result =>
      obtain ⟨workspace, place'⟩ := result
      obtain ⟨same, rfl⟩ := agrees workspace place' rfl
      simp only [Workspace.close, same, Machine.save_save]

theorem run_cases (shows : request.command = .stats ∨ request.command = .queue .stats)
    (machine : Machine) (surroundings : Surroundings) :
    request.opened? machine surroundings = none ∧ (request.run machine surroundings).1 = machine ∨
      ∃ location opened, request.opened? machine surroundings = some location ∧
        machine.Opens opened location ∧
        (request.run machine surroundings).1 =
          opened.save (machine.held location).withTables.requeued (.file location) := by
  cases set : request.settings machine.disk surroundings with
  | error failure =>
      refine .inl ⟨?_, ?_⟩
      · simp [opened?, set, Except.toOption]
      · simp only [run, set, bind, Except.bind]
  | ok config =>
      cases located : config.locateRoot machine.disk surroundings with
      | error failure =>
          refine .inl ⟨?_, ?_⟩
          · simp [opened?, set, located, Except.toOption]
          · simp only [run, set, located, bind, Except.bind]
      | ok root =>
          simp only [opened?, set, located, Except.toOption, Option.bind_eq_bind,
            Option.bind_some]
          cases connected :
              machine.connect? (config.databasePath (Path.ofComponents root)) with
          | none =>
              refine .inl ⟨rfl, ?_⟩
              rw [run_of_settings shows set located]
              simp only [Workspace.openAt, connected]
          | some found =>
              obtain ⟨opened, place⟩ := found
              rw [run_of_connect? shows set located connected]
              obtain ⟨rfl, rfl⟩ | ⟨location, rfl, opens⟩ := Machine.opens_of_connect? connected
              · exact .inl ⟨rfl, rfl⟩
              · exact .inr ⟨location, opened, rfl, opens, by rw [opens.load]⟩

theorem held_run (shows : request.command = .stats ∨ request.command = .queue .stats)
    (machine : Machine) (surroundings : Surroundings) (location : Location) :
    ((request.run machine surroundings).1.held location).withTables =
      if request.opened? machine surroundings = some location then
        (machine.held location).withTables.requeued
      else (machine.held location).withTables := by
  obtain ⟨nowhere, same⟩ | ⟨target, opened, found, opens, written⟩ :=
    run_cases shows machine surroundings
  · rw [same, nowhere, if_neg nofun]
  · rw [written, opens.held_save, found]
    by_cases here : location = target
    · rw [if_pos here, if_pos (by rw [here]), here]
      rfl
    · rw [if_neg here, if_neg fun same => here (Option.some.inj same).symm]

end Request

namespace Program

/-- A command line that asks for numbers keeps the rows of every database if and only if no task of
the database that it opens is being processed. Such tasks wait again afterwards, and every other row
stays in any case. -/
theorem numbers_keep_rows_iff {arguments : List String} {request : Request}
    (parsed : CommandLine.parse arguments = .ok request)
    (shows : request.command = .stats ∨ request.command = .queue .stats)
    (machine : Machine) (surroundings : Surroundings) :
    let after := (Program.run machine surroundings arguments).1
    let opened := request.opened? machine surroundings
    (∀ location, (after.held location).withTables =
      if opened = some location then (machine.held location).withTables.requeued
      else (machine.held location).withTables) ∧
    ((∀ location, (after.held location).withTables = (machine.held location).withTables) ↔
      ∀ location, opened = some location → (machine.held location).tasks.processing = []) := by
  intro after opened
  have ran : after = (request.run machine surroundings).1 := by
    simp only [after, run, parsed]
    cases request.run machine surroundings with
    | mk machine answer => cases answer <;> rfl
  have rows := Request.held_run shows machine surroundings
  rw [← ran] at rows
  refine ⟨rows, ?_⟩
  constructor
  · intro kept location here
    have same := (rows location).symm.trans (kept location)
    rw [if_pos here] at same
    exact Database.requeued_withTables_eq_iff.mp same
  · intro free location
    rw [rows]
    split
    next here => exact Database.requeued_withTables_eq_iff.mpr (free location here)
    next => rfl

def busyMachine : Machine :=
  { disk := ⟨[(["w"], .directory), (["w", ".codeweave"], .directory),
      (["w", ".codeweave", "codeweave.db"], .file (.bytes []))]⟩
    databases := [(["w", ".codeweave", "codeweave.db"],
      { tasks :=
          { rows := [{ id := 0, path := "a.js", name := "a.js", size := 20, hash := "h"
                       status := TaskStatus.processing.name, maxRetries := 3 }]
            nextId := 1 } })] }

theorem running_task_waits_again :
    (busyMachine.held ["w", ".codeweave", "codeweave.db"]).tasks.rows.map TaskRow.status =
        ["processing"] ∧
      ((Program.run busyMachine ⟨"/w", []⟩ ["stats"]).1.held
        ["w", ".codeweave", "codeweave.db"]).tasks.rows.map TaskRow.status = ["pending"] := by
  have parsed : CommandLine.parse ["stats"] = .ok { command := .stats } := by decide +kernel
  have opened : Request.opened? { command := .stats } busyMachine ⟨"/w", []⟩ =
      some ["w", ".codeweave", "codeweave.db"] := by decide +kernel
  have rows := (numbers_keep_rows_iff parsed (.inl rfl) busyMachine ⟨"/w", []⟩).1
    ["w", ".codeweave", "codeweave.db"]
  rw [if_pos opened] at rows
  refine ⟨by decide, ?_⟩
  have tasks := congrArg (fun database => database.tasks.rows.map TaskRow.status) rows
  exact tasks.trans (by decide)

end Program

end CodeGraph
