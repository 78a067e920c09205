import Perdure.CommandLine.DataFolder
import Perdure.CommandLine.Help
import Perdure.Deployment.Poller
import Perdure.Engine.Migration

/-!
# Commands

What the commands do to the data folder, whatever database keeps its store.  A command works on the
units that a marker tells are deployed.

## Main definitions

* `Report` — the exit code and the output of a command.
* `reloaded` — an engine with the marked units.
* `startCommand`, `migrateCommand` — the commands that come to an end.
* `Command.run?` — the same with the database that the program comes with.
* `Asked.report?` — what asks for no data folder.
-/

namespace Perdure

/-- What a command comes to. -/
structure Report where
  /-- Zero for success. -/
  code : Nat
  output : String := ""
  /-- What is told beside the output. -/
  complaint : String := ""
deriving DecidableEq, Repr

/-- A failed command. -/
def Report.failure (complaint : String) : Report := { code := 1, complaint }

/-! ### The marked units -/

/-- An engine with the processes of the marked units; units that cannot be loaded are left out. -/
def reloaded (data : Path) (t : FileTree) (e : Engine) : Option Engine := do
  let units ← markedUnits t (deployFolder data)
  pure (units.foldl (fun e folder => (e.deployFrom t folder).2) e)

/-- The processes of the marked units with their tables of renamed shapes, and the number of units
that cannot be loaded. -/
def markedProcesses (data : Path) (t : FileTree) : Option (List (String × RemapTable) × Nat) := do
  let units ← markedUnits t (deployFolder data)
  pure (units.foldl (fun (found, failed) folder => match DeploymentUnit.load t folder with
    | .ok u => (found ++ u.definitions.map fun d => (d.processId, u.remap), failed)
    | .error _ => (found, failed + 1)) ([], 0))

/-! ### The commands -/

section

variable {σ : Type} (db : Database σ)

/-- Start an instance under a new name and tell its name and status. -/
def startCommand (now : Instant) (id : InstanceId) (place processId : String) (disk : Disk σ) :
    Report × Disk σ :=
  match openPlace db place disk with
  | (disk, .error _) => (.failure "failed to open the store", disk)
  | (disk, .ok (data, store)) => match reloaded data disk.files {} with
    | none => (.failure "failed to read the deploy folder", disk)
    | some e =>
      let (r, host) := (e.start now id now processId).perform { store }
      let disk := db.saving data host.store disk
      match r with
      | .error e => (.failure s!"failed to start process '{processId}': {e.message}", disk)
      | .ok status => ({ code := 0, output := s!"{id.text} {status.title}\n" }, disk)

/-- Bring the stored states of all marked processes up to date. -/
def migrateCommand (place : String) (disk : Disk σ) : Report × Disk σ :=
  match openPlace db place disk with
  | (disk, .error _) => (.failure "failed to open the store", disk)
  | (disk, .ok (data, store)) => match markedProcesses data disk.files with
    | none => (.failure "failed to read the deploy folder", disk)
    | some (processes, failed) =>
      let (good, host) := Migration.run processes { store }
      let disk := db.saving data host.store disk
      if failed ≠ 0 then
        (.failure s!"migration '{Migration.name}' skipped {failed} deployment(s) that failed to load",
          disk)
      else if !good then (.failure s!"migration '{Migration.name}' finished with errors", disk)
      else ({ code := 0 }, disk)

end

/-- Run a command on the data folder at a place, unless it is one that does not come to an end. -/
def Command.run? (now : Instant) (id : InstanceId) (place : String) (t : FileTree) :
    Command → Option (Report × FileTree)
  | .serve .. => none
  | .start processId =>
    let (report, disk) := startCommand .archive now id place processId ⟨t, ()⟩
    some (report, disk.files)
  | .migrate =>
    let (report, disk) := migrateCommand .archive place ⟨t, ()⟩
    some (report, disk.files)

/-! ### Answers without a data folder -/

/-- Lines of text. -/
def linesText (lines : List String) : String := String.join (lines.map (· ++ "\n"))

/-- The name and version of the program. -/
def versionText : String := linesText ["tidewater 0.0.1-alpha.0"]

/-- What is said when no command is given. -/
def hintText : String := linesText ["tidewater - use --help to see available commands"]

/-- A failed reading of the arguments. -/
def UsageError.report (e : UsageError) : Report := { code := 2, complaint := e.message }

/-- The report on what asks for no data folder. -/
def Asked.report? : Asked → Option Report
  | .version => some { code := 0, output := versionText }
  | .help topic full => some { code := 0, output := linesText (topic.page full).lines }
  | .run ⟨_, none⟩ => some { code := 0, output := hintText }
  | .run ⟨_, some _⟩ => none

end Perdure
