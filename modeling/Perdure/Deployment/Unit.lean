import Perdure.Definition.Json
import Perdure.Engine.Basic
import Perdure.Files.Tree

/-!
# Deployment units

A unit is a folder with process definitions, and with a table of renamed shapes if it needs one.

## Main definitions

* `DeploymentError` — why a unit cannot be deployed.
* `DeploymentUnit.load` — the definitions and the table of a unit.
* `Engine.deploy`, `Engine.deployFrom` — register the processes of a unit.
-/

namespace Perdure

/-- What is wrong with a file of a unit. -/
inductive FileFault where
  | definition (e : DefinitionError)
  /-- The file holds no table of renamed shapes. -/
  | remap
deriving DecidableEq, Repr

/-- Why a unit cannot be deployed. -/
inductive DeploymentError where
  /-- Something cannot be read or made. -/
  | io (path : Path)
  /-- The folder is no unit. -/
  | rejected (folder : Path) (reason : String)
  /-- A file is not what it should be. -/
  | failed (path : Path) (source : FileFault)
deriving DecidableEq, Repr

/-- The wording of an error; the source of an error has its own. -/
def DeploymentError.message : DeploymentError → String
  | .io path => s!"I/O error on '{path.text}'"
  | .rejected folder reason => s!"failed to deploy '{folder.text}': {reason}"
  | .failed path _ => s!"failed to deploy '{path.text}'"

/-- The processes of a deployment, and the renamed shapes of their stored states. -/
structure DeploymentUnit where
  definitions : List Definition
  remap : RemapTable
deriving DecidableEq

namespace DeploymentUnit

/-- How the names of files with definitions end. -/
def definitionSuffix : String := ".process.json"

/-- The name of the file with the table of renamed shapes. -/
def remapFile : String := "remap.json"

/-- The text of a file. -/
def text? (t : FileTree) (p : Path) : Except DeploymentError String :=
  match (t.read? p).bind fun bytes => String.fromUTF8? ⟨bytes.toArray⟩ with
  | some s => .ok s
  | none => .error (.io p)

/-- The definition in a file. -/
def definition (t : FileTree) (p : Path) : Except DeploymentError Definition := do
  (Definition.ofText (← text? t p)).mapError fun e => .failed p (.definition e)

/-- The table of renamed shapes of a folder; it is empty if there is no file for it. -/
def remapOf (t : FileTree) (folder : Path) : Except DeploymentError RemapTable := do
  let p := folder ++ [remapFile]
  match t.entry? p with
  | none => pure ∅
  | some _ => match (Json.readText? (← text? t p)).bind RemapTable.ofJson? with
    | some table => pure table
    | none => throw (.failed p .remap)

/-- The paths of the definitions in a folder, in the order of names. -/
def definitionPaths (t : FileTree) (folder : Path) : List Path :=
  (t.children folder).filterMap fun e =>
    if e.1.endsWith definitionSuffix then some (folder ++ [e.1]) else none

/-- The definitions and the table of a folder. -/
def load (t : FileTree) (folder : Path) : Except DeploymentError DeploymentUnit := do
  if !t.isFolder folder then throw (.io folder)
  let paths := definitionPaths t folder
  if paths.isEmpty then throw (.rejected folder s!"no {definitionSuffix} files")
  let definitions ← paths.mapM (definition t)
  let remap ← remapOf t folder
  pure ⟨definitions, remap⟩

end DeploymentUnit

/-- Register the processes of a unit. -/
def Engine.deploy (e : Engine) (u : DeploymentUnit) : Engine :=
  u.definitions.foldl (fun e d => e.register d u.remap) e

/-- Load a unit and register its processes; was it loaded? -/
def Engine.deployFrom (t : FileTree) (folder : Path) (e : Engine) : Bool × Engine :=
  match DeploymentUnit.load t folder with
  | .ok u => (true, e.deploy u)
  | .error _ => (false, e)

end Perdure
