import Perdure.Deployment.Unit
import Perdure.Files.Route

/-!
# The deployment poller

A folder is watched for units.  A unit is a subfolder with one descriptor; it is deployed once, and
a marker file beside it tells that it was.  A marker that lost its folder is reported.

## Main definitions

* `Poller` — what is watched, and whether a failed unit is tried again.
* `CycleReport` — what one cycle came to.
* `Poller.check` — one cycle.
* `markedUnits` — the units that a marker tells are deployed.
-/

namespace Perdure

/-- What happens to the marker of a unit that failed. -/
inductive RetryPolicy where
  /-- It stays, and the unit is not deployed again. -/
  | never
  /-- It is removed, and the next cycle tries again. -/
  | nextCycle
deriving DecidableEq, Repr

/-- What one cycle came to: the names of the folders it handled. -/
structure CycleReport where
  deployed : List String := []
  failed : List String := []
  /-- Folders that are no units. -/
  skipped : List String := []
  /-- Markers without a folder. -/
  removed : List String := []
deriving DecidableEq, Repr

/-- Was there nothing to report? -/
def CycleReport.isEmpty (r : CycleReport) : Bool :=
  r.deployed.isEmpty && r.failed.isEmpty && r.skipped.isEmpty && r.removed.isEmpty

/-- The descriptor of a unit, in lower case. -/
def descriptor : String := "deploy.xml"

/-- Does a folder hold one file that is named as a descriptor, in any case? -/
def hasDescriptor (t : FileTree) (folder : Path) : Bool :=
  ((t.children folder).filter fun e =>
    e.1.map Char.toLower = descriptor && e.2 != .folder).length = 1

/-- How the names of markers end. -/
def markerSuffix : String := ".deployed"

/-- The name of the marker of a folder. -/
def markerOf (name : String) : String := name ++ markerSuffix

/-- The folder that a marker is for. -/
def ofMarker? (fileName : String) : Option String :=
  if fileName.endsWith markerSuffix then
    some (String.ofList (fileName.toList.take (fileName.length - markerSuffix.length)))
  else none

/-- The folders in the watched folder. -/
def unitFolders (t : FileTree) (watched : Path) : List String :=
  (t.children watched).filterMap fun e => if e.2 = .folder then some e.1 else none

/-- The folders that markers in the watched folder are for, in the order of names. -/
def markedNames (t : FileTree) (watched : Path) : List String :=
  ((t.children watched).filterMap fun e =>
    if e.2 = .folder then none else ofMarker? e.1).mergeSort (· ≤ ·)

/-- The units that a marker tells are deployed; `none` if the watched folder is a file. -/
def markedUnits (t : FileTree) (watched : Path) : Option (List Path) :=
  match t.entry? watched with
  | some (.file _) => none
  | _ => some ((unitFolders t watched).filterMap fun name =>
    if t.isFile (watched ++ [markerOf name]) then some (watched ++ [name]) else none)

/-- What is watched, and whether a failed unit is tried again. -/
structure Poller where
  watched : Path
  retry : RetryPolicy := .never
deriving DecidableEq, Repr

/-- A cycle under way: the files, what deploying changes, and the report so far. -/
structure Cycle (σ : Type) where
  files : FileTree
  state : σ
  report : CycleReport := {}

namespace Poller

variable {σ : Type}

/-- Look after one folder: deploy it, unless it is no unit or has a marker. -/
def visit (p : Poller) (deploy : FileTree → Path → σ → Bool × σ) (c : Cycle σ) (name : String) :
    Cycle σ :=
  let folder := p.watched ++ [name]
  if !hasDescriptor c.files folder then
    { c with report := { c.report with skipped := c.report.skipped ++ [name] } }
  else match c.files.create p.watched (markerOf name) with
    | .present => c
    | .refused => { c with report := { c.report with failed := c.report.failed ++ [name] } }
    | .created files =>
      let (good, state) := deploy files folder c.state
      if good then
        { files, state, report := { c.report with deployed := c.report.deployed ++ [name] } }
      else
        { files := match p.retry with
            | .never => files
            | .nextCycle => files.remove (p.watched ++ [markerOf name])
          state
          report := { c.report with failed := c.report.failed ++ [name] } }

/-- One cycle: look after the folders in the order of names, then report markers that lost theirs.
The watched folder is made if it is missing. -/
def check (p : Poller) (deploy : FileTree → Path → σ → Bool × σ) (files : FileTree) (state : σ) :
    Except DeploymentError CycleReport × FileTree × σ :=
  match files.makeFolders? p.watched with
  | none => (.error (.io p.watched), files, state)
  | some files =>
    let folders := unitFolders files p.watched
    let markers := markedNames files p.watched
    let c := folders.foldl (p.visit deploy) { files, state }
    let removed := markers.filter fun name => !folders.contains name
    (.ok { c.report with removed }, c.files, c.state)

end Poller

end Perdure
