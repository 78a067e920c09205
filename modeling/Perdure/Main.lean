import Perdure.CommandLine.Serve
import Std.Time.DateTime.Timestamp

/-!
# The program

Reads the data folder, lets a command work on it, and writes back what the command changed.
-/

namespace Perdure

namespace Main

/-- The time of the clock on the wall. -/
def now : IO Instant := do
  let t ← Std.Time.Timestamp.now
  pure ⟨t.val.second.val, t.val.nano.val.toNat⟩

/-- A name for a new instance: random bits, marked as such. -/
def freshId : IO InstanceId := do
  let bytes ← IO.getRandomBytes 16
  let n := bytes.toList.foldl (fun n b => 256 * n + b.toNat) 0
  let id : InstanceId := BitVec.ofNat 128 n
  let version := (id &&& ~~~(BitVec.ofNat 128 (15 <<< 76))) ||| BitVec.ofNat 128 (4 <<< 76)
  pure ((version &&& ~~~(BitVec.ofNat 128 (3 <<< 62))) ||| BitVec.ofNat 128 (2 <<< 62))

/-- Where a path lies on the disk. -/
def onDisk (p : Path) : String := "/" ++ p.text

/-- Read what stands at a path, and what lies up to `depth` folders below it, into a file tree. -/
def readFiles (depth : Nat) (p : Path) (t : FileTree) : IO FileTree := do
  let here := (← IO.currentDir) / onDisk p
  if ← here.isDir then
    let t := t.insert p .folder
    match depth with
    | 0 => pure t
    | depth + 1 =>
      (← here.readDir).foldlM (fun t entry => readFiles depth (p ++ [entry.fileName]) t) t
  else if ← here.pathExists then
    pure (t.insert p (.file (← IO.FS.readBinFile here).toList))
  else pure t

/-- Read what stands at the stations of a route. -/
def readRoute (here : Path) : Route → FileTree → IO FileTree
  | [], t => pure t
  | step :: rest, t => do readRoute (step.next here) rest (← readFiles 0 (step.next here) t)

/-- Read what a command can look at: the way to the data folder, its store, and the units. -/
def readPlace (place : String) : IO FileTree := do
  let route := Route.ofText place
  let data := route.target
  let t ← readRoute [] route ∅
  let t ← (storeFile data :: sideFiles data).foldlM (fun t p => readFiles 0 p t) t
  readFiles 2 (deployFolder data) t

/-- Write what differs between two file trees. -/
def writeFiles (before after : FileTree) : IO Unit := do
  let cwd ← IO.currentDir
  for (p, entry) in after.entries do
    if before.entry? p ≠ some entry then
      match entry with
      | .folder => IO.FS.createDirAll (cwd / onDisk p)
      | .file bytes => IO.FS.writeBinFile (cwd / onDisk p) ⟨bytes.toArray⟩
  for (p, entry) in before.entries do
    if (after.entry? p).isNone && entry != .folder then IO.FS.removeFile (cwd / onDisk p)

/-- Tell what a command came to. -/
def tell (r : Report) : IO UInt32 := do
  if !r.complaint.isEmpty then IO.eprintln s!"Error: {r.complaint}"
  IO.print r.output
  pure r.code.toUInt32

/-- Look at the data folder again and again. -/
partial def serve (place : String) (pollMillis lastPoll : Nat) (s : Serving) : IO UInt32 := do
  let polls := lastPoll + pollMillis ≤ (← IO.monoMsNow)
  let lastPoll ← if polls then IO.monoMsNow else pure lastPoll
  let files ← if polls then readPlace place else pure s.files
  let s := Serving.tick (← now) polls { s with files }
  writeFiles files s.files
  IO.sleep (min pollMillis 100).toUInt32
  serve place pollMillis lastPoll s

/-- Run a command on the data folder at a place, written from the top. -/
def run (place : String) (command : Command) : IO UInt32 := do
  let files ← readPlace place
  match command, command.run? (← now) (← freshId) place files with
  | _, some (r, after) =>
    writeFiles files after
    tell r
  | .serve pollMillis _ retryFailed, none =>
    let retry := if retryFailed then .nextCycle else .never
    match Serving.begin? (← now) place retry files with
    | none => tell (.failure "failed to open the data folder")
    | some s => do
      writeFiles files s.files
      serve place pollMillis 0 s
  | _, none => pure 1

/-- A place as it is written from the top. -/
def fromTop (place : String) : IO String := do
  if place.startsWith "/" then pure place else pure s!"{← IO.currentDir}/{place}"

/-- The data folder unless another is given. -/
def defaultFolder : IO (Option String) := do
  pure ((← IO.getEnv "HOME").map (· ++ "/.tidewater"))

end Main

end Perdure

open Perdure in
/-- Do what the arguments ask for. -/
def main (arguments : List String) : IO UInt32 := do
  match Asked.ofArguments arguments with
  | .error e => Main.tell e.report
  | .ok asked => match asked.report?, asked with
    | some r, _ => Main.tell r
    | none, .run ⟨folder, some command⟩ =>
      match ← (match folder with
        | some folder => pure (some folder)
        | none => Main.defaultFolder) with
      | some place => do Main.run (← Main.fromTop place) command
      | none => Main.tell (.failure "could not determine home directory")
    | none, _ => pure 0
