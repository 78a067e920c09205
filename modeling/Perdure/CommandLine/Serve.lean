import Perdure.CommandLine.Run
import Perdure.Engine.Server

/-!
# Serving

What the command that serves does to the data folder, one look at a time: it deploys what appears,
lets the timers that are due go off, and stores what came of it.

## Main definitions

* `Serving` — a server and its data folder.
* `Serving.begin?` — reload the marked units and ask again for all timers.
* `Serving.tick` — one look.
-/

namespace Perdure

/-- A server and its data folder. -/
structure Serving where
  data : Path
  server : Server
  poller : Poller
  /-- Is the deploy folder still watched? -/
  watching : Bool := true
  files : FileTree

namespace Serving

/-- Rounds of deliveries in one look. -/
def rounds : Nat := 10000

/-- Store the records of the instances. -/
def save (s : Serving) : Serving :=
  { s with files := saveStore s.data s.server.host.store s.files }

/-- Reload the marked units and ask again for the timers of their instances. -/
def begin? (now : Instant) (place : String) (retry : RetryPolicy) (t : FileTree) :
    Option Serving := do
  let (disk, opened) := openPlace .archive place ⟨t, ()⟩
  let (data, store) ← opened.toOption
  let files := disk.files
  let engine ← reloaded data files {}
  let server : Server := { engine, host := { store }, timers := { now } }
  match server.perform engine.recover with
  | (.error _, _) => none
  | (.ok _, server) =>
    pure { data, server, files, poller := { watched := deployFolder data, retry } }

/-- One cycle of the poller; one that cannot look any more stops watching. -/
def poll (s : Serving) : Serving :=
  let (r, files, engine) :=
    s.poller.check (fun files folder e => e.deployFrom files folder) s.files s.server.engine
  match r with
  | .ok _ => { s with files, server := { s.server with engine } }
  | .error _ => { s with watching := false }

/-- One look, at the deploy folder too if it is time for that. -/
def tick (now : Instant) (polls : Bool) (s : Serving) : Serving :=
  let s := if polls && s.watching then s.poll else s
  let timers := s.server.timers.advance now (s.server.timers.now.nanosUntil now)
  save { s with server := Server.settle now rounds { s.server with timers } }

end Serving

end Perdure
