import Perdure.Engine.Basic
import Perdure.Engine.Timers

/-!
# The server

A server couples an engine with a timer service: what the engine asks for goes to the service, and
the events of the service are delivered to the instances, until the server is stopped.

## Main definitions

* `Server` — an engine, its host and a timer service.
* `Server.perform` — an operation of the engine.
* `Server.settle` — deliver events until there are no more.
* `Server.stop` — stop delivering.
-/

namespace Perdure

/-- An engine, its host and a timer service. -/
structure Server where
  engine : Engine
  host : Host := {}
  timers : TimerService
  /-- Are events delivered? -/
  running : Bool := true

namespace Server

/-- Pass on to the timer service what the engine asked for. -/
def passOn (s : TimerService) : Action → TimerService
  | .change _ => s
  | .registerTimer id channel deadline => s.register ⟨id, channel⟩ deadline
  | .cancelTimer id channel => s.cancel ⟨id, channel⟩

/-- Hand the journal over to the timer service. -/
def handOver (s : Server) : Server :=
  { s with
    timers := s.host.journal.foldl passOn s.timers
    host := { s.host with journal := [] } }

/-- An operation of the engine. -/
def perform {α : Type} (s : Server) (work : Access EngineError α) :
    Except EngineError α × Server :=
  let (r, host) := work.perform s.host
  (r, handOver { s with host })

/-- The message that tells an instance of an event. -/
def messageOf : TimerEvent → Message
  | .timeout _ => .timeout
  | .cancelled _ => .timerCancelled

/-- Deliver an event; an instance that cannot take it does not stop the server. -/
def deliver (now : Instant) (s : Server) (event : TimerEvent) : Server :=
  (s.perform (s.engine.deliver now event.key.instanceId event.key.channel (messageOf event))).2

/-- Deliver events until there are no more, in so many rounds at most.  A stopped server lets its
timers end and forgets their events. -/
def settle (now : Instant) : (rounds : Nat) → Server → Server
  | 0, s => s
  | rounds + 1, s =>
    let (events, timers) := s.timers.drain
    let s := { s with timers }
    if events.isEmpty then s
    else if s.running then settle now rounds (events.foldl (deliver now) s)
    else s

/-- Stop delivering, and shut the timers down. -/
def stop (s : Server) : Server := { s with timers := s.timers.shutdown, running := false }

end Server

end Perdure
