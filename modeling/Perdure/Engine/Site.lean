import Perdure.Engine.Basic
import Perdure.Engine.Timers
import Perdure.Time.Due

/-!
# Sites

An engine with its host, a clock that is set by hand and a map of pending timers.  The map changes
only by what the engine asks for and by expiry: a timer that expires is taken out of the map, and
its instance is told.

## Main definitions

* `Site` — an engine, its host, a clock and the pending timers.
* `Site.perform` — an operation of the engine, with the actions it took.
* `Site.expire` — a timer expires.
* `Site.elapse` — let time pass.
-/

namespace Perdure

/-- An engine, its host, a clock and the pending timers. -/
structure Site where
  engine : Engine
  host : Host := {}
  now : Instant
  pending : Table TimerKey Instant := ∅

/-- A timer that expired at a site, and what its instance did. -/
structure Expiry where
  /-- The time on the clock. -/
  time : Instant
  key : TimerKey
  result : Except EngineError Status
  actions : List Action

/-- The pending timers after an action. -/
def Action.onPending (pending : Table TimerKey Instant) : Action → Table TimerKey Instant
  | .change _ => pending
  | .registerTimer id channel deadline => pending.insert ⟨id, channel⟩ deadline
  | .cancelTimer id channel => pending.erase ⟨id, channel⟩

namespace Site

/-- Do some work, and have its actions change the pending timers. -/
def perform {ε α : Type} (s : Site) (work : Access ε α) : (Except ε α × List Action) × Site :=
  let (r, host) := work.perform s.host
  ((r, host.journal),
    { s with
      host := { host with journal := [] }
      pending := host.journal.foldl Action.onPending s.pending })

/-- A timer expires: the clock moves on to its deadline, and its instance is told. -/
def expire (s : Site) (key : TimerKey) (deadline : Instant) : Expiry × Site :=
  let now := s.now.latest deadline
  let s := { s with now, pending := s.pending.erase key }
  let ((result, actions), s) := s.perform (s.engine.deliver now key.instanceId key.channel .timeout)
  (⟨now, key, result, actions⟩, s)

/-- Let time pass up to an instant, with so many expiries at most.  The clock stands still when
there would be more; the answer tells whether it did. -/
def elapse (upTo : Instant) : (most : Nat) → Site → (List Expiry × Bool) × Site
  | most, s => match s.pending.due? upTo, most with
    | none, _ => (([], false), { s with now := upTo })
    | some _, 0 => (([], true), s)
    | some (key, deadline), most + 1 =>
      let (expiry, s) := s.expire key deadline
      let ((expiries, stopped), s) := elapse upTo most s
      ((expiry :: expiries, stopped), s)

/-- A new engine without processes on the same host; pending timers are lost. -/
def restart (s : Site) : Site :=
  { s with engine := { s.engine with processes := ∅ }, pending := ∅ }

end Site

end Perdure
