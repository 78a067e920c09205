import Perdure.Soup
import Perdure.Store.InstanceId

/-!
# The timer service

A registration is kept under its instance and channel until it is cancelled, replaced or done.  Each
registration has a task of its own.  From when it is first scheduled, the task sleeps as long as it
was to the deadline when the timer was registered.  Cancelling and replacing only revoke a task: it
notices when it is scheduled, and by then the service may have been shut down.

## Main definitions

* `TimerKey`, `TimerEvent` — what a timer is for, and what becomes of it.
* `TimerService` — pending registrations, tasks and events.
* `TimerService.register`, `cancel`, `shutdown`, `advance` — what is done to the service.
* `TimerService.wake` — schedule one task: it looks around, and ends if it can.
* `TimerService.drain` — schedule every task, and take the events.
-/

namespace Perdure

open Std

/-- What a timer is for. -/
structure TimerKey where
  instanceId : InstanceId
  channel : Channel
deriving DecidableEq, Repr

namespace TimerKey

/-- Keys in the order of instances, then channels. -/
instance : Ord TimerKey := ⟨compareLex (compareOn (·.instanceId)) (compareOn (·.channel))⟩

instance : TransOrd TimerKey :=
  inferInstanceAs (TransCmp (compareLex (compareOn TimerKey.instanceId)
    (compareOn TimerKey.channel)))

instance : LawfulEqOrd TimerKey where
  eq_of_compare {a b} h := by
    obtain ⟨hi, hc⟩ := eq_and_eq_of_compareLex h
    have hi : a.instanceId = b.instanceId := eq_of_compare_eq hi
    have hc : a.channel = b.channel := eq_of_compare_eq hc
    cases a; cases b; simp_all

end TimerKey

/-- What becomes of a timer. -/
inductive TimerEvent where
  | timeout (key : TimerKey)
  /-- The service was shut down first. -/
  | cancelled (key : TimerKey)
deriving DecidableEq, Repr

/-- The timer that an event is about. -/
def TimerEvent.key : TimerEvent → TimerKey
  | .timeout key | .cancelled key => key

/-- The task of one registration. -/
structure TimerTask where
  key : TimerKey
  /-- For how many nanoseconds the task is to sleep. -/
  delay : Nat
  /-- When its sleep is over, once it has begun. -/
  due : Option Nat := none
  /-- Was the registration cancelled or replaced? -/
  revoked : Bool := false
deriving DecidableEq, Repr

/-- Pending registrations, their tasks, and events that nobody has taken. -/
structure TimerService where
  /-- What the clock shows when a timer is registered. -/
  now : Instant
  /-- The nanoseconds that have passed, by which tasks sleep. -/
  uptime : Nat := 0
  stopped : Bool := false
  /-- The number of the next registration. -/
  next : Nat := 0
  /-- The registration of each timer that is neither done nor cancelled. -/
  pending : Table TimerKey Nat := ∅
  /-- The tasks that have not ended, by the numbers of their registrations. -/
  tasks : Table Nat TimerTask := ∅
  /-- Events, oldest first. -/
  events : List TimerEvent := []
deriving DecidableEq, Repr

namespace TimerService

/-- Revoke the task of a registration. -/
def revoke (s : TimerService) (number : Nat) : TimerService :=
  match s.tasks.get? number with
  | none => s
  | some t => { s with tasks := s.tasks.insert number { t with revoked := true } }

/-- Revoke the task of the timer that is pending under a key. -/
def revokePending (s : TimerService) (key : TimerKey) : TimerService :=
  match s.pending.get? key with
  | some number => s.revoke number
  | none => s

/-- Register a timer in place of one with the same key.  After a shutdown it is cancelled at once. -/
def register (s : TimerService) (key : TimerKey) (deadline : Instant) : TimerService :=
  if s.stopped then { s with events := s.events ++ [.cancelled key] }
  else
    let s := s.revokePending key
    { s with
      next := s.next + 1
      pending := s.pending.insert key s.next
      tasks := s.tasks.insert s.next { key, delay := s.now.nanosUntil deadline } }

/-- Cancel a timer, if it is pending. -/
def cancel (s : TimerService) (key : TimerKey) : TimerService :=
  let s := s.revokePending key
  { s with pending := s.pending.erase key }

/-- Stop the service: tasks that have not ended end by a cancellation. -/
def shutdown (s : TimerService) : TimerService := { s with stopped := true }

/-- Let time pass; the clock may be set meanwhile. -/
def advance (s : TimerService) (now : Instant) (nanos : Nat) : TimerService :=
  { s with now, uptime := s.uptime + nanos }

/-- The task once it sleeps: it begins when it is first scheduled. -/
def asleep (s : TimerService) (t : TimerTask) : TimerTask :=
  { t with due := some (t.due.getD (s.uptime + t.delay)) }

/-- How a task ends, if it can, with the event it leaves behind.  A task that finds itself revoked
says nothing unless the service is stopped.  If its sleep is over as well, it depends on what the
task looks at first. -/
def ending? (s : TimerService) (t : TimerTask) (sleepFirst : Bool) : Option (Option TimerEvent) :=
  let elapsed := if t.due.any (· ≤ s.uptime) then some (some (.timeout t.key)) else none
  let revoked := if s.stopped then some (some (.cancelled t.key))
    else if t.revoked then some none
    else none
  if sleepFirst then elapsed <|> revoked else revoked <|> elapsed

/-- End the task of a registration: it is no longer pending. -/
def finish (s : TimerService) (number : Nat) (key : TimerKey) (event : Option TimerEvent) :
    TimerService :=
  { s with
    pending := if s.pending.get? key = some number then s.pending.erase key else s.pending
    tasks := s.tasks.erase number
    events := s.events ++ event.toList }

/-- Schedule the task of a registration: it looks around, and ends if it can. -/
def wake (s : TimerService) (number : Nat) (sleepFirst : Bool) : TimerService :=
  match s.tasks.get? number with
  | none => s
  | some t =>
    let t := s.asleep t
    match s.ending? t sleepFirst with
    | none => { s with tasks := s.tasks.insert number t }
    | some event => s.finish number t.key event

/-- Schedule every task. -/
def settle (s : TimerService) : TimerService :=
  s.tasks.keys.foldl (fun s number => s.wake number false) s

/-- Take the events. -/
def takeEvents (s : TimerService) : List TimerEvent × TimerService :=
  (s.events, { s with events := [] })

/-- Schedule every task, and take the events. -/
def drain (s : TimerService) : List TimerEvent × TimerService := s.settle.takeEvents

end TimerService

end Perdure
