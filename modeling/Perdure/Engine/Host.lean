import Perdure.Store.Call

/-!
# Hosts

What an engine works on from outside: a store, and timers that it asks for.  All that is done to
the outside goes into a journal in the order in which it was done, so that whatever a crash leaves
behind is told by a first part of the journal.

## Main definitions

* `Action` — what is done to the outside.
* `Host` — the store, the calls that fail for now, and the journal.
* `Access` — work on a host, which may end early and keeps what it has done by then.
-/

namespace Perdure

/-- What is done to the outside. -/
inductive Action where
  /-- A change that the store accepted. -/
  | change (c : Change)
  | registerTimer (id : InstanceId) (channel : Channel) (deadline : Instant)
  | cancelTimer (id : InstanceId) (channel : Channel)
deriving DecidableEq, Repr

/-- Is this about a timer? -/
def Action.isTimer : Action → Bool
  | .change _ => false
  | _ => true

/-- What an engine works on. -/
structure Host where
  store : Store := ∅
  /-- The kinds of calls that fail for now. -/
  failing : List CallKind := []
  /-- What was done, oldest first. -/
  journal : List Action := []
deriving DecidableEq

/-- Work on a host. -/
abbrev Access (ε α : Type) := ExceptT ε (StateM Host) α

namespace Access

variable {ε ε' α : Type}

/-- Do the work; what was done before an early end stays done. -/
def perform (work : Access ε α) (h : Host) : Except ε α × Host := work h

/-- Go on with a value, unless there is none. -/
def ofExcept (r : Except ε α) : Access ε α := fun h => (r, h)

/-- Rename the reasons of an early end. -/
def relabel (f : ε → ε') (work : Access ε α) : Access ε' α := ExceptT.adapt f work

/-- Call the store, unless calls of this kind fail. -/
def calling (kind : CallKind) (call : Access StoreError α) : Access StoreError α := fun h =>
  if h.failing.contains kind then (.error .unavailable, h) else call h

/-- Make a change. -/
def change (c : Change) : Access StoreError Unit := calling c.kind fun h =>
  match c.apply h.store with
  | .ok store => (.ok (), { h with store, journal := h.journal ++ [.change c] })
  | .error e => (.error e, h)

/-- The record of an instance. -/
def record (id : InstanceId) : Access StoreError Record := calling .record fun h =>
  (h.store.record id, h)

/-- The bytes of an instance's state. -/
def state (id : InstanceId) : Access StoreError (Option (List UInt8)) := calling .state fun h =>
  ((h.store.record id).map (·.state), h)

/-- The names of the active instances of a process. -/
def active (processId : String) : Access StoreError (List InstanceId) := calling .active fun h =>
  (.ok (h.store.active processId), h)

/-- Do something about a timer. -/
def timer (a : Action) : Access ε Unit := fun h => (.ok (), { h with journal := h.journal ++ [a] })

end Access

end Perdure
