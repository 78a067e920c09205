import Perdure.Table

/-!
# Activities

The steps a process is made of.  Activities refer to each other by their index in the definition
that holds them.

## Main definitions

* `ActivityId` — the index of an activity.
* `Deadline`, `Alarm` — when a wait ends, and when an event handler fires.
* `Agent` — what an activity links to, reads and writes.
* `ActivityKind`, `Activity` — what an activity does, and the activity itself.
-/

namespace Perdure

/-- The index of an activity in its definition. -/
abbrev ActivityId := Nat

/-- How an activity is referred to in text. -/
def ActivityId.text (id : ActivityId) : String := "#" ++ toString id

/-- When a wait ends. -/
inductive Deadline where
  /-- After a duration, from the start of the wait. -/
  | delay (duration : String)
  /-- At a point in time. -/
  | instant (timestamp : String)
deriving DecidableEq, Repr

/-- A timed event handler of a scope.  It fires after a duration or at an instant, and again after
each repetition; with a repetition alone, that one also times the first firing. -/
structure Alarm where
  delay : Option String
  instant : Option String
  repetition : Option String
  /-- The activity run on each firing. -/
  activity : ActivityId
deriving DecidableEq, Repr

/-- Does the alarm fire more than once? -/
def Alarm.isRepeating (a : Alarm) : Bool := a.repetition.isSome

/-- Is the first firing timed in two ways at once? -/
def Alarm.isConflicting (a : Alarm) : Bool := a.delay.isSome && a.instant.isSome

/-- What an activity links to, reads and writes. -/
structure Agent where
  incomingLinks : KeySet String := ∅
  outgoingLinks : KeySet String := ∅
  variablesRead : KeySet String := ∅
  variablesWritten : KeySet String := ∅
  /-- Activities nested in this one. -/
  nested : KeySet ActivityId := ∅
deriving DecidableEq, Repr

/-- Does the agent declare nothing? -/
def Agent.isEmpty (a : Agent) : Bool :=
  a.incomingLinks.isEmpty && a.outgoingLinks.isEmpty && a.variablesRead.isEmpty
    && a.variablesWritten.isEmpty && a.nested.isEmpty

/-- What an activity does. -/
inductive ActivityKind where
  /-- Completes at once. -/
  | empty
  /-- Completes at once, with a fault. -/
  | throw (fault : String)
  /-- Completes at its deadline. -/
  | wait (deadline : Deadline)
  /-- Runs its children one after another. -/
  | sequence (children : List ActivityId)
  /-- Runs a body beside its alarms; a body that completes without fault leaves the compensation
  behind. -/
  | scope (body : ActivityId) (alarms : List Alarm) (compensation : Option ActivityId)
deriving DecidableEq, Repr

/-- The activities that a kind refers to. -/
def ActivityKind.references : ActivityKind → List ActivityId
  | .empty | .throw _ | .wait _ => []
  | .sequence children => children
  | .scope body alarms compensation => body :: alarms.map (·.activity) ++ compensation.toList

/-- The alarms of a scope; other kinds have none. -/
def ActivityKind.alarms : ActivityKind → List Alarm
  | .scope _ alarms _ => alarms
  | _ => []

/-- One activity of a definition. -/
structure Activity where
  id : ActivityId
  name : Option String
  agent : Agent := {}
  kind : ActivityKind
deriving DecidableEq, Repr

/-- The name of an activity, or its index if it has none. -/
def Activity.label (a : Activity) : String := a.name.getD (ActivityId.text a.id)

end Perdure
