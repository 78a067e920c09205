import Perdure.Instance.Compensation
import Perdure.Instance.Requests

/-!
# The state of a process instance

What the soup of a process instance is made of: the messages its parts exchange, the tasks that
are ready to run, the receivers that wait, and the data they share.

## Main definitions

* `Fault`, `Message` — what is sent.
* `Run`, `SequenceRun`, `ScopeRun`, `AlarmRun` — an activity under way, by kind.
* `Task`, `Receiver` — what runs, and what waits.
* `Shared` — what all parts of an instance share.
* `InstanceSoup` — the soup of a process instance.
-/

namespace Perdure

/-- A fault on its way to an enclosing scope. -/
structure Fault where
  name : String
  /-- The expression that raised it. -/
  explanation : Option String := none
deriving DecidableEq, Repr

/-- What the parts of an instance, and the outside, send to each other. -/
inductive Message where
  /-- Stop an event handler; a firing under way may finish. -/
  | stop
  /-- Stop at once, with everything below. -/
  | terminate
  /-- The timer of this channel went off. -/
  | timeout
  /-- The timer of this channel will never go off. -/
  | timerCancelled
  /-- An activity finished. -/
  | completed (fault : Option Fault) (compensations : Compensations)
  /-- An activity was cancelled before it did anything. -/
  | cancelled
  /-- An activity failed outside of fault handling. -/
  | failure (reason : String)
  /-- A wish for compensation, on its way to whoever can run it. -/
  | compensate (scope : ActivityId) (reply : Channel)
deriving DecidableEq, Repr

/-- The written name of the case. -/
def Message.shape : Message → String
  | .stop => "stop"
  | .terminate => "terminate"
  | .timeout => "timeout"
  | .timerCancelled => "timer-cancelled"
  | .completed .. => "completed"
  | .cancelled => "cancelled"
  | .failure _ => "failure"
  | .compensate .. => "compensate"

/-! ### Activities under way -/

/-- One run of an activity. -/
structure Run where
  /-- The number of the run. -/
  id : Nat
  activity : ActivityId
  /-- Where the activity listens for its termination. -/
  termination : Channel
  /-- Where the activity reports its completion. -/
  parent : Channel
deriving DecidableEq, Repr

/-- A sequence under way. -/
structure SequenceRun where
  run : Run
  /-- The index of the child that runs or comes next. -/
  position : Nat
  compensations : Compensations := ∅
  /-- Has the sequence been told to stop? -/
  terminated : Bool := false
deriving DecidableEq, Repr

/-- What a scope knows of one of its alarms. -/
structure AlarmLink where
  /-- Where the alarm reports its completion. -/
  parent : Channel
  /-- Where the alarm is told to stop at once. -/
  termination : Channel
  /-- Where the alarm is told to fire no more. -/
  control : Channel
  done : Bool := false
deriving DecidableEq, Repr

/-- A scope under way. -/
structure ScopeRun where
  run : Run
  /-- The run of the body, until it completes. -/
  body : Option Run
  handlers : List AlarmLink
  compensations : Compensations := ∅
  /-- The first fault of the body or an alarm. -/
  fault : Option Fault := none
  /-- Has everything inside been told to stop? -/
  terminating : Bool := false
deriving DecidableEq, Repr

/-- The place of an alarm in a definition. -/
structure AlarmRef where
  scope : ActivityId
  index : Nat
deriving DecidableEq, Repr

/-- An alarm under way. -/
structure AlarmRun where
  alarm : AlarmRef
  scopeInstance : Nat
  parent : Channel
  termination : Channel
  control : Channel
  compensations : Compensations := ∅
deriving DecidableEq, Repr

/-! ### Tasks and receivers -/

/-- What is ready to run. -/
inductive Task where
  /-- Start an activity. -/
  | activity (run : Run)
  /-- Start the next child of a sequence. -/
  | sequenceStep (sequence : SequenceRun)
  /-- Wait for the parts of a scope, or complete it. -/
  | scopeActive (scope : ScopeRun)
  /-- Time the first firing of an alarm. -/
  | alarmStart (alarm : AlarmRun)
  /-- Wait for a firing. -/
  | alarmWait (alarm : AlarmRun) (deadline : Option Instant)
  /-- Run the activity of an alarm. -/
  | alarmFire (alarm : AlarmRun)
  /-- Wait for the activity of an alarm. -/
  | alarmActive (alarm : AlarmRun) (child : Run) (stopped : Bool)
deriving DecidableEq, Repr

/-- What waits for a message. -/
inductive Receiver where
  | waitActivity (run : Run) (timer : Channel)
  | sequenceWaiting (sequence : SequenceRun) (child : Run)
  | scopeWaiting (scope : ScopeRun)
  | alarmWaiting (alarm : AlarmRun) (timer : Option Channel)
  | alarmActive (alarm : AlarmRun) (child : Run) (stopped : Bool)
deriving DecidableEq, Repr

/-- The channels between the root activity and the outside. -/
structure RootLink where
  termination : Channel
  parent : Channel
deriving DecidableEq, Repr

/-- What all parts of an instance share. -/
structure Shared where
  root : Option RootLink := none
  requests : RequestState := .current
deriving DecidableEq

/-- The soup of a process instance. -/
abbrev InstanceSoup := Soup Shared Task Receiver Message

end Perdure
