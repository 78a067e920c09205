import Perdure.Definition.Process
import Perdure.Expression
import Perdure.Instance.State
import Perdure.Machine

/-!
# Scripts

A script is a definition and the way its expressions are evaluated: all that the tasks and
receivers of an instance need to know beside the soup.

## Main definitions

* `Script` — a definition and an evaluator.
* `RunError` — why a task or receiver fails.
* `Script.deadlineAfter`, `Script.deadlineAt` — an evaluated deadline, or the fault it raises.
-/

namespace Perdure

/-- Why a task or receiver fails. -/
inductive RunError where
  | invalidProcess (e : InvalidExpression)
  | unknownActivity (processId : String) (activity : ActivityId)
  | unknownAlarm (scope : ActivityId) (index : Nat)
  /-- A message that the receiver does not understand. -/
  | unexpectedMessage (state : String) (channel : Channel) (shape : String)
deriving DecidableEq, Repr

/-- The wording of an error. -/
def RunError.message : RunError → String
  | .invalidProcess e => s!"invalid process: {e.message}"
  | .unknownActivity processId activity =>
    s!"activity {ActivityId.text activity} is not defined in process '{processId}'"
  | .unknownAlarm scope index =>
    s!"alarm {index} of scope {ActivityId.text scope} is not defined"
  | .unexpectedMessage state channel shape =>
    s!"unexpected message '{shape}' on {Channel.text channel} in state {state}"

/-- What a task or receiver does. -/
abbrev Reaction := Turn Shared Task Receiver Message RunError

/-- A definition and the way its expressions are evaluated. -/
structure Script where
  definition : Definition
  evaluator : Occasion → Evaluator

namespace Script

/-- The error that an activity is not what it is taken for. -/
def unknown (s : Script) (id : ActivityId) : RunError :=
  .unknownActivity s.definition.processId id

/-- The activity at an index. -/
def activity (s : Script) (id : ActivityId) : Except RunError Activity :=
  match s.definition.activity? id with
  | some a => .ok a
  | none => .error (s.unknown id)

/-- The alarm at a place. -/
def alarm (s : Script) (place : AlarmRef) : Except RunError Alarm := do
  let a ← s.activity place.scope
  match a.kind.alarms[place.index]? with
  | some alarm => pure alarm
  | none => throw (.unknownAlarm place.scope place.index)

/-- An evaluated expression: a value, or the fault that the expression raises, which then explains
itself by the expression. -/
def settle {α : Type} (expression : String) (r : Except EvaluationFailure α) :
    Except RunError (Except Fault α) :=
  match r with
  | .ok a => .ok (.ok a)
  | .error (.fault name) => .ok (.error ⟨name, some expression⟩)
  | .error (.invalid e) => .error (.invalidProcess e)

/-- The instant a duration after now. -/
def deadlineAfter (s : Script) (o : Occasion) (expression : String) :
    Except RunError (Except Fault Instant) :=
  settle expression ((s.evaluator o).deadlineAfter o.now expression)

/-- The instant that an expression names. -/
def deadlineAt (s : Script) (o : Occasion) (expression : String) :
    Except RunError (Except Fault Instant) :=
  settle expression ((s.evaluator o).deadline expression)

/-- The end of a wait. -/
def deadline (s : Script) (o : Occasion) : Deadline → Except RunError (Except Fault Instant)
  | .delay duration => s.deadlineAfter o duration
  | .instant timestamp => s.deadlineAt o timestamp

end Script

namespace Reaction

/-- Begin a run of an activity: it gets a number and channels of its own. -/
def newRun (activity : ActivityId) : Reaction Run := do
  let id ← Turn.genMonotonic
  let termination ← Turn.newChannel
  let parent ← Turn.newChannel
  pure { id, activity, termination, parent }

/-- Report completion. -/
def complete (parent : Channel) (fault : Option Fault) (compensations : Compensations) :
    Reaction Unit :=
  Turn.send parent (.completed fault compensations)

/-- Refuse a message. -/
def refuse (state : String) (channel : Channel) (m : Message) : Reaction Unit :=
  Turn.fail (.unexpectedMessage state channel m.shape)

end Reaction

end Perdure
