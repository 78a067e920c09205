import Perdure.Definition.Activity
import Perdure.Duration
import Perdure.Text.Blank
import Perdure.Time.Strict

/-!
# Expressions

Deadlines and durations stand in definitions as expressions.  An evaluator turns an expression
into a time, raises a business fault that the process may handle, or finds it invalid.

## Main definitions

* `Occasion` — when, and for which activity, an expression is evaluated.
* `Evaluator` — how expressions are evaluated on one occasion.
* `Evaluator.literal` — expressions that are durations and timestamps themselves.
* `Evaluator.raising` — the same, with expressions that raise a fault.
-/

namespace Perdure

/-- Why an expression has no value. -/
inductive InvalidReason where
  | duration (e : DurationError)
  | timestamp (e : TimestampError)
  /-- The deadline lies beyond the range of instants. -/
  | deadlineOutOfRange
  /-- A reason of another language of expressions. -/
  | other (reason : String)
deriving DecidableEq, Repr

/-- The wording of a reason. -/
def InvalidReason.message : InvalidReason → String
  | .duration e => e.message
  | .timestamp e => e.message
  | .deadlineOutOfRange => "deadline out of range"
  | .other reason => reason

/-- An expression that has no value. -/
structure InvalidExpression where
  expression : String
  reason : InvalidReason
deriving DecidableEq, Repr

/-- The wording of an invalid expression. -/
def InvalidExpression.message (e : InvalidExpression) : String :=
  s!"cannot evaluate '{e.expression}': {e.reason.message}"

/-- Why an evaluation gave no value. -/
inductive EvaluationFailure where
  /-- A business fault, which the process may handle. -/
  | fault (name : String)
  | invalid (e : InvalidExpression)
deriving DecidableEq, Repr

/-- When, and for which activity, an expression is evaluated. -/
structure Occasion where
  now : Instant
  activity : ActivityId
deriving DecidableEq, Repr

/-- How expressions are evaluated on one occasion. -/
structure Evaluator where
  /-- The nanoseconds of a duration. -/
  duration : String → Except EvaluationFailure Int
  /-- The instant of a deadline. -/
  deadline : String → Except EvaluationFailure Instant

namespace Evaluator

/-- An evaluator that never looks at the occasion. -/
instance : Coe Evaluator (Occasion → Evaluator) := ⟨fun ev _ => ev⟩

/-- Expressions are durations and timestamps, with blanks allowed around them. -/
def literal : Evaluator where
  duration expression := do
    let millis ← (Duration.ofChars (Text.trim expression.toList)).mapError fun e =>
      .invalid ⟨expression, .duration e⟩
    pure (millis * 1000000)
  deadline expression :=
    let trimmed := String.ofList (Text.trim expression.toList)
    (Instant.ofTimestamp trimmed.toUTF8.toList).mapError fun e =>
      .invalid ⟨expression, .timestamp e⟩

/-- The fault that an expression raises by its first word, if it does. -/
def raised? (expression : String) : Option String :=
  match expression.toList with
  | 'f' :: 'a' :: 'u' :: 'l' :: 't' :: ':' :: name => some (String.ofList name)
  | _ => none

/-- An evaluator for which an expression can also raise a fault. -/
def raising (base : Evaluator) : Evaluator where
  duration expression := match raised? expression with
    | some name => .error (.fault name)
    | none => base.duration expression
  deadline expression := match raised? expression with
    | some name => .error (.fault name)
    | none => base.deadline expression

/-- The instant that lies a duration after `now`. -/
def deadlineAfter (ev : Evaluator) (now : Instant) (expression : String) :
    Except EvaluationFailure Instant := do
  match now.addNanos? (← ev.duration expression) with
  | some t => pure t
  | none => throw (.invalid ⟨expression, .deadlineOutOfRange⟩)

end Evaluator

end Perdure
