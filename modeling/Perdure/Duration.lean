import Perdure.Binary64
import Perdure.Text.Digits

/-!
# Durations

A duration is a `P`, amounts of weeks or days, and after a `T` amounts of hours, minutes or
seconds, in any order and as often as one likes; a minus sign before it turns it around.  Months
and years have no fixed length and are refused.  An amount is a decimal number, read as a double,
and each component is rounded to whole milliseconds before it is added.

## Main definitions

* `DurationError` — what can be wrong with a duration.
* `Duration.ofChars` — the milliseconds that a duration denotes.
-/

namespace Perdure

/-- What can be wrong with a duration. -/
inductive DurationError where
  /-- The text does not start with a `P`. -/
  | noStart
  /-- A designator without an amount before it. -/
  | missingValue (designator : Char)
  /-- An amount that is no decimal number. -/
  | badNumber (number : String)
  /-- Months or years. -/
  | calendarUnit
  /-- A designator that its place does not allow. -/
  | unexpected (designator : Char)
  /-- More milliseconds than 63 bits hold. -/
  | outOfRange
  /-- An amount without a designator after it. -/
  | trailing (number : String)
  /-- No component at all. -/
  | nothing
deriving DecidableEq, Repr

/-- The wording of a fault. -/
def DurationError.message : DurationError → String
  | .noStart => "duration must start with 'P'"
  | .missingValue designator => s!"missing value before '{designator}'"
  | .badNumber number => s!"bad number '{number}'"
  | .calendarUnit => "calendar units are not supported"
  | .unexpected designator => s!"unexpected designator '{designator}'"
  | .outOfRange => "duration out of range"
  | .trailing number => s!"trailing value '{number}' without designator"
  | .nothing => "empty duration"

namespace Duration

/-- The number of milliseconds that a duration stays below. -/
def bound : Nat := Nat.pow 2 63

/-- The milliseconds of a unit; `timed` tells the part after the `T`. -/
def unitMillis (designator : Char) (timed : Bool) : Except DurationError Nat :=
  match designator, timed with
  | 'W', false => .ok 604800000
  | 'D', false => .ok 86400000
  | 'H', true => .ok 3600000
  | 'M', true => .ok 60000
  | 'S', true => .ok 1000
  | 'Y', false | 'M', false => .error .calendarUnit
  | _, _ => .error (.unexpected designator)

/-- The double that an amount denotes: digits, with at most one point among them. -/
def amount? (number : List Char) : Option Binary64 :=
  let whole := number.takeWhile (· ≠ '.')
  let fraction := (number.dropWhile (· ≠ '.')).drop 1
  let ds := whole ++ fraction
  if ds.isEmpty ∨ ¬ ds.all Char.isDigit then none
  else some (.ofDecimal (Text.ofDigits (ds.filterMap Text.digit?)) (-(fraction.length : Int)))

/-- The milliseconds of so much of a unit: the product in doubles, rounded; `none` out of range. -/
def convert? (value : Binary64) (unit : Nat) : Option Nat :=
  let millis := value.scale unit
  if millis.above bound then none else millis.round.map (min · (bound - 1))

/-- The milliseconds of one component. -/
def component (number : List Char) (designator : Char) (timed : Bool) :
    Except DurationError Nat := do
  if number.isEmpty then throw (.missingValue designator)
  match amount? number with
  | none => throw (.badNumber (String.ofList number))
  | some value => match convert? value (← unitMillis designator timed) with
    | none => throw .outOfRange
    | some n => pure n

/-- Do so many milliseconds make a duration?  Durations reach equally far to both sides. -/
def isRepresentable (millis : Int) : Bool := -(bound : Int) < millis && millis < bound

/-- A duration of which part has been read. -/
structure Reading where
  /-- Milliseconds of the components so far. -/
  total : Nat := 0
  /-- Has the `T` been read? -/
  timed : Bool := false
  /-- The amount being read. -/
  number : List Char := []
  /-- Has a component been read? -/
  found : Bool := false
deriving DecidableEq, Repr

/-- Read one more character. -/
def Reading.step (r : Reading) (c : Char) : Except DurationError Reading :=
  if c = 'T' ∧ r.timed = false ∧ r.number = [] then .ok { r with timed := true }
  else if c.isDigit ∨ c = '.' then .ok { r with number := r.number ++ [c] }
  else do
    let total := r.total + (← component r.number c r.timed)
    if bound ≤ total then throw .outOfRange
    pure { r with total, number := [], found := true }

/-- The milliseconds of a duration that has been read to its end. -/
def Reading.finish (r : Reading) : Except DurationError Nat :=
  if r.number ≠ [] then .error (.trailing (String.ofList r.number))
  else if !r.found then .error .nothing
  else if !isRepresentable r.total then .error .outOfRange
  else .ok r.total

/-- The milliseconds of a duration without its sign. -/
def magnitude : List Char → Except DurationError Nat
  | 'P' :: rest => do (← rest.foldlM Reading.step {}).finish
  | _ => .error .noStart

/-- The milliseconds that a duration denotes. -/
def ofChars : List Char → Except DurationError Int
  | '-' :: rest => (magnitude rest).map fun n : Nat => -(n : Int)
  | cs => (magnitude cs).map fun n : Nat => (n : Int)

end Duration

end Perdure
