import Perdure.Time.Instant

/-!
# Timestamps read strictly

The timestamps of RFC 3339: a four digit year, two digits for every other part, one of `T`, `t`
and a blank between date and time, and an offset that is `Z`, `z` or signed hours and minutes.
The text is read from left to right and the first fault is the one reported; whether the hour,
minute and second are possible is asked once the fraction of the second is behind.

## Main definitions

* `TimestampError` — what can be wrong with a timestamp.
* `Instant.ofTimestamp` — the instant that a timestamp denotes.
-/

namespace Perdure

/-- What can be wrong with a timestamp. -/
inductive TimestampError where
  | tooShort
  | invalid
  | outOfRange
  | tooLong
deriving DecidableEq, Repr

/-- The wording of a fault. -/
def TimestampError.message : TimestampError → String
  | .tooShort => "premature end of input"
  | .invalid => "input contains invalid characters"
  | .outOfRange => "input is out of range"
  | .tooLong => "trailing input"

namespace Timestamp

/-- A step of reading: a value and the bytes that are left. -/
abbrev Step (α : Type) := Except TimestampError (α × List UInt8)

/-- The value of a digit byte. -/
def digit? (b : UInt8) : Option Nat :=
  if '0'.toUInt8 ≤ b ∧ b ≤ '9'.toUInt8 then some (b - '0'.toUInt8).toNat else none

/-- Read a number of exactly so many digits. -/
def number : (count : Nat) → (acc : Nat) → List UInt8 → Step Nat
  | 0, acc, bytes => .ok (acc, bytes)
  | _ + 1, _, [] => .error .tooShort
  | count + 1, acc, b :: rest => match digit? b with
    | some d => number count (10 * acc + d) rest
    | none => .error .invalid

/-- Read one byte that passes a test. -/
def byte (accepted : UInt8 → Bool) : List UInt8 → Except TimestampError (List UInt8)
  | [] => .error .tooShort
  | b :: rest => if accepted b then .ok rest else .error .invalid

/-- Read the given character. -/
def char (c : Char) : List UInt8 → Except TimestampError (List UInt8) := byte (· == c.toUInt8)

/-- The nanoseconds that the digits after the point denote: the first nine count. -/
def nanosOf (ds : List Nat) : Nat :=
  let counted := ds.take 9
  counted.foldl (fun n d => 10 * n + d) 0 * Nat.pow 10 (9 - counted.length)

/-- Read the fraction of a second, if there is one. -/
def fraction : List UInt8 → Step Nat
  | [] => .ok (0, [])
  | b :: rest =>
    if b != '.'.toUInt8 then .ok (0, b :: rest)
    else match rest with
      | [] => .error .tooShort
      | _ =>
        let ds := (rest.takeWhile fun d => (digit? d).isSome).filterMap digit?
        if ds.isEmpty then .error .invalid
        else .ok (nanosOf ds, rest.dropWhile fun d => (digit? d).isSome)

/-- Read two digits of an offset; minutes stop at 59. -/
def offsetPart (limit : Nat) : List UInt8 → Step Nat
  | a :: b :: rest => match digit? a, digit? b with
    | some h, some l =>
      if limit ≤ 10 * h then .error .outOfRange else .ok (10 * h + l, rest)
    | _, _ => .error .invalid
  | _ => .error .tooShort

/-- Read a signed offset after its sign, in seconds. -/
def hoursAndMinutes (sign : Int) (bytes : List UInt8) :
    Except TimestampError (Int × List UInt8) := do
  let (hours, bytes) ← offsetPart 100 bytes
  let bytes ← char ':' bytes
  let (minutes, bytes) ← offsetPart 60 bytes
  pure (sign * (hours * 3600 + minutes * 60 : Nat), bytes)

/-- Read the offset from universal time, in seconds.  The sign may be the minus sign U+2212. -/
def offset : List UInt8 → Step Int
  | [] => .error .tooShort
  | 0xE2 :: 0x88 :: 0x92 :: rest => hoursAndMinutes (-1) rest
  | b :: rest =>
    if b == 'Z'.toUInt8 || b == 'z'.toUInt8 then .ok (0, rest)
    else if b == '+'.toUInt8 then hoursAndMinutes 1 rest
    else if b == '-'.toUInt8 then hoursAndMinutes (-1) rest
    else .error .invalid

/-- A clock time as the second of the day and nanoseconds.  Second 60 is a leap second. -/
def clock? (hour minute second nanos : Nat) : Option (Nat × Nat) :=
  if 24 ≤ hour ∨ 60 ≤ minute ∨ 60 < second then none
  else if second = 60 then some (hour * 3600 + minute * 60 + 59, nanos + Instant.billion)
  else some (hour * 3600 + minute * 60 + second, nanos)

end Timestamp

open Timestamp in
/-- The instant that the bytes of a timestamp denote. -/
def Instant.ofTimestamp (bytes : List UInt8) : Except TimestampError Instant := do
  if bytes.length < 19 then throw .tooShort
  let (year, bytes) ← number 4 0 bytes
  let bytes ← char '-' bytes
  let (month, bytes) ← number 2 0 bytes
  let bytes ← char '-' bytes
  let (day, bytes) ← number 2 0 bytes
  let date : Date := ⟨year, month, day⟩
  if !date.exists? then throw .outOfRange
  let bytes ← byte (fun b => b == 'T'.toUInt8 || b == 't'.toUInt8 || b == ' '.toUInt8) bytes
  let (hour, bytes) ← number 2 0 bytes
  let bytes ← char ':' bytes
  let (minute, bytes) ← number 2 0 bytes
  let bytes ← char ':' bytes
  let (second, bytes) ← number 2 0 bytes
  let (nanos, bytes) ← fraction bytes
  match clock? hour minute second nanos with
  | none => throw .outOfRange
  | some (second, nanos) =>
    let (offset, bytes) ← offset bytes
    if !bytes.isEmpty then throw .tooLong
    if 86400 ≤ offset.natAbs then throw .outOfRange
    let local_ := Instant.ofDate date second nanos
    pure ⟨local_.seconds - offset, local_.nanos⟩

end Perdure
