import Perdure.Text.Blank
import Perdure.Text.Digits
import Perdure.Time.Strict

/-!
# Timestamps read leniently

Stored instants are read by a wider grammar than `Instant.ofTimestamp`: blanks may stand before
each part, numbers need no leading zeros, a signed year may have any number of digits, and the
offset may be `UTC` in any case or leave out its colon.
-/

namespace Perdure

namespace Timestamp

/-- Read a number of one to `most` digits after any blanks. -/
def looseNumber (most : Nat) (cs : List Char) : Option (Nat × List Char) :=
  let cs := Text.trimStart cs
  let ds := (cs.take most).takeWhile Char.isDigit
  if ds.isEmpty then none else some (Text.ofDigits (ds.filterMap Text.digit?), cs.drop ds.length)

/-- Read a year: four digits at most, or a sign and any number of digits. -/
def looseYear (cs : List Char) : Option (Int × List Char) :=
  let signed (rest : List Char) : Option (Nat × List Char) :=
    let ds := rest.takeWhile Char.isDigit
    if ds.isEmpty then none
    else some (Text.ofDigits (ds.filterMap Text.digit?), rest.drop ds.length)
  match Text.trimStart cs with
  | '-' :: rest => (signed rest).map fun (n, rest) => (-(n : Int), rest)
  | '+' :: rest => (signed rest).map fun (n, rest) => ((n : Int), rest)
  | cs => (looseNumber 4 cs).map fun (n, rest) => ((n : Int), rest)

/-- Read the given character after any blanks. -/
def looseChar (c : Char) (cs : List Char) : Option (List Char) :=
  match Text.trimStart cs with
  | d :: rest => if c = d then some rest else none
  | [] => none

/-- Read the fraction of a second, if there is one. -/
def looseFraction : List Char → Option (Nat × List Char)
  | '.' :: rest =>
    let ds := rest.takeWhile Char.isDigit
    if ds.isEmpty then none
    else some (nanosOf (ds.filterMap Text.digit?), rest.drop ds.length)
  | cs => some (0, cs)

/-- Read hours and minutes of an offset, with colons and blanks between them. -/
def looseOffsetAfter (sign : Int) (cs : List Char) : Option (Int × List Char) :=
  match cs with
  | a :: b :: rest => do
    let h ← Text.digit? a
    let l ← Text.digit? b
    match rest.dropWhile fun c => c = ':' || Text.isBlank c with
    | c :: d :: rest =>
      let mh ← Text.digit? c
      let ml ← Text.digit? d
      if 6 ≤ mh then none
      else some (sign * ((10 * h + l) * 3600 + (10 * mh + ml) * 60 : Nat), rest)
    | _ => none
  | _ => none

/-- Read an offset from universal time, in seconds. -/
def looseOffset (cs : List Char) : Option (Int × List Char) :=
  if (cs.take 3).map Char.toUpper = ['U', 'T', 'C'] then some (0, cs.drop 3)
  else match cs with
    | 'Z' :: rest | 'z' :: rest => some (0, rest)
    | '+' :: rest => looseOffsetAfter 1 rest
    | '-' :: rest | '\u2212' :: rest => looseOffsetAfter (-1) rest
    | _ => none

/-- Read the letter or blank between date and time. -/
def looseMark : List Char → Option (List Char)
  | 't' :: rest | 'T' :: rest | ' ' :: rest => some rest
  | _ => none

end Timestamp

open Timestamp in
/-- The instant that a stored timestamp denotes. -/
def Instant.ofStored? (s : String) : Option Instant := do
  let (year, cs) ← looseYear s.toList
  let cs ← looseChar '-' cs
  let (month, cs) ← looseNumber 2 cs
  let cs ← looseChar '-' cs
  let (day, cs) ← looseNumber 2 cs
  let cs ← looseMark cs
  let (hour, cs) ← looseNumber 2 cs
  let cs ← looseChar ':' cs
  let (minute, cs) ← looseNumber 2 cs
  let cs ← looseChar ':' cs
  let (second, cs) ← looseNumber 2 cs
  let (nanos, cs) ← looseFraction cs
  let (offset, cs) ← looseOffset (Text.trimStart cs)
  if !(Text.trimStart cs).isEmpty then none
  let date : Date := ⟨year, month, day⟩
  if !date.exists? || 86400 ≤ offset.natAbs then none
  let (second, nanos) ← clock? hour minute second nanos
  let here := Instant.ofDate date second nanos
  let t : Instant := ⟨here.seconds - offset, here.nanos⟩
  if here.inRange && t.inRange then some t else none

end Perdure
