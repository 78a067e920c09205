import Perdure.Text.Digits
import Perdure.Time.Instant

/-!
# Instants as text

An instant is written in universal time with a closing `Z`.  The fraction of the second has three,
six or nine digits, the fewest that are exact, and is left out when it is zero.  Years outside the
four digit range carry a sign.
-/

namespace Perdure

namespace Instant

/-- A year, with a sign when it has no plain four digit form. -/
def yearText (year : Int) : String :=
  if 0 ≤ year ∧ year ≤ 9999 then Text.padded 4 year.toNat
  else if year < 0 then "-" ++ Text.padded 4 year.natAbs
  else "+" ++ Text.padded 4 year.toNat

/-- The fraction of a second, by the fewest of three, six or nine digits. -/
def fractionText (nanos : Nat) : String :=
  if nanos = 0 then ""
  else if nanos % 1000000 = 0 then "." ++ Text.padded 3 (nanos / 1000000)
  else if nanos % 1000 = 0 then "." ++ Text.padded 6 (nanos / 1000)
  else "." ++ Text.padded 9 nanos

/-- The written form of an instant.  A leap second is second 60. -/
def text (t : Instant) : String :=
  let days := t.seconds.fdiv daySeconds
  let date := Date.ofDays days
  let ofDay := (t.seconds - days * daySeconds).toNat
  let leap := billion ≤ t.nanos
  let second := if leap then ofDay % 60 + 1 else ofDay % 60
  let nanos := if leap then t.nanos - billion else t.nanos
  yearText date.year ++ "-" ++ Text.padded 2 date.month ++ "-" ++ Text.padded 2 date.day ++ "T"
    ++ Text.padded 2 (ofDay / 3600) ++ ":" ++ Text.padded 2 (ofDay / 60 % 60) ++ ":"
    ++ Text.padded 2 second ++ fractionText nanos ++ "Z"

end Instant

end Perdure
