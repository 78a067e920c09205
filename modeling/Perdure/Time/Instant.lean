import Perdure.Time.Calendar

/-!
# Instants

An instant is a second of universal time and the nanoseconds passed in it.  A leap second has no
number of its own: it is the second billion of nanoseconds of the second before it, which keeps
instants in order.

## Main definitions

* `Instant` — a point in time.
* `Instant.ofDate` — the instant of a date, a second of the day and nanoseconds.
* `Instant.addNanos?`, `Instant.add?` — the instant some nanoseconds or milliseconds later, unless
  it leaves the range.
* `Instant.nanosUntil` — how long it is until an instant.
* `Instant.inRange` — the range of instants: the years -262143 to 262142.
-/

namespace Perdure

/-- A point in time. -/
structure Instant where
  /-- Seconds from 1970-01-01T00:00:00Z. -/
  seconds : Int
  /-- Nanoseconds within the second; a billion or more within a leap second. -/
  nanos : Nat
deriving DecidableEq, Repr, Inhabited

namespace Instant

/-- Nanoseconds of a second. -/
def billion : Nat := 1000000000

/-- Instants in order of time. -/
instance : Ord Instant := ⟨compareLex (compareOn (·.seconds)) (compareOn (·.nanos))⟩

/-- Is `a` no later than `b`? -/
def isAtMost (a b : Instant) : Bool := (compare a b).isLE

/-- The later of two instants. -/
def latest (a b : Instant) : Instant := if a.isAtMost b then b else a

/-- Seconds of a day. -/
def daySeconds : Nat := 86400

/-- The first second of the range of instants. -/
def firstSecond : Int := Date.toDays ⟨-262143, 1, 1⟩ * daySeconds

/-- The last second of the range of instants. -/
def lastSecond : Int := Date.toDays ⟨262142, 12, 31⟩ * daySeconds + (daySeconds - 1)

/-- Does the instant lie within the years -262143 to 262142? -/
def inRange (t : Instant) : Bool := firstSecond ≤ t.seconds && t.seconds ≤ lastSecond

/-- The instant of a date at a second of the day. -/
def ofDate (date : Date) (second nanos : Nat) : Instant :=
  ⟨date.toDays * daySeconds + second, nanos⟩

/-- The sum of an instant and whole seconds plus a fraction of the same sign.  Leaving a leap
second, the fraction within it counts on from the second it is entered by. -/
def shift (t : Instant) (seconds fraction : Int) : Instant :=
  let carried (s : Int) (n : Int) : Instant :=
    let s := s + seconds
    let n := n + fraction
    if n < 0 then ⟨s - 1, (n + billion).toNat⟩
    else if billion ≤ n then ⟨s + 1, (n - billion).toNat⟩
    else ⟨s, n.toNat⟩
  if t.nanos < billion then carried t.seconds t.nanos
  else if 0 < seconds ∨ (0 < fraction ∧ 2 * billion ≤ t.nanos + fraction) then
    carried t.seconds (t.nanos - billion)
  else if seconds < 0 then carried (t.seconds + 1) (t.nanos - billion)
  else ⟨t.seconds, (t.nanos + fraction).toNat⟩

/-- The instant some nanoseconds later, or earlier if they are negative; `none` outside the
range. -/
def addNanos? (t : Instant) (nanos : Int) : Option Instant :=
  let later := t.shift (nanos.tdiv billion) (nanos.tmod billion)
  if later.inRange then some later else none

/-- The instant some milliseconds later, or earlier if they are negative; `none` outside the
range. -/
def add? (t : Instant) (millis : Int) : Option Instant := t.addNanos? (millis * 1000000)

/-- The nanoseconds from one instant to another, none if that is past.  A leap second counts only
where the clock is set back over it. -/
def nanosUntil (a b : Instant) : Nat :=
  let clock (t : Instant) : Int := t.seconds % daySeconds
  let leap : Int :=
    if clock a < clock b ∧ billion ≤ a.nanos then 1
    else if clock b < clock a ∧ billion ≤ b.nanos then -1
    else 0
  ((b.seconds - a.seconds + leap) * billion + (b.nanos - a.nanos)).toNat

end Instant

end Perdure
