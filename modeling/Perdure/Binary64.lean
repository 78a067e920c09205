/-!
# Double precision magnitudes

Decimal amounts are read to the nearest IEEE 754 double, halves going to the even neighbour, and
scaled by whole factors in the same arithmetic.  A magnitude is kept as an exact `m · 2 ^ e`, so
every rounding is a statement on natural numbers.

## Main definitions

* `Binary64` — a non-negative double: zero, `m · 2 ^ e`, or infinity.
* `Binary64.ofRatio` — the double nearest to a quotient of natural numbers.
* `Binary64.ofDecimal` — the double nearest to `d · 10 ^ e`.
* `Binary64.scale`, `Binary64.mul` — the product with a natural number and with a double, each
  rounded once.
* `Binary64.round` — the nearest natural number, halves going up.
-/

namespace Perdure

/-- A non-negative double. -/
inductive Binary64 where
  /-- The number `m · 2 ^ e`. -/
  | finite (m : Nat) (e : Int)
  /-- A magnitude of `2 ^ 1024` or more. -/
  | infinite
deriving DecidableEq, Repr

namespace Binary64

/-- The whole number nearest to `num / den`, the even one of two equally near. -/
def nearestEven (num den : Nat) : Nat :=
  let q := num / den
  let twice := 2 * (num % den)
  if twice < den then q
  else if den < twice then q + 1
  else if q % 2 = 0 then q else q + 1

/-- The exponent of the leading bit of `num / den`. -/
def leading (num den : Nat) : Int :=
  let k : Int := num.log2 - den.log2
  let below := if 0 ≤ k then num < den * Nat.pow 2 k.toNat else num * Nat.pow 2 (-k).toNat < den
  if below then k - 1 else k

/-- The double nearest to `num / den`: 53 significant bits, no bit below `2 ^ -1074`. -/
def ofRatio (num den : Nat) : Binary64 :=
  if num = 0 ∨ den = 0 then .finite 0 0
  else
    let e := max (leading num den - 52) (-1074)
    let m := if 0 ≤ e then nearestEven num (den * Nat.pow 2 e.toNat)
      else nearestEven (num * Nat.pow 2 (-e).toNat) den
    if 0 ≤ e ∧ Nat.pow 2 1024 ≤ m * Nat.pow 2 e.toNat then .infinite else .finite m e

/-- The number of decimal digits. -/
def width (d : Nat) : Nat := (Nat.toDigits 10 d).length

/-- The double nearest to `d · 10 ^ e`.  Amounts far outside the range are settled by their size
alone. -/
def ofDecimal (d : Nat) (e : Int) : Binary64 :=
  if d = 0 then .finite 0 0
  else if 400 < e + width d then .infinite
  else if e + width d < -400 then .finite 0 0
  else if 0 ≤ e then ofRatio (d * Nat.pow 10 e.toNat) 1
  else ofRatio d (Nat.pow 10 (-e).toNat)

/-- The double nearest to `m · 2 ^ e`. -/
def ofScaled (m : Nat) (e : Int) : Binary64 :=
  if 0 ≤ e then ofRatio (m * Nat.pow 2 e.toNat) 1 else ofRatio m (Nat.pow 2 (-e).toNat)

/-- The product with a natural number. -/
def scale (x : Binary64) (k : Nat) : Binary64 :=
  match x with
  | .infinite => .infinite
  | .finite m e => ofScaled (m * k) e

/-- The product of two doubles; with infinity it is infinite. -/
def mul (x y : Binary64) : Binary64 :=
  match x, y with
  | .finite m e, .finite n f => ofScaled (m * n) (e + f)
  | _, _ => .infinite

/-- The nearest natural number, halves going up; `none` for infinity. -/
def round : Binary64 → Option Nat
  | .infinite => none
  | .finite m e =>
    if 0 ≤ e then some (m * Nat.pow 2 e.toNat)
    else
      let unit := Nat.pow 2 (-e).toNat
      some ((2 * m + unit) / (2 * unit))

/-- Is the magnitude above the natural number `n`? -/
def above (x : Binary64) (n : Nat) : Bool :=
  match x with
  | .infinite => true
  | .finite m e => if 0 ≤ e then n < m * Nat.pow 2 e.toNat else n * Nat.pow 2 (-e).toNat < m

end Binary64

end Perdure
