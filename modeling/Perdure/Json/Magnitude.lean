import Perdure.Binary64

/-!
# Magnitudes of number literals

A literal is held as leading digits that fit a 64-bit word and a power of ten: a digit before the
point that no longer fits raises the power, one behind the point is passed over.  The amount is
then computed in doubles, from the one nearest to the digits and the one nearest to the power of
ten, and a literal for which that product is infinite denotes no number.  This also leaves out some
literals just below `2 ^ 1024` that have a double near them.

## Main definitions

* `Json.Magnitude` — leading digits and a power of ten.
* `Json.Magnitude.ofDigits` — the magnitude of the digits of a literal.
* `Json.Magnitude.isFinite` — is the amount a double?
-/

namespace Perdure

namespace Json

/-- The amount `digits · 10 ^ power`. -/
structure Magnitude where
  digits : Nat
  power : Int
deriving DecidableEq, Repr

namespace Magnitude

/-- Write digits behind a number for as long as the result fits a word; also the number of digits
that are left over. -/
def append (n : Nat) : List Nat → Nat × Nat
  | [] => (n, 0)
  | d :: ds => if 10 * n + d < UInt64.size then append (10 * n + d) ds else (n, ds.length + 1)

/-- The magnitude of the digits before the point, those behind it and a power of ten. -/
def ofDigits (whole fraction : List Nat) (power : Int) : Magnitude :=
  let (high, raised) := append 0 whole
  let (digits, dropped) := append high fraction
  { digits, power := power + raised + dropped - fraction.length }

/-- Is the amount a double?  Zero is, and so is a word that is scaled down. -/
def isFinite (x : Magnitude) : Bool :=
  x.digits == 0 || x.power < 0 ||
    (Binary64.ofRatio x.digits 1).mul (Binary64.ofDecimal 1 x.power) != .infinite

end Magnitude

end Json

end Perdure
