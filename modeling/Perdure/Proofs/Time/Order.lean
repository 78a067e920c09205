import Mathlib.Algebra.Order.Ring.Int
import Mathlib.Tactic.SplitIfs
import Perdure.Time.Instant

/-!
# The order of instants

Instants are ordered by their seconds and then by their nanoseconds, and a leap second is no
exception: what lies some positive time after an instant is later than it.

## Main results

* `Instant.isAtMost_iff` — the order, field by field.
* `Instant.isAtMost_eq_false_of_addNanos?` — a positive time leads to a later instant.
-/

namespace Perdure

namespace Instant

theorem isAtMost_iff {a b : Instant} : a.isAtMost b = true ↔
    a.seconds < b.seconds ∨ a.seconds = b.seconds ∧ a.nanos ≤ b.nanos := by
  show ((compare a.seconds b.seconds).then (compare a.nanos b.nanos)).isLE = true ↔ _
  rw [Ordering.isLE_then_iff_or, Int.compare_eq_lt, Int.compare_eq_eq, Nat.isLE_compare]

theorem isAtMost_trans {a b c : Instant} (hab : a.isAtMost b = true) (hbc : b.isAtMost c = true) :
    a.isAtMost c = true := by
  rw [isAtMost_iff] at *
  omega

theorem isAtMost_total {a b : Instant} : (a.isAtMost b || b.isAtMost a) = true := by
  rw [Bool.or_eq_true, isAtMost_iff, isAtMost_iff]
  omega

/-- Instants of which neither is later than the other are equal. -/
theorem eq_of_isAtMost {a b : Instant} (hab : a.isAtMost b = true) (hba : b.isAtMost a = true) :
    a = b := by
  rw [isAtMost_iff] at hab hba
  rw [Instant.mk.injEq]
  omega

/-- A shift by a positive time leads to a later instant. -/
theorem isAtMost_shift_eq_false {t : Instant} {seconds fraction : Int} (hs : 0 ≤ seconds) (hf : 0 ≤ fraction)
    (hpos : 0 < seconds ∨ 0 < fraction) : (t.shift seconds fraction).isAtMost t = false := by
  rw [← Bool.not_eq_true, isAtMost_iff]
  have hb : billion = 1000000000 := rfl
  unfold shift
  dsimp only
  split_ifs <;> dsimp only <;> omega

/-- An instant some positive time after another one is later. -/
theorem isAtMost_eq_false_of_addNanos? {t u : Instant} {nanos : Int} (hn : 0 < nanos)
    (hu : t.addNanos? nanos = some u) : u.isAtMost t = false := by
  have hs : 0 ≤ nanos.tdiv billion := Int.tdiv_nonneg hn.le (Int.natCast_nonneg _)
  have hf : 0 ≤ nanos.tmod billion := Int.tmod_nonneg _ hn.le
  have hsum := Int.mul_tdiv_add_tmod nanos billion
  unfold addNanos? at hu
  dsimp only at hu
  split_ifs at hu
  cases hu
  refine isAtMost_shift_eq_false hs hf ?_
  by_contra hzero
  rw [show nanos.tdiv billion = 0 by omega] at hsum
  omega

end Instant

end Perdure
