import Perdure.Proofs.Time.Strict

/-!
# Stored timestamps denote valid instants

However leniently a stored timestamp is read, the instant that it denotes is valid: the digits of a
fraction make less than a second, and an offset is a number of minutes.

## Main results

* `Instant.valid_of_ofStored?` — a stored timestamp denotes a valid instant.
-/

namespace Perdure

namespace Timestamp

theorem value_lt_of_digit? {c : Char} {d : Nat} (h : Text.digit? c = some d) : d < 10 := by
  unfold Text.digit? at h
  split at h
  · next hc =>
    cases h
    have hhi : c.toNat ≤ 57 := (Char.isDigit_iff_toNat.1 hc).2
    have h0 : '0'.toNat = 48 := rfl
    omega
  · cases h

theorem looseFraction_lt {cs rest : List Char} {nanos : Nat}
    (h : looseFraction cs = some (nanos, rest)) : nanos < Instant.billion := by
  unfold looseFraction at h
  split at h
  · dsimp only at h
    split at h
    · cases h
    · cases h
      refine nanosOf_lt fun d hd => ?_
      obtain ⟨c, -, hc⟩ := List.mem_filterMap.1 hd
      exact value_lt_of_digit? hc
  · cases h
    decide

theorem emod_looseOffsetAfter {sign o : Int} {cs rest : List Char}
    (h : looseOffsetAfter sign cs = some (o, rest)) : o % 60 = 0 := by
  unfold looseOffsetAfter at h
  split at h
  · obtain ⟨hours, -, h⟩ := Option.bind_eq_some_iff.1 h
    obtain ⟨low, -, h⟩ := Option.bind_eq_some_iff.1 h
    split at h
    · obtain ⟨minutes, -, h⟩ := Option.bind_eq_some_iff.1 h
      obtain ⟨ml, -, h⟩ := Option.bind_eq_some_iff.1 h
      split at h
      · cases h
      · cases h
        have hminutes : (10 * hours + low) * 3600 + (10 * minutes + ml) * 60 =
            60 * ((10 * hours + low) * 60 + (10 * minutes + ml)) := by omega
        rw [hminutes, Int.natCast_mul, Int.mul_left_comm]
        exact Int.mul_emod_right _ _
    · cases h
  · cases h

/-- An offset is a number of minutes. -/
theorem emod_looseOffset {cs rest : List Char} {o : Int} (h : looseOffset cs = some (o, rest)) :
    o % 60 = 0 := by
  unfold looseOffset at h
  split at h
  · cases h
    rfl
  · split at h
    · cases h
      rfl
    · cases h
      rfl
    · exact emod_looseOffsetAfter h
    · exact emod_looseOffsetAfter h
    · exact emod_looseOffsetAfter h
    · cases h

end Timestamp

open Timestamp in
/-- A stored timestamp denotes a valid instant. -/
theorem Instant.valid_of_ofStored? {s : String} {t : Instant} (h : ofStored? s = some t) :
    t.Valid := by
  unfold ofStored? at h
  obtain ⟨⟨year, cs⟩, -, h⟩ := Option.bind_eq_some_iff.1 h
  obtain ⟨cs, -, h⟩ := Option.bind_eq_some_iff.1 h
  obtain ⟨⟨month, cs⟩, -, h⟩ := Option.bind_eq_some_iff.1 h
  obtain ⟨cs, -, h⟩ := Option.bind_eq_some_iff.1 h
  obtain ⟨⟨day, cs⟩, -, h⟩ := Option.bind_eq_some_iff.1 h
  obtain ⟨cs, -, h⟩ := Option.bind_eq_some_iff.1 h
  obtain ⟨⟨hour, cs⟩, -, h⟩ := Option.bind_eq_some_iff.1 h
  obtain ⟨cs, -, h⟩ := Option.bind_eq_some_iff.1 h
  obtain ⟨⟨minute, cs⟩, -, h⟩ := Option.bind_eq_some_iff.1 h
  obtain ⟨cs, -, h⟩ := Option.bind_eq_some_iff.1 h
  obtain ⟨⟨second, cs⟩, -, h⟩ := Option.bind_eq_some_iff.1 h
  obtain ⟨⟨nanos, cs⟩, hnanos, h⟩ := Option.bind_eq_some_iff.1 h
  obtain ⟨⟨offset, cs⟩, hoffset, h⟩ := Option.bind_eq_some_iff.1 h
  have hnanos := looseFraction_lt hnanos
  have hoffset := emod_looseOffset hoffset
  dsimp only at h hnanos hoffset
  split at h
  · cases h
  · split at h
    · cases h
    · obtain ⟨⟨s, n⟩, hclock, h⟩ := Option.bind_eq_some_iff.1 h
      obtain ⟨-, hleap⟩ := second_of_clock? hclock hnanos
      split at h
      · next hrange =>
        cases h
        refine ⟨(Bool.and_eq_true_iff.1 hrange).2, ?_⟩
        have hday : (daySeconds : Int) = 86400 := rfl
        dsimp only [ofDate] at hleap ⊢
        rw [hday]
        omega
      · cases h

end Perdure
