import Perdure.Expression
import Perdure.Proofs.Failure
import Perdure.Proofs.Time.Stored

/-!
# Timestamps denote valid instants

A timestamp has a year of four digits, an hour, a minute and a second that the clock can show, and
an offset of whole minutes.  So the instant that it denotes lies within the range, and a leap second
is the last second of a minute, also after the offset is taken off.

## Main results

* `Timestamp.number_lt`, `Timestamp.fraction_lt`, `Timestamp.emod_offset` — the parts of a timestamp.
* `Instant.valid_ofTimestamp` — a timestamp denotes a valid instant.
* `Evaluator.valid_literal`, `Evaluator.valid_raising` — deadlines that are timestamps are valid.
-/

namespace Perdure

namespace Timestamp

open Instant (billion)

/-! ### Parts of a timestamp -/

theorem digit?_lt {b : UInt8} {d : Nat} (h : digit? b = some d) : d < 10 := by
  unfold digit? at h
  split at h
  · next hb =>
    cases h
    obtain ⟨hlo, hhi⟩ := hb
    have hlo : 48 ≤ b.toNat := hlo
    have hhi : b.toNat ≤ 57 := hhi
    have hsub : (b - '0'.toUInt8).toNat = b.toNat - 48 := UInt8.toNat_sub_of_le b _ hlo
    rw [hsub]
    omega
  · cases h

/-- A number of so many digits lies below the power of ten. -/
theorem number_lt {count acc k n : Nat} {bytes rest : List UInt8}
    (h : number count acc bytes = .ok (n, rest)) (hacc : acc < 10 ^ k) : n < 10 ^ (k + count) := by
  induction count generalizing acc k bytes with
  | zero =>
    cases h
    exact hacc
  | succ count ih =>
    cases bytes with
    | nil => cases h
    | cons b bytes =>
      rw [number] at h
      split at h
      · next d hd =>
        have hlt := digit?_lt hd
        have hpow : 10 ^ (k + 1) = 10 * 10 ^ k := by rw [Nat.pow_succ, Nat.mul_comm]
        have hnext : 10 * acc + d < 10 ^ (k + 1) := by omega
        have hn := ih h hnext
        rw [Nat.add_assoc, Nat.add_comm 1 count] at hn
        exact hn
      · cases h

theorem foldl_digits_lt {ds : List Nat} (h : ∀ d ∈ ds, d < 10) {acc k : Nat} (hacc : acc < 10 ^ k) :
    ds.foldl (fun n d => 10 * n + d) acc < 10 ^ (k + ds.length) := by
  induction ds generalizing acc k with
  | nil => exact hacc
  | cons d ds ih =>
    have hlt := h d List.mem_cons_self
    have hpow : 10 ^ (k + 1) = 10 * 10 ^ k := by rw [Nat.pow_succ, Nat.mul_comm]
    have hnext : 10 * acc + d < 10 ^ (k + 1) := by omega
    have hn := ih (fun d' hd' => h d' (List.mem_cons_of_mem _ hd')) hnext
    rw [Nat.add_assoc, Nat.add_comm 1] at hn
    exact hn

/-- The nine digits that count make less than a second. -/
theorem nanosOf_lt {ds : List Nat} (h : ∀ d ∈ ds, d < 10) : nanosOf ds < billion := by
  have hlength : (ds.take 9).length ≤ 9 := List.length_take_le 9 ds
  have hdigits : ∀ d ∈ ds.take 9, d < 10 := fun d hd => h d (List.mem_of_mem_take hd)
  have hfold := foldl_digits_lt hdigits (show 0 < 10 ^ 0 by decide)
  rw [Nat.zero_add] at hfold
  have hscaled := Nat.mul_lt_mul_of_pos_right hfold (Nat.pow_pos (n := 9 - (ds.take 9).length)
    (show 0 < 10 by decide))
  rw [← Nat.pow_add, Nat.add_sub_cancel' hlength] at hscaled
  exact hscaled

theorem fraction_lt {bytes rest : List UInt8} {nanos : Nat} (h : fraction bytes = .ok (nanos, rest)) :
    nanos < billion := by
  have hzero : 0 < billion := by decide
  unfold fraction at h
  split at h
  · cases h
    exact hzero
  · split at h
    · cases h
      exact hzero
    · split at h
      · cases h
      · simp only at h
        split at h
        · cases h
        · cases h
          apply nanosOf_lt
          intro d hd
          obtain ⟨b, -, hb⟩ := List.mem_filterMap.1 hd
          exact digit?_lt hb

/-- The clock shows a second of the day; a leap second is the last second of its minute. -/
theorem second_of_clock? {hour minute second nanos s n : Nat}
    (h : clock? hour minute second nanos = some (s, n)) (hn : nanos < billion) :
    s < 86400 ∧ (n < billion ∨ n < 2 * billion ∧ s % 60 = 59) := by
  unfold clock? at h
  split at h
  · cases h
  · split at h
    · cases h
      omega
    · cases h
      omega

theorem emod_hoursAndMinutes {sign o : Int} {bytes rest : List UInt8}
    (h : hoursAndMinutes sign bytes = .ok (o, rest)) : o % 60 = 0 := by
  obtain ⟨⟨hours, bytes₁⟩, -, h⟩ := exists_of_bind_eq_ok h
  obtain ⟨bytes₂, -, h⟩ := exists_of_bind_eq_ok h
  obtain ⟨⟨minutes, bytes₃⟩, -, h⟩ := exists_of_bind_eq_ok h
  cases h
  have hminutes : hours * 3600 + minutes * 60 = 60 * (hours * 60 + minutes) := by omega
  rw [hminutes, Int.natCast_mul, Int.mul_left_comm]
  exact Int.mul_emod_right _ _

/-- An offset is a number of minutes. -/
theorem emod_offset {bytes rest : List UInt8} {o : Int} (h : offset bytes = .ok (o, rest)) :
    o % 60 = 0 := by
  unfold offset at h
  split at h
  · cases h
  · exact emod_hoursAndMinutes h
  · split at h
    · cases h
      rfl
    · split at h
      · exact emod_hoursAndMinutes h
      · split at h
        · exact emod_hoursAndMinutes h
        · cases h

end Timestamp

/-! ### Timestamps -/

theorem Date.monthLength_le (year : Int) (month : Nat) : monthLength year month ≤ 31 := by
  unfold monthLength
  cases isLeapYear year <;> split <;> decide

/-- The dates of years with four digits lie far within the range. -/
theorem Date.toDays_mem {d : Date} (hyear : 0 ≤ d.year ∧ d.year < 10000)
    (hd : d.exists? = true) : -1000000 ≤ d.toDays ∧ d.toDays ≤ 4000000 := by
  obtain ⟨year, month, day⟩ := d
  have hday : day ≤ 31 := by
    simp only [exists?, Bool.and_eq_true, decide_eq_true_eq] at hd
    exact hd.2.trans (monthLength_le year month)
  have hyear : 0 ≤ year ∧ year < 10000 := hyear
  simp only [toDays, marchOrigin, cycleDays]
  have hy : -1 ≤ (if month ≤ 2 then year - 1 else year) ∧
      (if month ≤ 2 then year - 1 else year) < 10000 := by
    split <;> omega
  generalize (if month ≤ 2 then year - 1 else year) = y at hy ⊢
  rw [Int.fdiv_eq_ediv_of_nonneg y (by decide)]
  omega

namespace Instant

/-- A timestamp is a date, a clock time that the clock can show, and an offset of minutes. -/
theorem exists_of_ofTimestamp {bytes : List UInt8} {t : Instant} (h : ofTimestamp bytes = .ok t) :
    ∃ (date : Date) (second nanos : Nat) (offset : Int),
      (0 ≤ date.year ∧ date.year < 10000) ∧ date.exists? = true ∧ second < 86400 ∧
      (nanos < billion ∨ nanos < 2 * billion ∧ second % 60 = 59) ∧
      offset % 60 = 0 ∧ offset.natAbs < 86400 ∧
      t = ⟨date.toDays * daySeconds + second - offset, nanos⟩ := by
  simp only [ofTimestamp] at h
  split at h
  · cases h
  -- the text is read from left to right, and each part that is read was in its range
  obtain ⟨⟨year, _⟩, hyear, h⟩ := exists_of_bind_eq_ok h
  obtain ⟨_, -, h⟩ := exists_of_bind_eq_ok h
  obtain ⟨⟨month, _⟩, -, h⟩ := exists_of_bind_eq_ok h
  obtain ⟨_, -, h⟩ := exists_of_bind_eq_ok h
  obtain ⟨⟨day, _⟩, -, h⟩ := exists_of_bind_eq_ok h
  split at h
  · cases h
  next hdate =>
  obtain ⟨_, -, h⟩ := exists_of_bind_eq_ok h
  obtain ⟨⟨hour, _⟩, -, h⟩ := exists_of_bind_eq_ok h
  obtain ⟨_, -, h⟩ := exists_of_bind_eq_ok h
  obtain ⟨⟨minute, _⟩, -, h⟩ := exists_of_bind_eq_ok h
  obtain ⟨_, -, h⟩ := exists_of_bind_eq_ok h
  obtain ⟨⟨second, _⟩, -, h⟩ := exists_of_bind_eq_ok h
  obtain ⟨⟨nanos, _⟩, hnanos, h⟩ := exists_of_bind_eq_ok h
  split at h
  · cases h
  next s n hclock =>
  obtain ⟨⟨offset, _⟩, hoffset, h⟩ := exists_of_bind_eq_ok h
  split at h
  · cases h
  split at h
  · cases h
  next hlimit =>
  cases h
  obtain ⟨hsecond, hn⟩ := Timestamp.second_of_clock? hclock (Timestamp.fraction_lt hnanos)
  have hlt : year < 10000 := Timestamp.number_lt (k := 0) hyear (by decide)
  have hrange : 0 ≤ (year : Int) ∧ (year : Int) < 10000 := by omega
  have hexists : (⟨year, month, day⟩ : Date).exists? = true := by simpa using hdate
  exact ⟨⟨year, month, day⟩, s, n, offset, hrange, hexists, hsecond, hn,
    Timestamp.emod_offset hoffset, Nat.lt_of_not_le hlimit, rfl⟩

/-- A timestamp denotes a valid instant. -/
theorem valid_ofTimestamp {bytes : List UInt8} {t : Instant} (h : ofTimestamp bytes = .ok t) :
    t.Valid := by
  obtain ⟨date, second, nanos, offset, hyear, hdate, hsecond, hn, hminutes, hoffset, rfl⟩ :=
    exists_of_ofTimestamp h
  obtain ⟨hlo, hhi⟩ := Date.toDays_mem hyear hdate
  have hfirst : firstSecond = -8334601228800 := by decide
  have hlast : lastSecond = 8210266876799 := by decide
  have hday : (daySeconds : Int) = 86400 := rfl
  constructor
  · simp only [inRange, hfirst, hlast, hday, Bool.and_eq_true, decide_eq_true_eq]
    omega
  · refine hn.imp_right ?_
    rintro ⟨hlt, hleap⟩
    refine ⟨hlt, ?_⟩
    rw [hday]
    show (date.toDays * 86400 + second - offset) % 60 = 59
    omega

end Instant

namespace Evaluator

/-- A deadline that is a timestamp is valid. -/
theorem valid_literal {expression : String} {t : Instant}
    (h : literal.deadline expression = .ok t) : t.Valid := by
  have hmap : (Instant.ofTimestamp
      (String.ofList (Text.trim expression.toList)).toUTF8.toList).mapError
        (fun e => EvaluationFailure.invalid ⟨expression, .timestamp e⟩) = .ok t := h
  cases ht : Instant.ofTimestamp (String.ofList (Text.trim expression.toList)).toUTF8.toList with
  | error e =>
    rw [ht] at hmap
    cases hmap
  | ok u =>
    rw [ht] at hmap
    cases hmap
    exact Instant.valid_ofTimestamp ht

/-- An evaluator that also raises faults names no other deadlines. -/
theorem valid_raising {base : Evaluator}
    (hbase : ∀ {expression t}, base.deadline expression = .ok t → t.Valid) {expression : String}
    {t : Instant} (h : (raising base).deadline expression = .ok t) : t.Valid := by
  simp only [raising] at h
  split at h
  · cases h
  · exact hbase h

end Evaluator

end Perdure
