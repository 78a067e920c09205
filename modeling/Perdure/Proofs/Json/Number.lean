import Mathlib.Data.List.TakeWhile
import Mathlib.Tactic.IntervalCases
import Perdure.Json.Reader
import Perdure.Proofs.Text.Digits
import Perdure.Proofs.Text.Utf8

/-!
# Words as number literals

A natural number of 64 bits is far below every bound on doubles, so its digits are a literal that
denotes it.

## Main results

* `Binary64.ofRatio_ne_infinite` — a quotient of a number far below `2 ^ 1024` is finite.
* `Json.Magnitude.isFinite_word` — a word is a double.
* `Json.Reader.numberValue_toDigits` — the digits of a word denote the word.
-/

namespace Perdure

/-! ### Doubles -/

namespace Binary64

theorem nearestEven_le (num den : Nat) : nearestEven num den ≤ num / den + 1 := by
  unfold nearestEven
  dsimp only
  split
  · omega
  · split
    · omega
    · split <;> omega

theorem leading_le (num den : Nat) : leading num den ≤ num.log2 := by
  unfold leading
  dsimp only
  split <;> omega

/-- Rounding, with its scales written as powers. -/
theorem ofRatio_eq (num den : Nat) : ofRatio num den =
    if num = 0 ∨ den = 0 then .finite 0 0
    else
      let e := max (leading num den - 52) (-1074)
      let m := if 0 ≤ e then nearestEven num (den * 2 ^ e.toNat)
        else nearestEven (num * 2 ^ (-e).toNat) den
      if 0 ≤ e ∧ 2 ^ 1024 ≤ m * 2 ^ e.toNat then .infinite else .finite m e := rfl

/-- Rounding up a quotient by less than a unit of its last place does not lift it far. -/
theorem ofRatio_ne_infinite {num den : Nat} (h : num < 2 ^ 200) :
    ofRatio num den ≠ .infinite := by
  rw [ofRatio_eq]
  by_cases hz : num = 0 ∨ den = 0
  · rw [if_pos hz]
    exact fun h => by cases h
  · have hnum : num ≠ 0 := fun h => hz (.inl h)
    have hlog : num.log2 < 200 := (Nat.log2_lt hnum).2 h
    have hlead := leading_le num den
    rw [if_neg hz]
    dsimp only
    generalize he : max (leading num den - 52) (-1074) = e
    by_cases hpos : 0 ≤ e
    · -- the exponent is below 200, and so is the bit length of the quotient
      have hle : e.toNat ≤ 200 := by omega
      have hpow : 2 ^ e.toNat ≤ 2 ^ 200 := Nat.pow_le_pow_right (by decide) hle
      have hm := nearestEven_le num (den * 2 ^ e.toNat)
      have hq : num / (den * 2 ^ e.toNat) * 2 ^ e.toNat ≤ num := by
        rw [← Nat.div_div_eq_div_mul]
        exact (Nat.div_mul_le_self _ _).trans (Nat.div_le_self _ _)
      have hprod : nearestEven num (den * 2 ^ e.toNat) * 2 ^ e.toNat ≤
          num / (den * 2 ^ e.toNat) * 2 ^ e.toNat + 2 ^ e.toNat := by
        rw [← Nat.succ_mul]
        exact Nat.mul_le_mul_right _ hm
      have hsmall : nearestEven num (den * 2 ^ e.toNat) * 2 ^ e.toNat ≤ 2 ^ 201 := by omega
      have hlimit := Nat.pow_lt_pow_right (a := 2) (m := 201) (n := 1024) (by decide) (by decide)
      rw [if_pos hpos, if_neg]
      · exact fun h => by cases h
      · rintro ⟨-, hbig⟩
        exact absurd (hbig.trans hsmall) (Nat.not_le.2 hlimit)
    · -- with a negative exponent the quotient is finite, whatever its bits
      rw [if_neg fun h => hpos h.1]
      exact fun h => by cases h

/-- The double nearest to a word. -/
theorem exists_ofRatio_word {n : Nat} (h : n < 2 ^ 64) :
    ∃ m e, ofRatio n 1 = .finite m e ∧ m < 2 ^ 118 ∧ e ≤ 11 := by
  by_cases hz : n = 0
  · exact ⟨0, 0, by simp [ofRatio, hz], by decide, by decide⟩
  · have hfin : ofRatio n 1 ≠ .infinite :=
      ofRatio_ne_infinite (h.trans (by decide : 2 ^ 64 < 2 ^ 200))
    have hlog : n.log2 < 64 := (Nat.log2_lt hz).2 h
    have hlead := leading_le n 1
    -- the leading place is not below -1, so a word is scaled up by 53 places at most
    have hleast : -1 ≤ leading n 1 := by
      unfold leading
      have h1 : Nat.log2 1 = 0 := by decide
      dsimp only
      rw [h1]
      split <;> omega
    rw [ofRatio_eq, if_neg (by simpa using hz)] at hfin ⊢
    dsimp only at hfin ⊢
    generalize he : max (leading n 1 - 52) (-1074) = e at hfin ⊢
    generalize hm : (if 0 ≤ e then nearestEven n (1 * 2 ^ e.toNat)
      else nearestEven (n * 2 ^ (-e).toNat) 1) = m at hfin ⊢
    split at hfin
    · exact absurd rfl hfin
    · next hinf =>
      refine ⟨m, e, if_neg hinf, ?_, by omega⟩
      -- the quotient is the word or less, or it is scaled up by less than its 53 places
      by_cases hpos : 0 ≤ e
      · rw [if_pos hpos] at hm
        have hle := nearestEven_le n (1 * 2 ^ e.toNat)
        have hq := Nat.div_le_self n (1 * 2 ^ e.toNat)
        omega
      · rw [if_neg hpos] at hm
        have hle := nearestEven_le (n * 2 ^ (-e).toNat) 1
        have hpow : 2 ^ (-e).toNat ≤ 2 ^ 53 := Nat.pow_le_pow_right (by decide) (by omega)
        have hprod : n * 2 ^ (-e).toNat ≤ 2 ^ 64 * 2 ^ 53 := Nat.mul_le_mul h.le hpow
        rw [Nat.div_one] at hle
        omega

end Binary64

namespace Json

/-! ### Magnitudes -/

namespace Magnitude

/-- A word, at the power zero, is a double. -/
theorem isFinite_word {n : Nat} (h : n < 2 ^ 64) : isFinite ⟨n, 0⟩ = true := by
  obtain ⟨m, e, he, hm, hle⟩ := Binary64.exists_ofRatio_word h
  have hone : Binary64.ofDecimal 1 0 = .finite (2 ^ 52) (-52) := by decide
  have hprod : m * 2 ^ 52 < 2 ^ 200 :=
    calc m * 2 ^ 52 ≤ 2 ^ 118 * 2 ^ 52 := Nat.mul_le_mul_right _ hm.le
      _ < 2 ^ 200 := by decide
  have hne : (Binary64.ofRatio n 1).mul (Binary64.ofDecimal 1 0) ≠ .infinite := by
    rw [he, hone, Binary64.mul, Binary64.ofScaled, if_neg (by omega)]
    exact Binary64.ofRatio_ne_infinite hprod
  unfold isFinite
  rw [Bool.or_eq_true]
  exact .inr (by simpa using hne)

/-- Digits of a word are all taken in. -/
theorem append_eq {n : Nat} {ds : List Nat}
    (h : ds.foldl (fun n d => 10 * n + d) n < 2 ^ 64) :
    append n ds = (ds.foldl (fun n d => 10 * n + d) n, 0) := by
  have hle (ds : List Nat) (n : Nat) : n ≤ ds.foldl (fun n d => 10 * n + d) n := by
    induction ds generalizing n with
    | nil => exact Nat.le_refl n
    | cons d ds ih => exact (by omega : n ≤ 10 * n + d).trans (ih (10 * n + d))
  induction ds generalizing n with
  | nil => rfl
  | cons d ds ih =>
    rw [List.foldl_cons] at h ⊢
    have hfits : 10 * n + d < UInt64.size := (hle ds _).trans_lt h
    rw [append, if_pos hfits, ih h]

end Magnitude

/-! ### Literals -/

namespace Reader

/-- Digit characters as digit bytes. -/
theorem isDigit_toUInt8 {c : Char} (h : c.isDigit = true) :
    isDigit c.toUInt8 = true ∧ (c.toUInt8 - '0'.toUInt8).toNat = c.toNat - '0'.toNat := by
  rw [Char.isDigit_iff_toNat] at h
  obtain ⟨hlo, hhi⟩ := h
  have hlo : 48 ≤ c.toNat := hlo
  have hhi : c.toNat ≤ 57 := hhi
  have hb : c.toUInt8.toNat = c.toNat := by
    show c.toNat % 256 = _
    omega
  have h0 : '0'.toUInt8.toNat = 48 := rfl
  have h9 : '9'.toUInt8.toNat = 57 := rfl
  constructor
  · simp only [isDigit, Bool.and_eq_true, decide_eq_true_eq, UInt8.le_iff_toNat_le]
    omega
  · rw [UInt8.toNat_sub_of_le _ _ (UInt8.le_iff_toNat_le.2 (by omega)), hb, h0]
    rfl

theorem exists_of_isDigit {b : UInt8} (h : isDigit b = true) :
    ∃ d < 10, b = UInt8.ofNat (48 + d) := by
  simp only [isDigit, Bool.and_eq_true, decide_eq_true_eq, UInt8.le_iff_toNat_le] at h
  have hlo : 48 ≤ b.toNat := h.1
  have hhi : b.toNat ≤ 57 := h.2
  refine ⟨b.toNat - 48, by omega, ?_⟩
  rw [Nat.add_sub_cancel' hlo, UInt8.ofNat_toNat]

/-- A digit is no mark of a literal. -/
theorem ne_mark_of_isDigit {b : UInt8} (h : isDigit b = true) :
    (b == 'e'.toUInt8 || b == 'E'.toUInt8) = false ∧ (b != '.'.toUInt8) = true := by
  obtain ⟨d, hd, rfl⟩ := exists_of_isDigit h
  interval_cases d <;> decide

section

variable {cs : List Char} (h : cs.all Char.isDigit = true)

include h

theorem utf8_of_isDigit : Text.utf8 cs = cs.map Char.toUInt8 := by
  apply Text.utf8_of_ascii
  intro c hc
  have hd := Char.isDigit_iff_toNat.1 (List.all_eq_true.1 h c hc)
  exact hd.2.trans_lt (by decide)

theorem all_isDigit_map : (cs.map Char.toUInt8).all isDigit = true := by
  rw [List.all_map]
  exact List.all_eq_true.2 fun c hc => (isDigit_toUInt8 (List.all_eq_true.1 h c hc)).1

theorem digitsValue_map : digitsValue (cs.map Char.toUInt8) = Nat.ofDigitChars 10 cs 0 := by
  rw [digitsValue, List.foldl_map, Nat.ofDigitChars_eq_foldl]
  refine List.foldl_ext _ _ _ ?_
  intro n c hc
  obtain ⟨hd, hv⟩ := isDigit_toUInt8 (List.all_eq_true.1 h c hc)
  rw [if_pos hd, hv]

theorem digitsOf_map : digitsOf (cs.map Char.toUInt8) = cs.map fun c => c.toNat - '0'.toNat := by
  rw [digitsOf, List.filter_eq_self.2 (List.all_eq_true.1 (all_isDigit_map h)), List.map_map]
  exact List.map_congr_left fun c hc => (isDigit_toUInt8 (List.all_eq_true.1 h c hc)).2

/-- A literal of digits has neither a fraction nor a power. -/
theorem magnitude_map (hn : Nat.ofDigitChars 10 cs 0 < 2 ^ 64) :
    magnitude (cs.map Char.toUInt8) = ⟨Nat.ofDigitChars 10 cs 0, 0⟩ := by
  have hd := List.all_eq_true.1 (all_isDigit_map h)
  -- without a mark of an exponent or of a fraction the digits are the whole literal
  have htake : (cs.map Char.toUInt8).takeWhile
      (fun b => !(b == 'e'.toUInt8 || b == 'E'.toUInt8)) = cs.map Char.toUInt8 :=
    List.takeWhile_eq_self_iff.2 fun b hb => by rw [(ne_mark_of_isDigit (hd b hb)).1]; rfl
  have hdrop : (cs.map Char.toUInt8).dropWhile
      (fun b => !(b == 'e'.toUInt8 || b == 'E'.toUInt8)) = [] :=
    List.dropWhile_eq_nil_iff.2 fun b hb => by rw [(ne_mark_of_isDigit (hd b hb)).1]; rfl
  have hwhole : (cs.map Char.toUInt8).takeWhile (· != '.'.toUInt8) = cs.map Char.toUInt8 :=
    List.takeWhile_eq_self_iff.2 fun b hb => (ne_mark_of_isDigit (hd b hb)).2
  have hfraction : (cs.map Char.toUInt8).dropWhile (· != '.'.toUInt8) = [] :=
    List.dropWhile_eq_nil_iff.2 fun b hb => (ne_mark_of_isDigit (hd b hb)).2
  have hvalue : (cs.map fun c => c.toNat - '0'.toNat).foldl (fun n d => 10 * n + d) 0 =
      Nat.ofDigitChars 10 cs 0 := by
    rw [List.foldl_map, Nat.ofDigitChars_eq_foldl]
  have hall := Magnitude.append_eq (n := 0) (by rw [hvalue]; exact hn)
  unfold magnitude
  simp only [htake, hdrop, hwhole, hfraction, digitsOf_map h]
  unfold Magnitude.ofDigits
  rw [hall, hvalue]
  rfl

end

/-- The digits of a word denote the word. -/
theorem numberValue_toDigits {n : Nat} (h : n < 2 ^ 64) :
    numberValue (Text.utf8 (Nat.toDigits 10 n)).reverse = .nat n := by
  have hd := Text.all_isDigit_toDigits n
  have hv : Nat.ofDigitChars 10 (Nat.toDigits 10 n) 0 = n := Nat.ofDigitChars_ten_toDigits
  have hm := magnitude_map hd (by rw [hv]; exact h)
  rw [numberValue, List.reverse_reverse, utf8_of_isDigit hd, hm, hv, Magnitude.isFinite_word h,
    all_isDigit_map hd, digitsValue_map hd, hv]
  rfl

end Reader

end Json

end Perdure
