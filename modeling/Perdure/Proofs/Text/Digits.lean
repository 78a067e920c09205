import Mathlib.Algebra.Group.Nat.Defs
import Perdure.Text.Digits

/-!
# Decimal numbers as text

What decimal digits denote, and that the digits of a number denote the number.  A written number
has no leading zero unless it is zero, or unless it was padded.

## Main results

* `Text.ofDigits_digit?` — digits are read like the core library reads them.
* `Text.toDigits_cases` — the digits of a number that is not zero begin with another digit.
* `Text.digits_padded`, `Text.length_padded` — padding changes the width and nothing else.
* `Text.decimals_lt` — decimals are in the order of their texts.
-/

namespace Perdure

namespace Text

/-! ### Digits -/

theorem digit?_of_isDigit {c : Char} (h : c.isDigit = true) :
    digit? c = some (c.toNat - '0'.toNat) := if_pos h

theorem filterMap_digit? {cs : List Char} (h : cs.all Char.isDigit = true) :
    cs.filterMap digit? = cs.map fun c => c.toNat - '0'.toNat := by
  induction cs with
  | nil => rfl
  | cons c cs ih =>
    simp only [List.all_cons, Bool.and_eq_true] at h
    rw [List.filterMap_cons, digit?_of_isDigit h.1, ih h.2, List.map_cons]

/-- Digits denote what the core library takes them for. -/
theorem ofDigits_digit? {cs : List Char} (h : cs.all Char.isDigit = true) :
    ofDigits (cs.filterMap digit?) = Nat.ofDigitChars 10 cs 0 := by
  rw [filterMap_digit? h, ofDigits, List.foldl_map, Nat.ofDigitChars_eq_foldl]

theorem all_isDigit_toDigits (n : Nat) : (Nat.toDigits 10 n).all Char.isDigit = true :=
  List.all_eq_true.2 fun _ hc => Nat.isDigit_of_mem_toDigits (by decide) (by decide) hc

/-- The digits of a number denote it. -/
theorem ofDigits_toDigits (n : Nat) : ofDigits ((Nat.toDigits 10 n).filterMap digit?) = n := by
  rw [ofDigits_digit? (all_isDigit_toDigits n), Nat.ofDigitChars_ten_toDigits]

/-- Zero is one digit, and any other number begins with a digit that is not zero. -/
theorem toDigits_cases (n : Nat) :
    Nat.toDigits 10 n = ['0'] ∨
      ∃ c cs, Nat.toDigits 10 n = c :: cs ∧ c ≠ '0' ∧ c.isDigit = true := by
  induction n using Nat.strongRecOn with
  | _ n ih =>
    have hdigit := all_isDigit_toDigits n
    rcases Nat.lt_or_ge n 10 with hn | hn
    · rw [Nat.toDigits_of_lt_base hn] at hdigit ⊢
      rcases Nat.eq_zero_or_pos n with rfl | hpos
      · exact .inl rfl
      · refine .inr ⟨_, _, rfl, ?_, by simpa using hdigit⟩
        intro h
        rw [Nat.digitChar_eq_zero] at h
        omega
    · -- the leading digit is the leading digit of the tenth part, which is not zero
      have hpos : n / 10 ≠ 0 := by omega
      rw [Nat.toDigits_of_base_le (by decide) hn]
      rcases ih (n / 10) (by omega) with h | ⟨c, cs, h, hc, hd⟩
      · have hz := ofDigits_toDigits (n / 10)
        rw [h] at hz
        exact absurd hz.symm hpos
      · exact .inr ⟨c, cs ++ [Nat.digitChar (n % 10)], by rw [h, List.cons_append], hc, hd⟩

/-! ### Padded numbers -/

/-- The characters of a padded number. -/
theorem toList_padded (width n : Nat) :
    (padded width n).toList =
      List.replicate (width - (Nat.toDigits 10 n).length) '0' ++ Nat.toDigits 10 n := by
  rw [padded, String.toList_ofList]

theorem all_isDigit_padded (width n : Nat) : (padded width n).toList.all Char.isDigit = true := by
  rw [toList_padded, List.all_append, all_isDigit_toDigits, Bool.and_true, List.all_eq_true]
  intro c hc
  rw [(List.mem_replicate.1 hc).2]
  rfl

/-- A padded number denotes the number. -/
theorem ofDigits_padded (width n : Nat) :
    ofDigits ((padded width n).toList.filterMap digit?) = n := by
  rw [ofDigits_digit? (all_isDigit_padded width n), toList_padded, Nat.ofDigitChars_append,
    Nat.ofDigitChars_replicate_zero, Nat.mul_zero, Nat.ofDigitChars_ten_toDigits]

/-- A number that fits the width is padded to the width. -/
theorem length_padded {width n : Nat} (hw : 0 < width) (hn : n < 10 ^ width) :
    (padded width n).toList.length = width := by
  have hle := (Nat.length_toDigits_le_iff (b := 10) (by decide) hw).2 hn
  rw [toList_padded, List.length_append, List.length_replicate]
  omega

theorem padded_ne_nil (width n : Nat) : (padded width n).toList ≠ [] := by
  rw [toList_padded]
  exact List.append_ne_nil_of_right_ne_nil _ Nat.toDigits_ne_nil

/-! ### Decimals in order -/

theorem lt_iff_toNat_lt {c d : Char} : c < d ↔ c.toNat < d.toNat := by
  rw [Char.lt_def, UInt32.lt_iff_toNat_lt]
  rfl

theorem ofDigitChars_cons (c : Char) (cs : List Char) :
    Nat.ofDigitChars 10 (c :: cs) 0 =
      (c.toNat - '0'.toNat) * 10 ^ cs.length + Nat.ofDigitChars 10 cs 0 := by
  rw [Nat.ofDigitChars_cons, Nat.ofDigitChars_eq_ofDigitChars_zero, Nat.mul_zero, Nat.zero_add,
    Nat.mul_comm]

/-- Digits denote less than the next power of ten. -/
theorem ofDigitChars_lt {cs : List Char} (h : cs.all Char.isDigit = true) :
    Nat.ofDigitChars 10 cs 0 < 10 ^ cs.length := by
  induction cs with
  | nil => decide
  | cons c cs ih =>
    simp only [List.all_cons, Bool.and_eq_true] at h
    have hc : c.toNat - '0'.toNat ≤ 9 := by
      have h9 : c.toNat ≤ 57 := (Char.isDigit_iff_toNat.1 h.1).2
      have h0 : '0'.toNat = 48 := rfl
      omega
    have := ih h.2
    have := Nat.mul_le_mul_right (10 ^ cs.length) hc
    rw [ofDigitChars_cons, List.length_cons, Nat.pow_succ]
    omega

/-- Decimals after a point are in the order of their texts, whatever follows the larger one.  What
follows the smaller one has to come before every digit, unless its decimals are no fewer. -/
theorem decimals_lt {cs ds : List Char} (hcs : cs.all Char.isDigit = true)
    (hds : ds.all Char.isDigit = true) {width : Nat} (hc : cs.length ≤ width)
    (hd : ds.length ≤ width)
    (h : Nat.ofDigitChars 10 cs 0 * 10 ^ (width - cs.length) <
      Nat.ofDigitChars 10 ds 0 * 10 ^ (width - ds.length))
    {u : List Char} (v : List Char)
    (hu : cs.length < ds.length → ∀ d rest, d.isDigit = true → u < d :: rest) :
    cs ++ u < ds ++ v := by
  induction cs generalizing ds width with
  | nil => cases ds with
    | nil => exact absurd h (Nat.lt_irrefl _)
    | cons d ds =>
      simp only [List.all_cons, Bool.and_eq_true] at hds
      exact hu (Nat.succ_pos _) d (ds ++ v) hds.1
  | cons c cs ih => match ds, width with
    | [], width => exact absurd h (by simp)
    | d :: ds, width + 1 =>
      simp only [List.all_cons, Bool.and_eq_true] at hcs hds
      simp only [List.length_cons, Nat.add_le_add_iff_right] at hc hd
      simp only [ofDigitChars_cons, List.length_cons, Nat.add_sub_add_right, Nat.add_mul,
        Nat.mul_assoc, ← Nat.pow_add, Nat.add_sub_cancel' hc, Nat.add_sub_cancel' hd] at h
      -- what stands behind the leading digit is less than one unit of it
      have hbelow : Nat.ofDigitChars 10 ds 0 * 10 ^ (width - ds.length) < 10 ^ width := by
        have hpos := Nat.pow_pos (n := width - ds.length) (show 0 < 10 by decide)
        have := Nat.mul_lt_mul_of_pos_right (ofDigitChars_lt hds.2) hpos
        rwa [← Nat.pow_add, Nat.add_sub_cancel' hd] at this
      have h0 : '0'.toNat = 48 := rfl
      have hc0 : 48 ≤ c.toNat := (Char.isDigit_iff_toNat.1 hcs.1).1
      have hd0 : 48 ≤ d.toNat := (Char.isDigit_iff_toNat.1 hds.1).1
      refine List.cons_lt_cons_iff.2 ?_
      rcases Nat.lt_trichotomy c.toNat d.toNat with hlt | heq | hgt
      · exact .inl (lt_iff_toNat_lt.2 hlt)
      · rw [heq] at h
        refine .inr ⟨Char.toNat_inj.1 heq, ih hcs.2 hds.2 hc hd (by omega) fun hlen => ?_⟩
        exact hu (by simpa using hlen)
      · have hstep : d.toNat - '0'.toNat + 1 ≤ c.toNat - '0'.toNat := by omega
        have := Nat.mul_le_mul_right (10 ^ width) hstep
        rw [Nat.add_mul] at this
        omega

/-- Padded numbers are in the order of their texts, and equal ones in that of what follows. -/
theorem padded_append_lt {width m n : Nat} (hw : 0 < width) (hm : m < 10 ^ width)
    (hn : n < 10 ^ width) {u v : List Char} (h : m < n ∨ m = n ∧ u < v) :
    (padded width m).toList ++ u < (padded width n).toList ++ v := by
  rcases h with h | ⟨rfl, h⟩
  · have hmlen := length_padded hw hm
    have hnlen := length_padded hw hn
    have hvalue (k : Nat) : Nat.ofDigitChars 10 (padded width k).toList 0 = k := by
      rw [← ofDigits_digit? (all_isDigit_padded width k), ofDigits_padded]
    refine decimals_lt (all_isDigit_padded width m) (all_isDigit_padded width n) (Nat.le_of_eq hmlen)
      (Nat.le_of_eq hnlen) ?_ v fun hlen => absurd hlen (by omega)
    simpa [hmlen, hnlen, hvalue] using h
  · exact List.append_left_lt h

end Text

end Perdure
