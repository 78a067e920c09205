import Perdure.Proofs.Time.Order
import Perdure.Proofs.Time.Stored
import Perdure.Store.Ledger

/-!
# Times as columns

A time that is kept as text is read back from it.  Texts of times are in the order of the times as
long as the years have four digits: beyond, a year is written with a sign, and both signs come
before every digit.

## Main definitions

* `Instant.year` — the year in which an instant lies.
* `Instant.FourDigits` — an instant whose year has four digits.

## Main results

* `Instant.ofStored?_column` — a valid instant is read back from its column.
* `Instant.column_lt` — columns are in the order of their times.
-/

namespace Perdure

namespace Instant

open Text (padded)
open Timestamp

theorem toList_column (t : Instant) : t.column.toList = t.stem ++ ['+', '0', '0', ':', '0', '0'] := by
  rw [column, String.toList_append, String.toList_ofList]
  rfl

/-- A valid instant is read back from its column. -/
theorem ofStored?_column {t : Instant} (h : t.Valid) : ofStored? t.column = some t :=
  ofStored?_stem h utcZone_numbers t.toList_column

/-! ### The order of columns -/

/-- The year in which an instant lies. -/
def year (t : Instant) : Int := (Date.ofDays (t.seconds.fdiv daySeconds)).year

/-- An instant whose year has four digits, which are written without a sign. -/
def FourDigits (t : Instant) : Prop := 0 ≤ t.year ∧ t.year ≤ 9999

instance (t : Instant) : Decidable t.FourDigits := inferInstanceAs (Decidable (_ ∧ _))

/-- A fraction of a second is nothing, or decimals behind a point. -/
theorem fractionText_cases {nanos : Nat} (h : nanos < billion) :
    nanos = 0 ∧ (fractionText nanos).toList = [] ∨
      ∃ cs : List Char, (fractionText nanos).toList = '.' :: cs ∧ cs.all Char.isDigit = true ∧
        cs.length ≤ 9 ∧ Nat.ofDigitChars 10 cs 0 * 10 ^ (9 - cs.length) = nanos := by
  have h : nanos < 1000000000 := h
  have hdecimals {width n : Nat} (hw : 0 < width) (hle : width ≤ 9) (hn : n < 10 ^ width)
      (hnanos : n * 10 ^ (9 - width) = nanos) :
      ∃ cs : List Char, ("." ++ padded width n).toList = '.' :: cs ∧ cs.all Char.isDigit = true ∧
        cs.length ≤ 9 ∧ Nat.ofDigitChars 10 cs 0 * 10 ^ (9 - cs.length) = nanos := by
    refine ⟨(padded width n).toList, String.toList_append, Text.all_isDigit_padded width n, ?_, ?_⟩
    · rwa [Text.length_padded hw hn]
    · rwa [← Text.ofDigits_digit? (Text.all_isDigit_padded width n), Text.ofDigits_padded,
        Text.length_padded hw hn]
  unfold fractionText
  split
  · next h0 => exact .inl ⟨h0, rfl⟩
  · refine .inr ?_
    split
    · exact hdecimals (by decide) (by decide) (by omega) (by omega)
    · split
      · exact hdecimals (by decide) (by decide) (by omega) (by omega)
      · exact hdecimals (by decide) (by decide) (by omega) (by omega)

/-- Fractions of a second are in the order of their texts before a zone: the sign of the zone comes
before the point and before every digit. -/
theorem fractionText_lt {m n : Nat} (h : m < n) (hn : n < billion) (u v : List Char) :
    (fractionText m).toList ++ '+' :: u < (fractionText n).toList ++ '+' :: v := by
  have hpoint : '+' < '.' := by decide
  have hdigit (d : Char) (hd : d.isDigit = true) : '+' < d :=
    Text.lt_iff_toNat_lt.2 (Nat.lt_of_lt_of_le (by decide) (Char.isDigit_iff_toNat.1 hd).1)
  rcases fractionText_cases (h.trans hn) with ⟨rfl, hm⟩ | ⟨cs, hm, hcs, hclen, rfl⟩
  · rcases fractionText_cases hn with ⟨rfl, -⟩ | ⟨ds, hn, -⟩
    · exact absurd h (Nat.lt_irrefl 0)
    · rw [hm, hn]
      exact List.cons_lt_cons_iff.2 (.inl hpoint)
  · rcases fractionText_cases hn with ⟨rfl, -⟩ | ⟨ds, hn, hds, hdlen, rfl⟩
    · exact absurd h (Nat.not_lt_zero _)
    · rw [hm, hn]
      refine List.cons_lt_cons_iff.2 (.inr ⟨rfl, ?_⟩)
      exact Text.decimals_lt hcs hds hclen hdlen h _ fun _ d rest hd =>
        List.cons_lt_cons_iff.2 (.inl (hdigit d hd))

/-- Of two times of a day, the earlier one shows the smaller hour, minute or second, or else has the
smaller fraction.  A leap second is the last one of its minute. -/
theorem clock_lt {days : Int} {a b m n : Nat}
    (hm : m < billion ∨ m < 2 * billion ∧ (days * 86400 + a) % 60 = 59)
    (h : a < b ∨ a = b ∧ m < n) :
    a / 3600 < b / 3600 ∨ a / 3600 = b / 3600 ∧ (a / 60 % 60 < b / 60 % 60 ∨
      a / 60 % 60 = b / 60 % 60 ∧ (shownSecond a m < shownSecond b n ∨
        shownSecond a m = shownSecond b n ∧ shownNanos m < shownNanos n)) := by
  unfold shownSecond shownNanos
  split_ifs <;> omega

/-- Columns are in the order of their times: years, months and days come first, then the clock and
the fraction of the second, each with as many digits as the other. -/
theorem column_lt {a b : Instant} (ha : a.Valid) (hb : b.Valid) (hay : a.FourDigits)
    (hby : b.FourDigits) (h : b.isAtMost a = false) : a.column < b.column := by
  obtain ⟨da, oa, hda, hoa, hsa, hla⟩ := a.exists_day
  obtain ⟨db, ob, hdb, hob, hsb, hlb⟩ := b.exists_day
  have hearlier : da < db ∨ da = db ∧ (oa < ob ∨ oa = ob ∧ a.nanos < b.nanos) := by
    rw [← Bool.not_eq_true, isAtMost_iff] at h
    omega
  have hmonths := Date.lt_hundred_of_exists? (Date.exists?_ofDays da)
  have hmonths' := Date.lt_hundred_of_exists? (Date.exists?_ofDays db)
  have hshown (o n : Nat) : shownSecond o n < 10 ^ 2 := by
    unfold shownSecond
    split <;> omega
  have hfraction : shownNanos b.nanos < billion := by
    have := hb.nanos
    unfold shownNanos
    split <;> omega
  unfold FourDigits year at hay hby
  rw [hda] at hay
  rw [hdb] at hby
  show a.column.toList < b.column.toList
  rw [toList_column, toList_column, stem_eq a hda hoa, stem_eq b hdb hob, yearText, yearText,
    if_pos hay, if_pos hby]
  simp only [List.append_assoc, List.cons_append]
  -- a part is compared once those before it are equal
  have hpart {w m n : Nat} (hw : 0 < w) (hm : m < 10 ^ w) (hn : n < 10 ^ w) {c : Char}
      {u v : List Char} {later : Prop} (h : m < n ∨ m = n ∧ later) (hlater : later → u < v) :
      (padded w m).toList ++ c :: u < (padded w n).toList ++ c :: v :=
    Text.padded_append_lt hw hm hn (h.imp_right fun h =>
      ⟨h.1, List.cons_lt_cons_iff.2 (.inr ⟨rfl, hlater h.2⟩)⟩)
  rcases hearlier with hdays | ⟨rfl, hofDay⟩
  · have hdate := Date.isBefore_ofDays hdays
    unfold Date.IsBefore at hdate
    have hyears : (Date.ofDays da).year.toNat < (Date.ofDays db).year.toNat ∨
        (Date.ofDays da).year.toNat = (Date.ofDays db).year.toNat ∧
          ((Date.ofDays da).month < (Date.ofDays db).month ∨
            (Date.ofDays da).month = (Date.ofDays db).month ∧
              (Date.ofDays da).day < (Date.ofDays db).day) := by omega
    refine hpart (by decide) (by omega) (by omega) hyears fun hdate => ?_
    refine hpart (by decide) hmonths.1 hmonths'.1 hdate fun hdate => ?_
    exact Text.padded_append_lt (by decide) hmonths.2 hmonths'.2 (.inl hdate)
  · have hclock := clock_lt (hsa ▸ ha.nanos) hofDay
    refine List.append_left_lt (List.cons_lt_cons_iff.2 (.inr ⟨rfl, ?_⟩))
    refine List.append_left_lt (List.cons_lt_cons_iff.2 (.inr ⟨rfl, ?_⟩))
    refine List.append_left_lt (List.cons_lt_cons_iff.2 (.inr ⟨rfl, ?_⟩))
    refine hpart (by decide) (by omega) (by omega) hclock fun hclock => ?_
    refine hpart (by decide) (by omega) (by omega) hclock fun hclock => ?_
    exact Text.padded_append_lt (by decide) (hshown _ _) (hshown _ _)
      (hclock.imp_right (And.imp_right fun h => fractionText_lt h hfraction _ _))

theorem compare_column {a b : Instant} (ha : a.Valid) (hb : b.Valid) (hay : a.FourDigits)
    (hby : b.FourDigits) (h : b.isAtMost a = false) : compare a.column b.column = .lt := by
  have hcompare {x y : String} (hxy : x < y) : compare x y = .lt := compareOfLessAndEq_eq_lt.2 hxy
  exact hcompare (column_lt ha hb hay hby h)

end Instant

end Perdure
