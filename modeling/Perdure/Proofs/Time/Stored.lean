import Mathlib.Data.List.TakeWhile
import Perdure.Proofs.Text.Digits
import Perdure.Proofs.Time.Calendar
import Perdure.Time.Printer
import Perdure.Time.Relaxed

/-!
# Stored instants

An instant is read back from its written form, leap seconds at the end of a minute included: there
the clock shows a second 60.  Nothing keeps an instant from being a leap second elsewhere in a
minute.  Such a one is written as the second after it, and read back as what was written.

## Main definitions

* `Instant.Proper` — an instant within the range, its nanoseconds within a second or a leap second.
* `Instant.Valid` — a proper instant whose leap second, if it is one, ends a minute.
* `Instant.shown` — the valid instant with the same written form.
* `Instant.Endures` — a property of instants that lasts however much time passes.

## Main results

* `Instant.ofStored?_text` — a valid instant is read back from its text.
* `Instant.text_shown`, `Instant.Proper.ofStored?_text` — a proper instant is read back as what it
  is shown as.
* `Instant.endures_valid`, `Instant.endures_proper` — validity endures, and so does properness.
-/

namespace Perdure

namespace Timestamp

open Text (padded)

/-! ### Parts of a timestamp -/

theorem isBlank_of_isDigit {c : Char} (h : c.isDigit = true) : Text.isBlank c = false := by
  obtain ⟨hlo, hhi⟩ := Char.isDigit_iff_toNat.1 h
  have hlo : 48 ≤ c.toNat := hlo
  have hhi : c.toNat ≤ 57 := hhi
  simp only [Text.isBlank, Bool.or_eq_false_iff, Bool.and_eq_false_iff, decide_eq_false_iff_not]
  omega

theorem trimStart_cons {c : Char} (h : Text.isBlank c = false) (cs : List Char) :
    Text.trimStart (c :: cs) = c :: cs := by
  rw [Text.trimStart, List.dropWhile_cons, h]
  rfl

/-- Digits are not trimmed. -/
theorem trimStart_digits {ds : List Char} (hne : ds ≠ []) (h : ds.all Char.isDigit = true)
    (rest : List Char) : Text.trimStart (ds ++ rest) = ds ++ rest := by
  obtain ⟨c, cs, rfl⟩ := List.exists_cons_of_ne_nil hne
  simp only [List.all_cons, Bool.and_eq_true] at h
  exact trimStart_cons (isBlank_of_isDigit h.1) (cs ++ rest)

/-- The digits before another character. -/
theorem takeWhile_digits {ds : List Char} (h : ds.all Char.isDigit = true) {c : Char}
    (hc : c.isDigit = false) (rest : List Char) :
    (ds ++ c :: rest).takeWhile Char.isDigit = ds := by
  rw [List.takeWhile_append_of_pos (List.all_eq_true.1 h), List.takeWhile_cons, hc]
  exact List.append_nil ds

theorem looseNumber_padded {width n : Nat} (hw : 0 < width) (hn : n < 10 ^ width)
    (rest : List Char) : looseNumber width ((padded width n).toList ++ rest) = some (n, rest) := by
  have hall := Text.all_isDigit_padded width n
  have hne := Text.padded_ne_nil width n
  have hlen := Text.length_padded hw hn
  have htake : (((padded width n).toList ++ rest).take width).takeWhile Char.isDigit =
      (padded width n).toList := by
    rw [List.take_left' hlen]
    exact List.takeWhile_eq_self_iff.2 (List.all_eq_true.1 hall)
  unfold looseNumber
  simp only [trimStart_digits hne hall, htake, List.isEmpty_iff, hne, if_false,
    Text.ofDigits_padded, List.drop_left]

theorem looseChar_self {c : Char} (h : Text.isBlank c = false) (rest : List Char) :
    looseChar c (c :: rest) = some rest := by
  rw [looseChar, trimStart_cons h]
  exact if_pos rfl

theorem looseYear_padded {year : Nat} (h : year < 10 ^ 4) (rest : List Char) :
    looseYear ((padded 4 year).toList ++ rest) = some ((year : Int), rest) := by
  have hall := Text.all_isDigit_padded 4 year
  have hne := Text.padded_ne_nil 4 year
  have hsign (c : Char) (cs : List Char) (hc : c.isDigit = false) :
      (padded 4 year).toList ++ rest ≠ c :: cs := fun he => by
    obtain ⟨d, ds, hd⟩ := List.exists_cons_of_ne_nil hne
    rw [hd, List.cons_append, List.cons.injEq] at he
    rw [hd, List.all_cons, he.1, hc] at hall
    cases hall
  unfold looseYear
  rw [trimStart_digits hne hall]
  split
  · next he => exact absurd he (hsign '-' _ (by decide))
  · next he => exact absurd he (hsign '+' _ (by decide))
  · rw [looseNumber_padded (by decide) h]
    rfl

/-- A year is read up to the hyphen behind it. -/
theorem looseYear_text (year : Int) (rest : List Char) :
    looseYear ((Instant.yearText year).toList ++ '-' :: rest) = some (year, '-' :: rest) := by
  have hsigned (n : Nat) : ((padded 4 n).toList ++ '-' :: rest).takeWhile Char.isDigit =
      (padded 4 n).toList := takeWhile_digits (Text.all_isDigit_padded 4 n) (by decide) rest
  have hne (n : Nat) : (padded 4 n).toList ≠ [] := Text.padded_ne_nil 4 n
  unfold Instant.yearText
  split
  · next h =>
    rw [looseYear_padded (by omega)]
    congr 2
    omega
  · split
    · have hsign : "-".toList = ['-'] := rfl
      rw [String.toList_append, List.append_assoc, hsign, List.cons_append, List.nil_append,
        looseYear, trimStart_cons (by decide)]
      simp only [hsigned, List.isEmpty_iff, hne, if_false, Text.ofDigits_padded, List.drop_left,
        Option.map_some]
      congr 2
      omega
    · have hsign : "+".toList = ['+'] := rfl
      rw [String.toList_append, List.append_assoc, hsign, List.cons_append, List.nil_append,
        looseYear, trimStart_cons (by decide)]
      simp only [hsigned, List.isEmpty_iff, hne, if_false, Text.ofDigits_padded, List.drop_left,
        Option.map_some]
      congr 2
      omega

theorem nanosOf_padded {width n : Nat} (hw : 0 < width) (hle : width ≤ 9) (hn : n < 10 ^ width) :
    nanosOf ((padded width n).toList.filterMap Text.digit?) = n * 10 ^ (9 - width) := by
  have hlen : ((padded width n).toList.filterMap Text.digit?).length = width := by
    rw [Text.filterMap_digit? (Text.all_isDigit_padded width n), List.length_map,
      Text.length_padded hw hn]
  have hvalue := Text.ofDigits_padded width n
  unfold Text.ofDigits at hvalue
  unfold nanosOf
  rw [List.take_of_length_le (by omega)]
  simp only [hvalue, hlen, Nat.pow_eq]

theorem looseFraction_padded {width n : Nat} (hw : 0 < width) (hle : width ≤ 9)
    (hn : n < 10 ^ width) {c : Char} (hc : c.isDigit = false) (rest : List Char) :
    looseFraction (("." ++ padded width n).toList ++ c :: rest) =
      some (n * 10 ^ (9 - width), c :: rest) := by
  have hpoint : ".".toList = ['.'] := rfl
  rw [String.toList_append, List.append_assoc, hpoint, List.cons_append, List.nil_append]
  have hne := Text.padded_ne_nil width n
  simp only [looseFraction, takeWhile_digits (Text.all_isDigit_padded width n) hc,
    List.isEmpty_iff, hne, if_false, nanosOf_padded hw hle hn, List.drop_left]

/-- A written zone of universal time.  It begins with no digit and no point, so that a fraction of a
second ends before it. -/
structure UtcZone (zone : List Char) : Prop where
  reads : looseOffset (Text.trimStart zone) = some (0, [])
  marked : ∃ c rest, zone = c :: rest ∧ c.isDigit = false ∧ c ≠ '.'

theorem utcZone_letter : UtcZone ['Z'] := ⟨by decide, 'Z', [], rfl, by decide, by decide⟩

theorem utcZone_numbers : UtcZone ['+', '0', '0', ':', '0', '0'] :=
  ⟨by decide, '+', _, rfl, by decide, by decide⟩

/-- The fraction of a second is read up to the zone behind it. -/
theorem looseFraction_text {nanos : Nat} (h : nanos < Instant.billion) {zone : List Char}
    (hz : UtcZone zone) :
    looseFraction ((Instant.fractionText nanos).toList ++ zone) = some (nanos, zone) := by
  have h : nanos < 1000000000 := h
  obtain ⟨c, rest, rfl, hc, hpoint⟩ := hz.marked
  unfold Instant.fractionText
  split
  · next h0 =>
    rw [h0, String.toList_empty, List.nil_append, looseFraction]
    rintro rest ⟨⟩
    exact hpoint rfl
  · split
    · rw [looseFraction_padded (by decide) (by decide) (by omega) hc]
      congr 2
      omega
    · split
      · rw [looseFraction_padded (by decide) (by decide) (by omega) hc]
        congr 2
        omega
      · rw [looseFraction_padded (by decide) (by decide) (by omega) hc]
        congr 2
        omega

end Timestamp

namespace Instant

open Text (padded)
open Timestamp

theorem bind_of_eq_some {α β : Type} {x : Option α} {a : α} (h : x = some a) (f : α → Option β) :
    (x >>= f) = f a := by
  rw [h]
  rfl

/-- A timestamp is read part by part. -/
theorem ofStored?_of_parts {date : Date} (hdate : date.exists? = true)
    {hour minute second nanos : Nat} (hhour : hour < 24) (hminute : minute < 60)
    (hsecond : second ≤ 60) (hnanos : nanos < billion) {zone : List Char} (hz : UtcZone zone)
    {s : String} (hs : s.toList = (yearText date.year).toList ++ '-' :: ((padded 2 date.month).toList ++
      '-' :: ((padded 2 date.day).toList ++ 'T' :: ((padded 2 hour).toList ++
      ':' :: ((padded 2 minute).toList ++ ':' :: ((padded 2 second).toList ++
      ((fractionText nanos).toList ++ zone)))))))
    {ofDay n : Nat} (hclock : clock? hour minute second nanos = some (ofDay, n))
    (hrange : (ofDate date ofDay n).inRange = true) :
    ofStored? s = some (ofDate date ofDay n) := by
  have hmonth := Date.lt_hundred_of_exists? hdate
  have htwo (m : Nat) (hm : m < 10 ^ 2) (rest : List Char) :
      looseNumber 2 ((padded 2 m).toList ++ rest) = some (m, rest) :=
    looseNumber_padded (by decide) hm rest
  have hhyphen : Text.isBlank '-' = false := by decide
  have hcolon : Text.isBlank ':' = false := by decide
  have hmark (rest : List Char) : looseMark ('T' :: rest) = some rest := rfl
  unfold ofStored?
  rw [hs]
  refine (bind_of_eq_some (looseYear_text _ _) _).trans ?_
  refine (bind_of_eq_some (looseChar_self hhyphen _) _).trans ?_
  refine (bind_of_eq_some (htwo _ hmonth.1 _) _).trans ?_
  refine (bind_of_eq_some (looseChar_self hhyphen _) _).trans ?_
  refine (bind_of_eq_some (htwo _ hmonth.2 _) _).trans ?_
  refine (bind_of_eq_some (hmark _) _).trans ?_
  refine (bind_of_eq_some (htwo hour (by omega) _) _).trans ?_
  refine (bind_of_eq_some (looseChar_self hcolon _) _).trans ?_
  refine (bind_of_eq_some (htwo minute (by omega) _) _).trans ?_
  refine (bind_of_eq_some (looseChar_self hcolon _) _).trans ?_
  refine (bind_of_eq_some (htwo second (by omega) _) _).trans ?_
  refine (bind_of_eq_some (looseFraction_text hnanos hz) _).trans ?_
  refine (bind_of_eq_some hz.reads _).trans ?_
  have hblank : Text.trimStart [] = [] := rfl
  simp [hblank, hdate, hclock, hrange]

/-- An instant within the range.  Its nanoseconds are those of a second, or of a leap second at
the end of a minute. -/
structure Valid (t : Instant) : Prop where
  inRange : t.inRange = true
  nanos : t.nanos < billion ∨ t.nanos < 2 * billion ∧ t.seconds % 60 = 59

/-- The written form up to the zone. -/
def stem (t : Instant) : List Char := t.text.toList.dropLast

theorem toList_text (t : Instant) : t.text.toList = t.stem ++ ['Z'] := by
  have hzone : "Z".toList = ['Z'] := rfl
  simp only [stem, text, String.toList_append, hzone, List.dropLast_concat]

/-- An instant by its day and the second of the day. -/
theorem exists_day (t : Instant) : ∃ (days : Int) (ofDay : Nat),
    t.seconds.fdiv daySeconds = days ∧ (t.seconds - days * daySeconds).toNat = ofDay ∧
      t.seconds = days * 86400 + ofDay ∧ ofDay < 86400 := by
  have hfdiv : t.seconds.fdiv daySeconds = t.seconds / 86400 :=
    Int.fdiv_eq_ediv_of_nonneg _ (by decide)
  have hday : (daySeconds : Int) = 86400 := rfl
  rw [hfdiv, hday]
  exact ⟨_, _, rfl, rfl, by omega, by omega⟩

/-- The second that the clock shows, which is 60 within a leap second. -/
def shownSecond (ofDay nanos : Nat) : Nat :=
  if billion ≤ nanos then ofDay % 60 + 1 else ofDay % 60

/-- The nanoseconds behind the second that the clock shows. -/
def shownNanos (nanos : Nat) : Nat := if billion ≤ nanos then nanos - billion else nanos

/-- The written form up to the zone, part by part. -/
theorem stem_eq (t : Instant) {days : Int} (hdays : t.seconds.fdiv daySeconds = days)
    {ofDay : Nat} (hofDay : (t.seconds - days * daySeconds).toNat = ofDay) :
    t.stem = (yearText (Date.ofDays days).year).toList ++
      '-' :: ((padded 2 (Date.ofDays days).month).toList ++
      '-' :: ((padded 2 (Date.ofDays days).day).toList ++
      'T' :: ((padded 2 (ofDay / 3600)).toList ++ ':' :: ((padded 2 (ofDay / 60 % 60)).toList ++
      ':' :: ((padded 2 (shownSecond ofDay t.nanos)).toList ++
      (fractionText (shownNanos t.nanos)).toList))))) := by
  have hhyphen : "-".toList = ['-'] := rfl
  have hcolon : ":".toList = [':'] := rfl
  have hmark : "T".toList = ['T'] := rfl
  have hzone : "Z".toList = ['Z'] := rfl
  simp only [stem, text, String.toList_append, hzone, List.dropLast_concat]
  simp only [hdays, hofDay, hhyphen, hcolon, hmark, shownSecond, shownNanos, List.append_assoc,
    List.cons_append, List.nil_append]

/-- A valid instant is read back from its written form with any zone of universal time. -/
theorem ofStored?_stem {t : Instant} (h : t.Valid) {zone : List Char} (hz : UtcZone zone)
    {s : String} (hs : s.toList = t.stem ++ zone) : ofStored? s = some t := by
  obtain ⟨seconds, nanos⟩ := t
  have hnanos : nanos < billion ∨ nanos < 2 * billion ∧ seconds % 60 = 59 := h.nanos
  -- the date and the clock are shown from the days before and the second of the day
  obtain ⟨days, ofDay, hfdiv, hod, hofDay, hlt⟩ := exists_day ⟨seconds, nanos⟩
  have hday : (daySeconds : Int) = 86400 := rfl
  replace hofDay : seconds = days * 86400 + ofDay := hofDay
  have hdate := Date.exists?_ofDays days
  have hstart : ofDate (Date.ofDays days) ofDay nanos = ⟨seconds, nanos⟩ := by
    rw [ofDate, Date.toDays_ofDays, hday, ← hofDay]
  -- a leap second is shown as second 60, and read as the second before it
  have hclock : clock? (ofDay / 3600) (ofDay / 60 % 60) (shownSecond ofDay nanos)
      (shownNanos nanos) = some (ofDay, nanos) := by
    unfold clock? shownSecond shownNanos
    split
    · next hleap =>
      have hlast : ofDay % 60 = 59 := by omega
      rw [if_neg (by omega), if_pos (by omega)]
      congr 2 <;> omega
    · next hleap =>
      rw [if_neg (by omega), if_neg (by omega)]
      congr 2
      omega
  have hshown : shownSecond ofDay nanos ≤ 60 ∧ shownNanos nanos < billion := by
    unfold shownSecond shownNanos
    split <;> omega
  have hread := ofStored?_of_parts hdate (by omega) (by omega) hshown.1 hshown.2 hz (hs.trans ?_)
    hclock (by rw [hstart]; exact h.inRange)
  · rw [hread, hstart]
  · rw [stem_eq ⟨seconds, nanos⟩ hfdiv hod]
    simp only [List.append_assoc, List.cons_append]

/-- A valid instant is read back from its text. -/
theorem ofStored?_text {t : Instant} (h : t.Valid) : ofStored? t.text = some t :=
  ofStored?_stem h utcZone_letter t.toList_text

/-! ### Leap seconds elsewhere in a minute -/

/-- An instant within the range.  Its nanoseconds are those of a second, or of a leap second after
any second. -/
structure Proper (t : Instant) : Prop where
  inRange : t.inRange = true
  nanos : t.nanos < 2 * billion

theorem Valid.proper {t : Instant} (h : t.Valid) : t.Proper where
  inRange := h.inRange
  nanos := h.nanos.elim (fun hlt => hlt.trans (by decide)) And.left

/-- What the written form of an instant shows.  A leap second that does not end a minute is written
as the second after it. -/
def shown (t : Instant) : Instant :=
  if billion ≤ t.nanos ∧ t.seconds % 60 ≠ 59 then ⟨t.seconds + 1, t.nanos - billion⟩ else t

/-- A valid instant is shown as it is. -/
theorem Valid.shown_eq {t : Instant} (h : t.Valid) : t.shown = t := by
  have hnanos := h.nanos
  exact if_neg fun hleap => by omega

/-- An instant is shown as a valid one. -/
theorem Proper.valid_shown {t : Instant} (h : t.Proper) : t.shown.Valid := by
  have hnanos := h.nanos
  have hrange := h.inRange
  unfold shown
  split
  · next hleap =>
    refine ⟨?_, .inl ?_⟩
    · -- the range ends with the last second of a minute, so the next second is within it
      have hlast : lastSecond % 60 = 59 := by decide
      simp only [Instant.inRange, Bool.and_eq_true, decide_eq_true_eq] at hrange ⊢
      omega
    · show t.nanos - billion < billion
      omega
  · next hleap => exact ⟨hrange, by omega⟩

/-- An instant has the written form of what it is shown as. -/
theorem text_shown {t : Instant} (h : t.nanos < 2 * billion) : t.shown.text = t.text := by
  obtain ⟨seconds, nanos⟩ := t
  replace h : nanos < 2 * billion := h
  unfold shown
  split
  · next hleap =>
    obtain ⟨hnanos, hsecond⟩ : billion ≤ nanos ∧ seconds % 60 ≠ 59 := hleap
    -- the next second is in the same minute, so the date and the clock differ in the second only
    obtain ⟨days, ofDay, hdays, hofDay, hseconds, hlt⟩ := exists_day ⟨seconds, nanos⟩
    obtain ⟨days', ofDay', hdays', hofDay', hseconds', hlt'⟩ :=
      exists_day ⟨seconds + 1, nanos - billion⟩
    replace hseconds : seconds = days * 86400 + ofDay := hseconds
    replace hseconds' : seconds + 1 = days' * 86400 + ofDay' := hseconds'
    obtain rfl : days' = days := by omega
    obtain rfl : ofDay' = ofDay + 1 := by omega
    have hhour : (ofDay + 1) / 3600 = ofDay / 3600 := by omega
    have hminute : (ofDay + 1) / 60 % 60 = ofDay / 60 % 60 := by omega
    have hshown : shownSecond (ofDay + 1) (nanos - billion) = shownSecond ofDay nanos := by
      rw [shownSecond, shownSecond, if_neg (by omega), if_pos hnanos]
      omega
    have hfraction : shownNanos (nanos - billion) = shownNanos nanos := by
      rw [shownNanos, shownNanos, if_neg (by omega), if_pos hnanos]
    refine String.toList_injective ?_
    rw [toList_text, toList_text, stem_eq _ hdays' hofDay', stem_eq _ hdays hofDay, hhour, hminute,
      hshown, hfraction]
  · rfl

/-- A proper instant is read back as what it is shown as. -/
theorem Proper.ofStored?_text {t : Instant} (h : t.Proper) : ofStored? t.text = some t.shown := by
  rw [← text_shown h.nanos, Instant.ofStored?_text h.valid_shown]

/-! ### Instants some time later -/

/-- A property of instants endures if it holds as well some time before or after, within the
range. -/
def Endures (T : Instant → Prop) : Prop :=
  ∀ {t u : Instant} {nanos : Int}, T t → t.addNanos? nanos = some u → T u

/-- A sum leaves a leap second, or stays within it. -/
theorem nanos_shift {t : Instant} (h : t.nanos < 2 * billion) {seconds fraction : Int}
    (hlo : -billion < fraction) (hhi : fraction < billion) :
    (t.shift seconds fraction).nanos < billion ∨
      (t.shift seconds fraction).nanos < 2 * billion ∧
        (t.shift seconds fraction).seconds = t.seconds ∧ billion ≤ t.nanos := by
  have hb : billion = 1000000000 := rfl
  -- unless it stays within a leap second, a sum carries over into the second before or after
  have hcarried (s n : Int) (hn : 0 ≤ n) (hlt : n < billion) :
      (if n + fraction < 0 then (⟨s + seconds - 1, (n + fraction + billion).toNat⟩ : Instant)
        else if billion ≤ n + fraction then ⟨s + seconds + 1, (n + fraction - billion).toNat⟩
        else ⟨s + seconds, (n + fraction).toNat⟩).nanos < billion := by
    split
    · show Int.toNat _ < billion
      omega
    · split
      · show Int.toNat _ < billion
        omega
      · show Int.toNat _ < billion
        omega
  unfold shift
  simp only
  split
  · exact .inl (hcarried _ _ (by omega) (by omega))
  · next hleap =>
    split
    · exact .inl (hcarried _ _ (by omega) (by omega))
    · split
      · exact .inl (hcarried _ _ (by omega) (by omega))
      · refine .inr ⟨?_, rfl, Nat.le_of_not_lt hleap⟩
        show Int.toNat _ < 2 * billion
        omega

/-- An instant some time later is within the range, and its nanoseconds are those of a sum. -/
theorem exists_shift_of_addNanos? {t u : Instant} {nanos : Int} (hu : t.addNanos? nanos = some u) :
    u.inRange = true ∧ ∃ seconds fraction : Int, -billion < fraction ∧ fraction < billion ∧
      u = t.shift seconds fraction := by
  have hlo := Int.lt_tmod_of_pos nanos (show (0 : Int) < billion by decide)
  have hhi := Int.tmod_lt_of_pos nanos (show (0 : Int) < billion by decide)
  unfold addNanos? at hu
  simp only at hu
  split at hu
  · next hr =>
    cases hu
    exact ⟨hr, _, _, hlo, hhi, rfl⟩
  · cases hu

/-- An instant some time after a proper one is proper. -/
theorem endures_proper : Endures Proper := by
  intro t u nanos ht hu
  obtain ⟨hr, seconds, fraction, hlo, hhi, rfl⟩ := exists_shift_of_addNanos? hu
  refine ⟨hr, ?_⟩
  rcases nanos_shift ht.nanos hlo hhi with hlt | ⟨hlt, -, -⟩
  · exact hlt.trans (by decide)
  · exact hlt

/-- An instant some time after a valid one is valid. -/
theorem endures_valid : Endures Valid := by
  intro t u nanos ht hu
  obtain ⟨hr, seconds, fraction, hlo, hhi, rfl⟩ := exists_shift_of_addNanos? hu
  refine ⟨hr, (nanos_shift ht.proper.nanos hlo hhi).imp_right ?_⟩
  -- a leap second that a sum stays within ends a minute, as it did before
  rintro ⟨hlt, hsame, hleap⟩
  refine ⟨hlt, hsame ▸ ?_⟩
  rcases ht.nanos with hnone | ⟨-, hlast⟩
  · exact absurd hleap (Nat.not_le.2 hnone)
  · exact hlast

end Instant

end Perdure
