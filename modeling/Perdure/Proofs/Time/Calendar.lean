import Mathlib.Tactic.IntervalCases
import Mathlib.Tactic.SplitIfs
import Perdure.Time.Calendar

/-!
# Days and dates

Every day number is the day number of its date, and its date is a day of the calendar.  A day of
the 400 year cycle is written as full centuries, full leap cycles of four years, full years and
days; the year of the cycle is then read off these parts.

## Main definitions

* `CycleDay` — a day of the 400 year cycle, in parts.
* `Date.IsBefore` — the order of the calendar.

## Main results

* `Date.toDays_ofDays` — the date of a day number has that day number.
* `Date.exists?_ofDays` — the date of a day number is a day of the calendar.
* `Date.isBefore_ofDays` — days are counted in the order of the calendar.
-/

namespace Perdure

/-- A day of the 400 year cycle: full centuries, full leap cycles, full years and days.  Only the
last of four years has 366 days, and not the last one of a century, but for the fourth. -/
structure CycleDay where
  centuries : Nat
  leapCycles : Nat
  years : Nat
  days : Nat
  centuries_le : centuries ≤ 3
  leapCycles_le : leapCycles ≤ 24
  years_le : years ≤ 3
  days_le : days ≤ 365
  leap : days = 365 → years = 3 ∧ (leapCycles = 24 → centuries = 3)

namespace CycleDay

/-- The day of the cycle. -/
def day (c : CycleDay) : Nat :=
  36524 * c.centuries + 1461 * c.leapCycles + 365 * c.years + c.days

/-- The year of the cycle. -/
def year (c : CycleDay) : Nat := 100 * c.centuries + 4 * c.leapCycles + c.years

/-- Every day of the cycle has parts. -/
theorem exists_day_eq {day : Nat} (h : day < Date.cycleDays) : ∃ c : CycleDay, c.day = day := by
  have h : day < 146097 := h
  -- the last day of the fourth century is its 36525th, the last day of a leap year its 366th
  obtain ⟨c, hc, r, hr, hday⟩ : ∃ c ≤ 3, ∃ r, (r < 36524 ∨ r = 36524 ∧ c = 3) ∧
      day = 36524 * c + r :=
    ⟨min (day / 36524) 3, by omega, day - 36524 * min (day / 36524) 3, by omega, by omega⟩
  obtain ⟨q, hq, s, hs, hrest⟩ : ∃ q ≤ 24, ∃ s, (s < 1460 ∨ s = 1460 ∧ (q = 24 → c = 3)) ∧
      r = 1461 * q + s := ⟨r / 1461, by omega, r % 1461, by omega, by omega⟩
  obtain ⟨t, ht, u, hu, hdays⟩ : ∃ t ≤ 3, ∃ u, (u < 365 ∨ u = 365 ∧ t = 3 ∧ s = 1460) ∧
      s = 365 * t + u := ⟨min (s / 365) 3, by omega, s - 365 * min (s / 365) 3, by omega, by omega⟩
  exact ⟨⟨c, q, t, u, hc, hq, ht, by omega, by omega⟩, by simp only [CycleDay.day]; omega⟩

variable (c : CycleDay)

theorem year_lt : c.year < 400 := by
  have := c.centuries_le
  have := c.leapCycles_le
  have := c.years_le
  unfold year
  omega

/-- The days of the full years of the cycle. -/
theorem yearStart_eq : 365 * c.year + c.year / 4 - c.year / 100 + c.days = c.day := by
  have := c.leapCycles_le
  have := c.years_le
  unfold year day
  omega

/-- Full years of 365 days, when the leap days are taken out. -/
theorem year_days (c q t : Nat) {u x e : Nat} (h : x ≤ u) :
    36524 * c + 1461 * q + 365 * t + u - (25 * c + q + x) + (c + e) - e =
      365 * (100 * c + 4 * q + t) + (u - x) := by omega

/-- The year of the cycle, as it is found from the day: the centuries that are too short for leap
days of their own are put back, and one day in 1460 is taken out. -/
theorem year_eq : (c.day - c.day / 1460 + c.day / 36524 - c.day / 146096) / 365 = c.year := by
  obtain ⟨centuries, leapCycles, years, days, hc, hq, ht, hu, hleap⟩ := c
  simp only [day, year]
  generalize hd : 36524 * centuries + 1461 * leapCycles + 365 * years + days = d
  have hcenturies : d / 36524 = centuries + d / 146096 := by
    by_cases hlast : days = 365 ∧ leapCycles = 24
    · obtain ⟨hyears, hcentury⟩ := hleap hlast.1
      have := hcentury hlast.2
      omega
    · have hrest : 1461 * leapCycles + 365 * years + days < 36524 := by omega
      have hnone : d / 146096 = 0 := by omega
      omega
  -- what is left of the days counts as one leap day, or as none
  have hleaps : ∃ x ≤ 1, x ≤ days ∧ days < x + 365 ∧
      d / 1460 = 25 * centuries + leapCycles + x := by
    by_cases hlast : 24 * centuries + leapCycles + 365 * years + days < 1460
    · exact ⟨0, by omega, by omega, by omega, by omega⟩
    · exact ⟨1, by omega, by omega, by omega, by omega⟩
  obtain ⟨x, hx, hxd, hdx, hleaps⟩ := hleaps
  have hrest : (days - x) / 365 = 0 := Nat.div_eq_of_lt (Nat.sub_lt_left_of_lt_add hxd hdx)
  rw [hcenturies, hleaps, ← hd, year_days centuries leapCycles years hxd,
    Nat.mul_add_div (by decide), hrest, Nat.add_zero]

/-- The last day of a year of 366 days comes before a year that is a leap year. -/
theorem isLeapYear_of_days (h : c.days = 365) (cycle : Int) :
    Date.isLeapYear (cycle * 400 + c.year + 1) = true := by
  obtain ⟨hyears, hcentury⟩ := c.leap h
  have hq := c.leapCycles_le
  have hc := c.centuries_le
  have h4 : (cycle * 400 + c.year + 1) % 4 = 0 := by
    unfold year
    omega
  have h100 : (cycle * 400 + c.year + 1) % 100 ≠ 0 ∨ (cycle * 400 + c.year + 1) % 400 = 0 := by
    unfold year
    by_cases hlast : c.leapCycles = 24
    · have := hcentury hlast
      omega
    · omega
  simpa [Date.isLeapYear, h4] using h100

end CycleDay

namespace Date

/-- A day number in its cycle. -/
theorem exists_cycle (days : Int) :
    ∃ (cycle : Int) (c : CycleDay), days = cycle * cycleDays + c.day + marchOrigin ∧
      ofDays days =
        let m := (5 * c.days + 2) / 153
        let month := if m < 10 then m + 3 else m - 9
        let year := cycle * 400 + c.year
        ⟨if month ≤ 2 then year + 1 else year, month, c.days - (153 * m + 2) / 5 + 1⟩ := by
  have hfdiv : (days - marchOrigin).fdiv cycleDays = (days - marchOrigin) / 146097 :=
    Int.fdiv_eq_ediv_of_nonneg _ (by decide)
  have hpos : 0 ≤ days - marchOrigin - (days - marchOrigin) / 146097 * 146097 := by omega
  have hlt : (days - marchOrigin - (days - marchOrigin) / 146097 * 146097).toNat < cycleDays := by
    unfold cycleDays
    omega
  obtain ⟨c, hc⟩ := CycleDay.exists_day_eq hlt
  refine ⟨(days - marchOrigin) / 146097, c, ?_, ?_⟩
  · have hcast : (c.day : Int) = days - marchOrigin - (days - marchOrigin) / 146097 * 146097 := by
      rw [hc, Int.toNat_of_nonneg hpos]
    rw [hcast]
    unfold cycleDays
    omega
  · have hday : c.day - (365 * c.year + c.year / 4 - c.year / 100) = c.days := by
      have := c.yearStart_eq
      omega
    unfold ofDays
    simp only [hfdiv]
    have hcycle : (cycleDays : Int) = 146097 := rfl
    rw [hcycle, ← hc, c.year_eq, hday]

/-- The date of a day number has that day number. -/
theorem toDays_ofDays (days : Int) : (ofDays days).toDays = days := by
  obtain ⟨cycle, c, hdays, hdate⟩ := exists_cycle days
  have hle := c.days_le
  have hyear := c.year_lt
  have hstart := c.yearStart_eq
  rw [hdate]
  generalize hm : (5 * c.days + 2) / 153 = m
  have hmle : m ≤ 11 := by omega
  have hbefore : (153 * m + 2) / 5 ≤ c.days := by omega
  -- the month counts from March again, and the year begins with it
  have hmonth : ((if m < 10 then m + 3 else m - 9) + 9) % 12 = m := by
    split <;> omega
  have hmarch : (if (if m < 10 then m + 3 else m - 9) ≤ 2
      then (if (if m < 10 then m + 3 else m - 9) ≤ 2 then cycle * 400 + c.year + 1
        else cycle * 400 + c.year) - 1
      else (if (if m < 10 then m + 3 else m - 9) ≤ 2 then cycle * 400 + c.year + 1
        else cycle * 400 + c.year)) = cycle * 400 + (c.year : Int) := by
    split <;> omega
  have hcycle : (cycle * 400 + (c.year : Int)).fdiv 400 = cycle := by
    rw [Int.fdiv_eq_ediv_of_nonneg _ (by decide)]
    omega
  have hyearOf : (cycle * 400 + (c.year : Int) - cycle * 400).toNat = c.year := by omega
  have hday : (153 * m + 2) / 5 + (c.days - (153 * m + 2) / 5 + 1) - 1 = c.days := by omega
  unfold toDays
  simp only [hmarch, hcycle, hyearOf, hmonth, hday]
  omega

/-- The date of a day number is a day of the calendar. -/
theorem exists?_ofDays (days : Int) : (ofDays days).exists? = true := by
  obtain ⟨cycle, c, -, hdate⟩ := exists_cycle days
  have hle := c.days_le
  have hleap := fun h => c.isLeapYear_of_days h cycle
  rw [hdate]
  generalize c.days = d at hle hleap
  generalize hm : (5 * d + 2) / 153 = m
  rcases Nat.lt_or_ge m 11 with hm11 | hm11
  · -- every month but February
    interval_cases m <;> simp [exists?, monthLength] <;> omega
  · obtain rfl : m = 11 := by omega
    by_cases hlast : d = 365
    · simp [exists?, monthLength, hleap hlast, hlast]
    · have hday : d - 337 + 1 ≤ 28 := by omega
      have hlength : 28 ≤ monthLength (cycle * 400 + c.year + 1) 2 := by
        show 28 ≤ if isLeapYear (cycle * 400 + c.year + 1) then 29 else 28
        split <;> omega
      simpa [exists?] using hday.trans hlength

/-- Months and days of the calendar have two digits. -/
theorem lt_hundred_of_exists? {d : Date} (h : d.exists? = true) :
    d.month < 10 ^ 2 ∧ d.day < 10 ^ 2 := by
  simp only [exists?, Bool.and_eq_true, decide_eq_true_eq] at h
  have hlength : monthLength d.year d.month ≤ 31 := by
    unfold monthLength
    split <;> (try split) <;> omega
  omega

/-! ### The order of the calendar -/

/-- The order of the calendar: by year, month and day. -/
def IsBefore (a b : Date) : Prop :=
  a.year < b.year ∨ a.year = b.year ∧ (a.month < b.month ∨ a.month = b.month ∧ a.day < b.day)

/-- The year of a date when years begin in March. -/
def marchYear (d : Date) : Int := if d.month ≤ 2 then d.year - 1 else d.year

/-- The number of a date in its year when years begin in March. -/
def marchDay (d : Date) : Nat := (153 * ((d.month + 9) % 12) + 2) / 5 + d.day - 1

/-- The days before a year that begins in March, by the rule of leap years alone. -/
def yearStart (year : Int) : Int := 365 * year + year / 4 - year / 100 + year / 400

theorem toDays_eq (d : Date) : d.toDays = yearStart d.marchYear + d.marchDay + marchOrigin := by
  have hfdiv : d.marchYear.fdiv 400 = d.marchYear / 400 :=
    Int.fdiv_eq_ediv_of_nonneg _ (by decide)
  have hcycle : (cycleDays : Int) = 146097 := rfl
  show d.marchYear.fdiv 400 * cycleDays + ((d.marchYear - d.marchYear.fdiv 400 * 400).toNat * 365
    + (d.marchYear - d.marchYear.fdiv 400 * 400).toNat / 4
    - (d.marchYear - d.marchYear.fdiv 400 * 400).toNat / 100 + d.marchDay : Nat) + marchOrigin = _
  rw [hfdiv, hcycle, yearStart]
  omega

/-- Years do not overlap. -/
theorem yearStart_le {y z : Int} (h : y < z) : yearStart (y + 1) ≤ yearStart z := by
  unfold yearStart
  omega

/-- A month ends before the next one begins.  February has no rule of its own, as the year ends with
it. -/
theorem marchDay_lt_month {d : Date} (h : d.exists? = true) (hfeb : d.month ≠ 2) :
    d.marchDay < (153 * ((d.month + 9) % 12 + 1) + 2) / 5 := by
  simp only [exists?, Bool.and_eq_true, decide_eq_true_eq] at h
  obtain ⟨⟨⟨hm, hm'⟩, hd⟩, hlen⟩ := h
  have hlength : monthLength d.year d.month ≤
      (153 * ((d.month + 9) % 12 + 1) + 2) / 5 - (153 * ((d.month + 9) % 12) + 2) / 5 := by
    generalize d.month = month at hm hm' hfeb
    interval_cases month <;> simp [monthLength] at hfeb ⊢
  unfold marchDay
  omega

/-- The last day of a year is the one before the next year. -/
theorem marchDay_lt {d : Date} (h : d.exists? = true) :
    yearStart d.marchYear + d.marchDay < yearStart (d.marchYear + 1) := by
  by_cases hfeb : d.month = 2
  · simp only [exists?, Bool.and_eq_true, decide_eq_true_eq] at h
    have hlen : d.day ≤ if isLeapYear d.year then 29 else 28 := by
      simpa [monthLength, hfeb] using h.2
    have hyear : d.marchYear = d.year - 1 := by rw [marchYear, if_pos (by omega)]
    simp only [isLeapYear, Bool.and_eq_true, Bool.or_eq_true, decide_eq_true_eq] at hlen
    rw [hyear, marchDay, hfeb]
    unfold yearStart
    split at hlen <;> omega
  · have hlt := marchDay_lt_month h hfeb
    simp only [exists?, Bool.and_eq_true, decide_eq_true_eq] at h
    have hmonth : (d.month + 9) % 12 ≤ 10 := by omega
    unfold yearStart
    omega

/-- A day that comes before another by the calendar comes before it when years begin in March. -/
theorem IsBefore.march {a b : Date} (h : a.IsBefore b) (ha : a.exists? = true)
    (hb : b.exists? = true) :
    a.marchYear < b.marchYear ∨ a.marchYear = b.marchYear ∧ a.marchDay < b.marchDay := by
  have hindex (d : Date) (h1 : 1 ≤ d.month) (h12 : d.month ≤ 12) :
      d.month ≤ 2 ∧ (d.month + 9) % 12 = d.month + 9 ∨
        2 < d.month ∧ (d.month + 9) % 12 = d.month - 3 := by omega
  have hmonth := marchDay_lt_month ha
  simp only [exists?, Bool.and_eq_true, decide_eq_true_eq] at ha hb
  unfold IsBefore at h
  unfold marchYear
  unfold marchDay at hmonth ⊢
  rcases hindex a ha.1.1.1 ha.1.1.2 with ⟨hearly, heq⟩ | ⟨hlate, heq⟩ <;>
    rcases hindex b hb.1.1.1 hb.1.1.2 with ⟨hearly', heq'⟩ | ⟨hlate', heq'⟩ <;>
    rw [heq] at hmonth ⊢ <;> rw [heq'] <;> split_ifs <;> omega

/-- A day that comes before another by the calendar is counted before it. -/
theorem toDays_lt {a b : Date} (ha : a.exists? = true) (hb : b.exists? = true)
    (h : a.IsBefore b) : a.toDays < b.toDays := by
  rw [toDays_eq, toDays_eq]
  rcases h.march ha hb with hlt | ⟨heq, hlt⟩
  · have := marchDay_lt ha
    have := yearStart_le hlt
    omega
  · rw [heq]
    omega

/-- Days are counted in the order of the calendar. -/
theorem isBefore_ofDays {x y : Int} (h : x < y) : (ofDays x).IsBefore (ofDays y) := by
  have hnot : ¬ (ofDays y).IsBefore (ofDays x) := fun hbefore => by
    have := toDays_lt (exists?_ofDays y) (exists?_ofDays x) hbefore
    rw [toDays_ofDays, toDays_ofDays] at this
    omega
  have hne : ofDays x ≠ ofDays y := fun heq => by
    have := congrArg toDays heq
    rw [toDays_ofDays, toDays_ofDays] at this
    omega
  rw [ne_eq, Date.mk.injEq] at hne
  unfold IsBefore at hnot ⊢
  omega

end Date

end Perdure
