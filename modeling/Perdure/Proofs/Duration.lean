import Mathlib.Algebra.Ring.Nat
import Perdure.Duration
import Perdure.Proofs.Failure

/-!
# The grammar of durations

The reader of durations goes through a text character by character and knows only what it has added
up, whether it is behind the `T`, the amount under way and whether there was a component.  Here
stands beside it the grammar of the texts that it accepts: a sign, a `P`, components in weeks and
days, perhaps a `T` and components in hours, minutes and seconds, and at least one component in all.

## Main definitions

* `Duration.IsNumeral` — the amounts that are decimal numbers.
* `Duration.Measure` — the units, with the side of the `T` on which they stand.
* `Duration.Component`, `Duration.Body` — a component, and what may follow the `P`.

## Main results

* `Duration.isSome_amount?_iff` — the amounts that are read are the decimal numbers.
* `Duration.Body.foldlM_step`, `Duration.exists_body_of_foldlM` — the reader runs through exactly
  the texts of the grammar.
* `Duration.ofChars_eq_ok_iff` — the durations that are read, and what they denote.
-/

namespace Perdure

namespace Duration

/-! ### Amounts -/

/-- A decimal number: digits, at least one, with at most one point among them. -/
structure IsNumeral (number : List Char) : Prop where
  chars : ∀ c ∈ number, c.isDigit = true ∨ c = '.'
  digit : ∃ c ∈ number, c.isDigit = true
  point : number.count '.' ≤ 1

theorem ne_point_of_isDigit {c : Char} (h : c.isDigit = true) : c ≠ '.' := by
  rintro rfl
  exact absurd h (by decide)

/-- A text is what stands before its first point and, if it has one, the point and the rest. -/
theorem point_cases (number : List Char) :
    ('.' ∉ number ∧ number.takeWhile (· ≠ '.') = number ∧ number.dropWhile (· ≠ '.') = []) ∨
      ∃ whole fraction, number = whole ++ '.' :: fraction ∧ '.' ∉ whole ∧
        number.takeWhile (· ≠ '.') = whole ∧ number.dropWhile (· ≠ '.') = '.' :: fraction := by
  induction number with
  | nil => exact .inl ⟨List.not_mem_nil, rfl, rfl⟩
  | cons c rest ih =>
    by_cases hc : c = '.'
    · subst hc
      exact .inr ⟨[], rest, rfl, List.not_mem_nil, rfl, rfl⟩
    · have htake : (c :: rest).takeWhile (· ≠ '.') = c :: rest.takeWhile (· ≠ '.') :=
        List.takeWhile_cons_of_pos (by simpa using hc)
      have hdrop : (c :: rest).dropWhile (· ≠ '.') = rest.dropWhile (· ≠ '.') :=
        List.dropWhile_cons_of_pos (by simpa using hc)
      rw [htake, hdrop]
      rcases ih with ⟨hp, ht, hd⟩ | ⟨whole, fraction, rfl, hp, ht, hd⟩
      · refine .inl ⟨?_, by rw [ht], hd⟩
        rw [List.mem_cons, not_or]
        exact ⟨Ne.symm hc, hp⟩
      · refine .inr ⟨c :: whole, fraction, rfl, ?_, by rw [ht], hd⟩
        rw [List.mem_cons, not_or]
        exact ⟨Ne.symm hc, hp⟩

/-- An amount is read when there are digits before and behind its first point, and nothing else. -/
theorem isSome_amount?_of_parts {number whole : List Char} (fraction : List Char)
    (hw : number.takeWhile (· ≠ '.') = whole)
    (hf : (number.dropWhile (· ≠ '.')).drop 1 = fraction) : (amount? number).isSome = true ↔
      whole ++ fraction ≠ [] ∧ ∀ c ∈ whole ++ fraction, c.isDigit = true := by
  unfold amount?
  simp only [hw, hf]
  split
  · next h =>
    rw [List.isEmpty_iff, List.all_eq_true] at h
    refine iff_of_false Bool.false_ne_true ?_
    rintro ⟨hne, hall⟩
    exact h.elim hne fun hn => hn hall
  · next h =>
    rw [List.isEmpty_iff, List.all_eq_true, not_or, not_not] at h
    exact iff_of_true rfl h

/-- The amounts that are read are the decimal numbers. -/
theorem isSome_amount?_iff (number : List Char) :
    (amount? number).isSome = true ↔ IsNumeral number := by
  rcases point_cases number with ⟨hp, hw, hf⟩ | ⟨whole, fraction, rfl, hp, hw, hf⟩
  · rw [isSome_amount?_of_parts [] hw (by rw [hf]; rfl), List.append_nil]
    constructor
    · rintro ⟨hne, hall⟩
      obtain ⟨c, hc⟩ := List.exists_mem_of_ne_nil _ hne
      exact ⟨fun c hc => .inl (hall c hc), ⟨c, hc, hall c hc⟩, by
        rw [List.count_eq_zero.2 hp]; omega⟩
    · rintro ⟨hchars, ⟨c, hc, -⟩, -⟩
      refine ⟨List.ne_nil_of_mem hc, fun c hc => (hchars c hc).resolve_right ?_⟩
      rintro rfl
      exact hp hc
  · rw [isSome_amount?_of_parts fraction hw (by rw [hf]; rfl)]
    have hcount : (whole ++ '.' :: fraction).count '.' = fraction.count '.' + 1 := by
      rw [List.count_append, List.count_eq_zero.2 hp, List.count_cons_self, Nat.zero_add]
    constructor
    · rintro ⟨hne, hall⟩
      have hmem {c : Char} (hc : c ∈ whole ++ fraction) : c ∈ whole ++ '.' :: fraction :=
        (List.mem_append.1 hc).elim (List.mem_append_left _) fun h =>
          List.mem_append_right _ (List.mem_cons_of_mem _ h)
      obtain ⟨c, hc⟩ := List.exists_mem_of_ne_nil _ hne
      have hfraction : '.' ∉ fraction := fun h =>
        ne_point_of_isDigit (hall _ (List.mem_append_right _ h)) rfl
      refine ⟨fun c hc => ?_, ⟨c, hmem hc, hall c hc⟩, ?_⟩
      · rcases List.mem_append.1 hc with hc | hc
        · exact .inl (hall c (List.mem_append_left _ hc))
        · rcases List.mem_cons.1 hc with rfl | hc
          · exact .inr rfl
          · exact .inl (hall c (List.mem_append_right _ hc))
      · have hnone := List.count_eq_zero.2 hfraction
        omega
    · rintro ⟨hchars, ⟨c, hc, hd⟩, hpoint⟩
      -- the one point stands between the two parts, so it is in neither of them
      have hfraction : '.' ∉ fraction := List.count_eq_zero.1 (by omega)
      have hmem : c ∈ whole ++ fraction := by
        rcases List.mem_append.1 hc with hc | hc
        · exact List.mem_append_left _ hc
        · exact List.mem_append_right _
            ((List.mem_cons.1 hc).resolve_left (ne_point_of_isDigit hd))
      refine ⟨List.ne_nil_of_mem hmem, fun c hc => ?_⟩
      rcases List.mem_append.1 hc with hc | hc
      · refine (hchars c (List.mem_append_left _ hc)).resolve_right ?_
        rintro rfl
        exact hp hc
      · refine (hchars c (List.mem_append_right _ (List.mem_cons_of_mem _ hc))).resolve_right ?_
        rintro rfl
        exact hfraction hc

/-! ### Components -/

/-- The units that a duration is measured in. -/
inductive Measure where
  | week
  | day
  | hour
  | minute
  | second
deriving DecidableEq, Repr

namespace Measure

/-- The letter of a unit. -/
def designator : Measure → Char
  | week => 'W'
  | day => 'D'
  | hour => 'H'
  | minute => 'M'
  | second => 'S'

/-- Does the unit stand behind the `T`? -/
def isTimed : Measure → Bool
  | week | day => false
  | hour | minute | second => true

/-- The milliseconds of a unit. -/
def millis : Measure → Nat
  | week => 7 * 24 * 60 * 60 * 1000
  | day => 24 * 60 * 60 * 1000
  | hour => 60 * 60 * 1000
  | minute => 60 * 1000
  | second => 1000

/-- The letters that a side of the `T` knows are those of its units. -/
theorem unitMillis_eq_ok_iff {designator : Char} {timed : Bool} {n : Nat} :
    unitMillis designator timed = .ok n ↔
      ∃ u : Measure, u.designator = designator ∧ u.isTimed = timed ∧ u.millis = n := by
  constructor
  · intro h
    unfold unitMillis at h
    split at h <;> cases h
    · exact ⟨week, rfl, rfl, rfl⟩
    · exact ⟨day, rfl, rfl, rfl⟩
    · exact ⟨hour, rfl, rfl, rfl⟩
    · exact ⟨minute, rfl, rfl, rfl⟩
    · exact ⟨second, rfl, rfl, rfl⟩
  · rintro ⟨u, rfl, rfl, rfl⟩
    cases u <;> rfl

/-- No unit is written like a part of an amount, or like the `T`. -/
theorem designator_cases (u : Measure) :
    u.designator ≠ 'T' ∧ u.designator.isDigit = false ∧ u.designator ≠ '.' := by
  cases u <;> decide

end Measure

/-- An amount of a unit. -/
structure Component where
  number : List Char
  unit : Measure
deriving DecidableEq, Repr

namespace Component

/-- The amount, and then the letter of the unit. -/
def text (c : Component) : List Char := c.number ++ [c.unit.designator]

/-- The milliseconds of a component; `none` if the amount is no number or out of range. -/
def millis? (c : Component) : Option Nat :=
  (amount? c.number).bind fun value => convert? value c.unit.millis

theorem isNumeral_of_millis? {c : Component} {n : Nat} (h : c.millis? = some n) :
    IsNumeral c.number := by
  obtain ⟨value, hvalue, -⟩ := Option.bind_eq_some_iff.1 h
  exact (isSome_amount?_iff c.number).1 (by rw [hvalue]; rfl)

end Component

/-- An amount with a letter behind it: the amount is read first, then the letter, and then one is
converted by the other. -/
theorem component_of_ne_nil {number : List Char} (hne : number ≠ []) (designator : Char)
    (timed : Bool) : component number designator timed = match amount? number with
      | none => .error (.badNumber (String.ofList number))
      | some value => unitMillis designator timed >>= fun unit =>
        match convert? value unit with
        | none => .error .outOfRange
        | some n => .ok n := by
  cases number with
  | nil => exact absurd rfl hne
  | cons c rest => rfl

/-- A component is read when its letter stands for a unit on this side of the `T` and the amount
can be converted. -/
theorem component_eq_ok_iff {number : List Char} {designator : Char} {timed : Bool} {n : Nat} :
    component number designator timed = .ok n ↔ ∃ u : Measure,
      u.designator = designator ∧ u.isTimed = timed ∧ Component.millis? ⟨number, u⟩ = some n := by
  by_cases hne : number = []
  · subst hne
    exact iff_of_false nofun fun ⟨u, _, _, h⟩ => nomatch h
  rw [component_of_ne_nil hne]
  constructor
  · intro h
    cases ha : amount? number with
    | none =>
      rw [ha] at h
      cases h
    | some value =>
      rw [ha] at h
      obtain ⟨unit, hunit, h⟩ := exists_of_bind_eq_ok h
      obtain ⟨u, hd, ht, rfl⟩ := Measure.unitMillis_eq_ok_iff.1 hunit
      refine ⟨u, hd, ht, ?_⟩
      rw [Component.millis?, ha, Option.bind_some]
      split at h
      · cases h
      · next m hm =>
        cases h
        exact hm
  · rintro ⟨u, hd, ht, h⟩
    obtain ⟨value, ha, hc⟩ := Option.bind_eq_some_iff.1 h
    have hunit := Measure.unitMillis_eq_ok_iff.2 ⟨u, hd, ht, rfl⟩
    rw [ha]
    simp only [hunit, bind, Except.bind, hc]

/-! ### The grammar -/

/-- What may follow the `P`: components, each of a unit that belongs on its side of the `T`, and at
most one `T` among them.  The list holds the components. -/
inductive Body : (timed : Bool) → List Char → List Component → Prop
  | nil (timed : Bool) : Body timed [] []
  | component {timed : Bool} {rest : List Char} {cs : List Component} (c : Component)
      (hn : IsNumeral c.number) (hu : c.unit.isTimed = timed) (h : Body timed rest cs) :
      Body timed (c.text ++ rest) (c :: cs)
  | mark {rest : List Char} {cs : List Component} (h : Body true rest cs) :
      Body false ('T' :: rest) cs

/-! ### The reader and the grammar -/

namespace Reading

/-- A part of an amount is added to the amount under way. -/
theorem step_of_digit {r : Reading} {c : Char} (h : c.isDigit = true ∨ c = '.') :
    r.step c = .ok { r with number := r.number ++ [c] } := by
  have hT : c ≠ 'T' := by
    rintro rfl
    exact absurd h (by decide)
  unfold step
  rw [if_neg fun hc => hT hc.1, if_pos h]

theorem foldlM_step_of_digits {r : Reading} {number : List Char}
    (h : ∀ c ∈ number, c.isDigit = true ∨ c = '.') :
    number.foldlM step r = .ok { r with number := r.number ++ number } := by
  induction number generalizing r with
  | nil => rw [List.append_nil]; rfl
  | cons c rest ih =>
    rw [List.foldlM_cons, step_of_digit (h c List.mem_cons_self)]
    show rest.foldlM step _ = _
    rw [ih fun d hd => h d (List.mem_cons_of_mem c hd), List.append_assoc, List.singleton_append]

/-- The `T` is noted where it may stand. -/
theorem step_mark {r : Reading} (ht : r.timed = false) (hn : r.number = []) :
    r.step 'T' = .ok { r with timed := true } := by
  unfold step
  rw [if_pos ⟨rfl, ht, hn⟩]

/-- Any other letter ends the amount under way, which is added as a component. -/
theorem step_of_letter {r : Reading} {c : Char}
    (hT : ¬ (c = 'T' ∧ r.timed = false ∧ r.number = [])) (hd : ¬ (c.isDigit = true ∨ c = '.'))
    {r' : Reading} : r.step c = .ok r' ↔
      ∃ n, component r.number c r.timed = .ok n ∧ r.total + n < bound ∧
        r' = { r with total := r.total + n, number := [], found := true } := by
  have hstep : r.step c = component r.number c r.timed >>= fun n =>
      if bound ≤ r.total + n then .error .outOfRange
      else .ok { r with total := r.total + n, number := [], found := true } := by
    unfold step
    rw [if_neg hT, if_neg hd]
    cases component r.number c r.timed with
    | error e => rfl
    | ok n =>
      show (if bound ≤ r.total + n then _ else _) = if bound ≤ r.total + n then _ else _
      split <;> rfl
  rw [hstep]
  constructor
  · intro h
    obtain ⟨n, hn, h⟩ := exists_of_bind_eq_ok h
    split at h
    · cases h
    · next hlt =>
      cases h
      exact ⟨n, hn, Nat.lt_of_not_le hlt, rfl⟩
  · rintro ⟨n, hn, hlt, rfl⟩
    rw [hn]
    exact if_neg (Nat.not_le.2 hlt)

/-- No step takes the sum out of range. -/
theorem total_lt_of_step {r r' : Reading} {c : Char} (h : r.step c = .ok r')
    (hlt : r.total < bound) : r'.total < bound := by
  by_cases hT : c = 'T' ∧ r.timed = false ∧ r.number = []
  · obtain ⟨rfl, ht, hn⟩ := hT
    rw [step_mark ht hn] at h
    cases h
    exact hlt
  · by_cases hd : c.isDigit = true ∨ c = '.'
    · rw [step_of_digit hd] at h
      cases h
      exact hlt
    · obtain ⟨n, -, hnext, rfl⟩ := (step_of_letter hT hd).1 h
      exact hnext

theorem total_lt_of_foldlM {rest : List Char} {r r' : Reading} (h : rest.foldlM step r = .ok r')
    (hlt : r.total < bound) : r'.total < bound := by
  induction rest generalizing r with
  | nil =>
    cases h
    exact hlt
  | cons c rest ih =>
    rw [List.foldlM_cons] at h
    obtain ⟨next, hstep, hrun⟩ := exists_of_bind_eq_ok h
    exact ih hrun (total_lt_of_step hstep hlt)

/-- A component is added to a reading between two components. -/
theorem foldlM_step_component {r : Reading} (hr : r.number = []) {c : Component} {n : Nat}
    (hu : c.unit.isTimed = r.timed) (hc : c.millis? = some n) (hlt : r.total + n < bound) :
    c.text.foldlM step r = .ok { r with total := r.total + n, found := true } := by
  obtain ⟨hT, hd, hp⟩ := c.unit.designator_cases
  have hletter : step { r with number := c.number } c.unit.designator =
      .ok { r with total := r.total + n, number := [], found := true } := by
    refine (step_of_letter (fun h => hT h.1) ?_).2 ⟨n, ?_, hlt, rfl⟩
    · rintro (h | h)
      · rw [hd] at h
        cases h
      · exact hp h
    · exact component_eq_ok_iff.2 ⟨c.unit, rfl, hu, hc⟩
  rw [Component.text, List.foldlM_append, foldlM_step_of_digits (c.isNumeral_of_millis? hc).chars,
    hr, List.nil_append]
  show [c.unit.designator].foldlM step _ = _
  rw [List.foldlM_cons, hletter]
  rfl

end Reading

/-- The reader runs through what the grammar allows to follow, and adds up the components, unless
their sum goes out of range. -/
theorem Body.foldlM_step {timed : Bool} {rest : List Char} {cs : List Component}
    (h : Body timed rest cs) {ns : List Nat} (hns : cs.mapM Component.millis? = some ns)
    {r : Reading} (hr : r.number = []) (ht : r.timed = timed) (hlt : r.total + ns.sum < bound) :
    ∃ r', rest.foldlM Reading.step r = .ok r' ∧ r'.number = [] ∧ r'.total = r.total + ns.sum ∧
      (r'.found = true ↔ r.found = true ∨ cs ≠ []) := by
  induction h generalizing ns r with
  | nil timed =>
    cases hns
    exact ⟨r, rfl, hr, rfl, by simp⟩
  | @component timed rest cs c hn hu h ih =>
    obtain ⟨n, ms, hc, hms, rfl⟩ := exists_of_mapM_cons hns
    rw [List.sum_cons] at hlt
    have hstep := Reading.foldlM_step_component hr (hu.trans ht.symm) hc (by omega)
    obtain ⟨r', hrun, hnumber, htotal, hfound⟩ :=
      ih hms (r := { r with total := r.total + n, found := true }) hr ht (by dsimp only; omega)
    refine ⟨r', ?_, hnumber, ?_, ?_⟩
    · rw [List.foldlM_append, hstep]
      exact hrun
    · rw [htotal, List.sum_cons, Nat.add_assoc]
    · rw [hfound]
      simp
  | @mark rest cs h ih =>
    obtain ⟨r', hrun, hnumber, htotal, hfound⟩ :=
      ih hns (r := { r with timed := true }) hr rfl hlt
    refine ⟨r', ?_, hnumber, htotal, hfound⟩
    rw [List.foldlM_cons, Reading.step_mark ht hr]
    exact hrun

/-- What the reader runs through, with the amount under way before it, is what the grammar
allows. -/
theorem exists_body_of_foldlM {rest : List Char} {r r' : Reading}
    (h : rest.foldlM Reading.step r = .ok r') (hend : r'.number = []) :
    ∃ cs ns, Body r.timed (r.number ++ rest) cs ∧ cs.mapM Component.millis? = some ns ∧
      r'.total = r.total + ns.sum ∧ (r'.found = true ↔ r.found = true ∨ cs ≠ []) := by
  induction rest generalizing r with
  | nil =>
    cases h
    refine ⟨[], [], ?_, rfl, rfl, by simp⟩
    rw [hend]
    exact .nil _
  | cons c rest ih =>
    rw [List.foldlM_cons] at h
    obtain ⟨next, hstep, hrun⟩ := exists_of_bind_eq_ok h
    by_cases hT : c = 'T' ∧ r.timed = false ∧ r.number = []
    · obtain ⟨rfl, ht, hn⟩ := hT
      rw [Reading.step_mark ht hn] at hstep
      cases hstep
      obtain ⟨cs, ns, hbody, hrest⟩ := ih hrun
      refine ⟨cs, ns, ?_, hrest⟩
      dsimp only at hbody
      rw [hn, List.nil_append] at hbody
      rw [ht, hn, List.nil_append]
      exact .mark hbody
    · by_cases hd : c.isDigit = true ∨ c = '.'
      · rw [Reading.step_of_digit hd] at hstep
        cases hstep
        obtain ⟨cs, ns, hbody, hrest⟩ := ih hrun
        refine ⟨cs, ns, ?_, hrest⟩
        rwa [List.append_assoc, List.singleton_append] at hbody
      · -- the letter ends a component, and the rest follows it
        obtain ⟨n, hn, -, rfl⟩ := (Reading.step_of_letter hT hd).1 hstep
        obtain ⟨u, rfl, hu, hc⟩ := component_eq_ok_iff.1 hn
        obtain ⟨cs, ns, hbody, hns, htotal, hfound⟩ := ih hrun
        refine ⟨⟨r.number, u⟩ :: cs, n :: ns, ?_, ?_, ?_, ?_⟩
        · have htext : r.number ++ u.designator :: rest =
              Component.text ⟨r.number, u⟩ ++ rest := by
            rw [Component.text, List.append_assoc, List.singleton_append]
          rw [htext]
          exact .component _ (Component.isNumeral_of_millis? hc) hu hbody
        · rw [List.mapM_cons, hc, hns]
          rfl
        · rw [htotal, List.sum_cons, Nat.add_assoc]
        · rw [hfound]
          simp

/-! ### Durations -/

theorem isRepresentable_of_lt {n : Nat} (h : n < bound) : isRepresentable n = true := by
  unfold isRepresentable
  rw [Bool.and_eq_true, decide_eq_true_eq, decide_eq_true_eq]
  omega

/-- A reading is over when no amount is under way and there was a component. -/
theorem Reading.finish_eq_ok_iff {r : Reading} (hlt : r.total < bound) {n : Nat} :
    r.finish = .ok n ↔ r.number = [] ∧ r.found = true ∧ n = r.total := by
  have hrep := isRepresentable_of_lt hlt
  obtain ⟨total, timed, number, found⟩ := r
  cases number <;> cases found <;> simp [Reading.finish, hrep, eq_comm]

/-- The last range check refuses no sum that is below the bound. -/
theorem Reading.finish_ne_outOfRange {r : Reading} (hlt : r.total < bound) :
    r.finish ≠ .error .outOfRange := by
  have hrep := isRepresentable_of_lt hlt
  obtain ⟨total, timed, number, found⟩ := r
  cases number <;> cases found <;> simp [Reading.finish, hrep]

/-- The magnitudes that are read. -/
theorem magnitude_eq_ok_iff {t : List Char} {n : Nat} : magnitude t = .ok n ↔
    ∃ rest cs ns, t = 'P' :: rest ∧ Body false rest cs ∧ cs ≠ [] ∧
      cs.mapM Component.millis? = some ns ∧ ns.sum < bound ∧ n = ns.sum := by
  constructor
  · intro h
    unfold magnitude at h
    split at h
    · next rest =>
      obtain ⟨r, hrun, hfin⟩ := exists_of_bind_eq_ok h
      have hlt := Reading.total_lt_of_foldlM hrun (by decide)
      obtain ⟨hnumber, hfound, rfl⟩ := (Reading.finish_eq_ok_iff hlt).1 hfin
      obtain ⟨cs, ns, hbody, hns, htotal, hcs⟩ := exists_body_of_foldlM hrun hnumber
      rw [Nat.zero_add] at htotal
      exact ⟨rest, cs, ns, rfl, hbody, (hcs.1 hfound).resolve_left Bool.false_ne_true, hns,
        htotal ▸ hlt, htotal⟩
    · cases h
  · rintro ⟨rest, cs, ns, rfl, hbody, hne, hns, hlt, rfl⟩
    obtain ⟨r, hrun, hnumber, htotal, hfound⟩ :=
      hbody.foldlM_step hns (r := {}) rfl rfl (by rwa [Nat.zero_add])
    rw [Nat.zero_add] at htotal
    show (rest.foldlM Reading.step {} >>= Reading.finish) = _
    rw [hrun, ← htotal]
    exact (Reading.finish_eq_ok_iff (by omega)).2 ⟨hnumber, hfound.2 (.inr hne), rfl⟩

/-- Is the magnitude turned around? -/
def signed (negative : Bool) (n : Nat) : Int := if negative then -(n : Int) else n

/-- The sign in front of the `P` turns the magnitude around. -/
theorem ofChars_sign_append (negative : Bool) (rest : List Char) :
    ofChars ((if negative then ['-'] else []) ++ 'P' :: rest) =
      (magnitude ('P' :: rest)).map (signed negative) := by
  cases negative <;> rfl

/-- What is read as a duration is a sign or none, and a magnitude. -/
theorem exists_magnitude_of_ofChars {t : List Char} {d : Int} (h : ofChars t = .ok d) :
    ∃ negative rest n, t = (if negative then ['-'] else []) ++ rest ∧ magnitude rest = .ok n ∧
      d = signed negative n := by
  unfold ofChars at h
  split at h
  · next rest =>
    obtain ⟨n, hm, rfl⟩ := exists_of_map_eq_ok h
    exact ⟨true, rest, n, rfl, hm, rfl⟩
  · obtain ⟨n, hm, rfl⟩ := exists_of_map_eq_ok h
    exact ⟨false, t, n, rfl, hm, rfl⟩

/-- A text is read as a duration exactly when it is a sign or none, a `P` and what the grammar
allows to follow, with a component at least, and the components, each in range, have a sum in range; this
sum, turned around for a sign, is what it denotes.  The last range check is never the one that
refuses a text: no sum that the reader arrives at fails it. -/
theorem ofChars_eq_ok_iff (t : List Char) :
    (∀ d, ofChars t = .ok d ↔ ∃ negative rest cs ns,
      t = (if negative then ['-'] else []) ++ 'P' :: rest ∧ Body false rest cs ∧ cs ≠ [] ∧
        cs.mapM Component.millis? = some ns ∧ ns.sum < 2 ^ 63 ∧ d = signed negative ns.sum) ∧
    ∀ (rest : List Char) (r : Reading), rest.foldlM Reading.step {} = .ok r →
      r.finish ≠ .error .outOfRange := by
  refine ⟨fun d => ⟨fun h => ?_, ?_⟩, fun rest r hrun => ?_⟩
  · obtain ⟨negative, rest, n, rfl, hm, rfl⟩ := exists_magnitude_of_ofChars h
    obtain ⟨rest, cs, ns, rfl, hbody, hne, hns, hlt, rfl⟩ := magnitude_eq_ok_iff.1 hm
    exact ⟨negative, rest, cs, ns, rfl, hbody, hne, hns, hlt, rfl⟩
  · rintro ⟨negative, rest, cs, ns, rfl, hbody, hne, hns, hlt, rfl⟩
    have hm := magnitude_eq_ok_iff.2 ⟨rest, cs, ns, rfl, hbody, hne, hns, hlt, rfl⟩
    rw [ofChars_sign_append, hm]
    rfl
  · exact Reading.finish_ne_outOfRange (Reading.total_lt_of_foldlM hrun (by decide))

example : ofChars "-P1DT2.5H".toList = .ok (-95400000) := by decide +kernel

example : ofChars "PT1H1D".toList = .error (.unexpected 'D') := by decide +kernel

end Duration

end Perdure
