import Perdure.Machine

/-!
# Executions as iterations

An execution makes one reduction after another and looks at its limit only after a reduction, and
only if work is left.  So it comes to what its reductions come to, taken one by one: it rests where
no reduction is left, fails where the next one fails, and is cut short after exactly as many as it
may make.  The clock may move on between two reductions.

## Main definitions

* `Program.Reduces` — so many reductions lead from one soup to another.
* `Program.Ends` — the three ways for an execution to end.
* `Program.Alike` — what reductions of two soups come to, if they are alike.

## Main results

* `Program.execute_eq` — an execution at one instant is one under a clock that stands still.
* `Program.ends_executeBy` — every execution ends in one of the three ways.
* `Program.executeBy_of_rest`, `Program.executeBy_of_failure` — where an execution rests or fails.
* `Program.execute_iterates` — which of them it is, told from the reductions alone.
* `Program.executeBy_alike` — what every reduction does alike on two soups, an execution does.
-/

namespace Perdure

namespace Program

variable {γ π η μ ε : Type}

/-! ### Reductions one by one -/

/-- `p.Reduces clock s n t` says that `n` reductions lead from `s` to `t`, each at the time that the
clock shows after those before it. -/
inductive Reduces (p : Program γ π η μ ε) (clock : Nat → Instant) (s : Soup γ π η μ) :
    Nat → Soup γ π η μ → Prop
  | refl : Reduces p clock s 0 s
  | step {n : Nat} {t u : Soup γ π η μ} (h : Reduces p clock s n t)
      (hs : p.step? (clock n) t = .ok (some u)) : Reduces p clock s (n + 1) u

section

variable {p : Program γ π η μ ε} {clock : Nat → Instant} {s t u : Soup γ π η μ} {n k : Nat}

/-- Reductions lead to one soup. -/
theorem Reduces.unique (ht : p.Reduces clock s n t) (hu : p.Reduces clock s n u) : t = u := by
  induction ht generalizing u with
  | refl =>
    cases hu
    rfl
  | step _ hs ih =>
    cases hu with
    | step hu hs' =>
      rw [ih hu, hs'] at hs
      cases hs
      rfl

/-- Fewer reductions lead somewhere as well. -/
theorem Reduces.exists_of_le (hu : p.Reduces clock s k u) (hn : n ≤ k) :
    ∃ t, p.Reduces clock s n t := by
  induction hu with
  | refl => exact ⟨s, Nat.le_zero.1 hn ▸ .refl⟩
  | @step k _ _ h hs ih =>
    rcases Nat.le_succ_iff.1 hn with hn | rfl
    · exact ih hn
    · exact ⟨_, .step h hs⟩

/-- No more reductions are made than lead to a soup from which none leads on. -/
theorem Reduces.le_of_stuck (hu : p.Reduces clock s k u) (ht : p.Reduces clock s n t)
    (hstuck : ∀ v, p.step? (clock n) t ≠ .ok (some v)) : k ≤ n := by
  refine Nat.le_of_not_lt fun hlt => ?_
  obtain ⟨v, hv⟩ := hu.exists_of_le (n := n + 1) hlt
  cases hv with
  | step ht' hs => exact hstuck v (ht.unique ht' ▸ hs)

/-- Reductions lead on from where others lead. -/
theorem Reduces.trans (ht : p.Reduces clock s n t)
    (hu : p.Reduces (fun i => clock (n + i)) t k u) : p.Reduces clock s (n + k) u := by
  induction hu with
  | refl => exact ht
  | step _ hs ih => exact .step ih hs

/-- There is one soup from which no reduction leads on, and one number of reductions to it. -/
theorem Reduces.eq_of_stuck (hu : p.Reduces clock s k u) (ht : p.Reduces clock s n t)
    (hstuck : ∀ v, p.step? (clock n) t ≠ .ok (some v))
    (hstuck' : ∀ v, p.step? (clock k) u ≠ .ok (some v)) : k = n ∧ u = t := by
  obtain rfl := Nat.le_antisymm (hu.le_of_stuck ht hstuck) (ht.le_of_stuck hu hstuck')
  exact ⟨rfl, hu.unique ht⟩

end

/-- Work is left exactly when a reduction can be made, or fails. -/
theorem hasWork_iff (p : Program γ π η μ ε) (now : Instant) (s : Soup γ π η μ) :
    s.hasWork = true ↔
      (∃ t, p.step? now s = .ok (some t)) ∨ ∃ e, p.step? now s = .error e := by
  rw [← Bool.not_eq_false, ← p.step?_eq_none_iff now]
  cases p.step? now s with
  | error e => simp
  | ok r => cases r <;> simp

/-! ### Executions at one instant -/

theorem reduce_eq (p : Program γ π η μ ε) (now : Instant) (limit more done : Nat)
    (s : Soup γ π η μ) :
    p.reduce now limit more done s = (p.reduceBy (fun _ => now) limit more done s).outcome := by
  induction more generalizing done s with
  | zero =>
    unfold reduce reduceBy
    rcases p.step? now s with e | _ | t
    · rfl
    · rfl
    · dsimp only
      cases t.hasWork <;> rfl
  | succ more ih =>
    unfold reduce reduceBy
    rcases p.step? now s with e | _ | t
    · rfl
    · rfl
    · exact ih (done + 1) t

/-- An execution at one instant is one under a clock that stands still. -/
theorem execute_eq (p : Program γ π η μ ε) (now : Instant) (limit : Nat) (s : Soup γ π η μ) :
    p.execute now limit s = (p.executeBy (fun _ => now) limit s).outcome :=
  p.reduce_eq now limit (limit - 1) 0 s

/-! ### How executions end -/

/-- How an execution ends that may make so many reductions. -/
inductive Ends (p : Program γ π η μ ε) (clock : Nat → Instant) (s : Soup γ π η μ)
    (limit most : Nat) : Trail γ π η μ ε → Prop
  /-- No reduction is left. -/
  | rested {n : Nat} {t : Soup γ π η μ} (h : p.Reduces clock s n t) (hn : n ≤ most)
      (hrest : p.step? (clock n) t = .ok none) : Ends p clock s limit most ⟨t, n, none⟩
  /-- The next reduction fails. -/
  | failed {n : Nat} {t : Soup γ π η μ} {e : ε} (h : p.Reduces clock s n t) (hn : n < most)
      (he : p.step? (clock n) t = .error e) : Ends p clock s limit most ⟨t, n, some (.process e)⟩
  /-- As many reductions as allowed were made, and work is left. -/
  | exceeded {t : Soup γ π η μ} (h : p.Reduces clock s most t) (hw : t.hasWork = true) :
      Ends p clock s limit most ⟨t, most, some (.limitExceeded limit)⟩

theorem ends_reduceBy {p : Program γ π η μ ε} {clock : Nat → Instant} {s t : Soup γ π η μ}
    {limit more done : Nat} (h : p.Reduces clock s done t) :
    p.Ends clock s limit (done + (more + 1)) (p.reduceBy clock limit more done t) := by
  induction more generalizing done t with
  | zero =>
    unfold reduceBy
    cases hs : p.step? (clock done) t with
    | error e => exact .failed h (Nat.lt_succ_self done) hs
    | ok r => cases r with
      | none => exact .rested h (Nat.le_succ done) hs
      | some u =>
        -- this was the last reduction, so what matters is whether work is left
        dsimp only
        cases hw : u.hasWork with
        | true => exact .exceeded (.step h hs) hw
        | false =>
          exact .rested (.step h hs) (Nat.le_refl _) ((p.step?_eq_none_iff _ u).2 hw)
  | succ more ih =>
    unfold reduceBy
    cases hs : p.step? (clock done) t with
    | error e => exact .failed h (by omega) hs
    | ok r => cases r with
      | none => exact .rested h (by omega) hs
      | some u =>
        have hrest := ih (Reduces.step h hs)
        rwa [Nat.add_assoc, Nat.add_comm 1] at hrest

/-- Every execution ends in one of three ways.  A limit of zero allows one reduction, like a limit of
one. -/
theorem ends_executeBy (p : Program γ π η μ ε) (clock : Nat → Instant) (limit : Nat)
    (s : Soup γ π η μ) : p.Ends clock s limit (max limit 1) (p.executeBy clock limit s) := by
  have hends : p.Ends clock s limit (0 + (limit - 1 + 1)) (p.executeBy clock limit s) :=
    ends_reduceBy .refl
  have hmost : 0 + (limit - 1 + 1) = max limit 1 := by omega
  rwa [hmost] at hends

section

variable {p : Program γ π η μ ε} {clock : Nat → Instant} {s t : Soup γ π η μ} {limit n : Nat}

/-- What an execution comes to has the soup that it leaves. -/
theorem Trail.soup_of_outcome {trail : Trail γ π η μ ε} {o : Outcome γ π η μ}
    (ho : trail.outcome = .ok o) : trail.soup = o.soup := by
  unfold outcome at ho
  split at ho
  · cases ho
  · cases ho
    rfl

/-- An execution that comes to something rests where reductions lead, with no work left. -/
theorem reduces_of_outcome {o : Outcome γ π η μ}
    (ho : (p.executeBy clock limit s).outcome = .ok o) :
    p.Reduces clock s o.reductions o.soup ∧ o.soup.hasWork = false := by
  have hends := p.ends_executeBy clock limit s
  generalize p.executeBy clock limit s = trail at ho hends
  cases hends with
  | rested h _ hrest =>
    cases ho
    exact ⟨h, (p.step?_eq_none_iff _ _).1 hrest⟩
  | failed | exceeded => cases ho

/-- An execution rests where no reduction is left. -/
theorem executeBy_of_rest (ht : p.Reduces clock s n t) (hrest : p.step? (clock n) t = .ok none)
    (hn : n ≤ max limit 1) : p.executeBy clock limit s = ⟨t, n, none⟩ := by
  have hstuck (v : Soup γ π η μ) : p.step? (clock n) t ≠ .ok (some v) := by
    rw [hrest]
    exact nofun
  have hends := p.ends_executeBy clock limit s
  generalize p.executeBy clock limit s = trail at hends
  cases hends with
  | rested hu _ hrest' =>
    obtain ⟨rfl, rfl⟩ := hu.eq_of_stuck ht hstuck (by rw [hrest']; exact nofun)
    rfl
  | failed hu _ he =>
    obtain ⟨rfl, rfl⟩ := hu.eq_of_stuck ht hstuck (by rw [he]; exact nofun)
    rw [hrest] at he
    cases he
  | exceeded hu hw =>
    obtain rfl := Nat.le_antisymm (hu.le_of_stuck ht hstuck) hn
    rw [hu.unique ht, (p.step?_eq_none_iff _ t).1 hrest] at hw
    cases hw

/-- An execution fails as the first reduction that fails. -/
theorem executeBy_of_failure {e : ε} (ht : p.Reduces clock s n t)
    (he : p.step? (clock n) t = .error e) (hn : n < max limit 1) :
    p.executeBy clock limit s = ⟨t, n, some (.process e)⟩ := by
  have hstuck (v : Soup γ π η μ) : p.step? (clock n) t ≠ .ok (some v) := by
    rw [he]
    exact nofun
  have hends := p.ends_executeBy clock limit s
  generalize p.executeBy clock limit s = trail at hends
  cases hends with
  | rested hu _ hrest =>
    obtain ⟨rfl, rfl⟩ := hu.eq_of_stuck ht hstuck (by rw [hrest]; exact nofun)
    rw [he] at hrest
    cases hrest
  | failed hu _ he' =>
    obtain ⟨rfl, rfl⟩ := hu.eq_of_stuck ht hstuck (by rw [he']; exact nofun)
    rw [he] at he'
    cases he'
    rfl
  | exceeded hu _ => exact absurd (hu.le_of_stuck ht hstuck) (Nat.not_le.2 hn)

/-- At one instant, an execution rests where no reduction is left. -/
theorem execute_of_rest {now : Instant} (ht : p.Reduces (fun _ => now) s n t)
    (hrest : t.hasWork = false) (hn : n ≤ max limit 1) : p.execute now limit s = .ok ⟨t, n⟩ := by
  rw [p.execute_eq, executeBy_of_rest ht ((p.step?_eq_none_iff now t).2 hrest) hn]
  rfl

end

/-- **Executions are iterations within a limit.**  Whatever the program, the clock, the limit and the
soup: if no reduction is left after so many, and they are no more than allowed, the execution rests
there, terminated exactly when nobody waits, and neither another reduction nor another execution
does anything from there.  If the next reduction fails before as many were made, the execution fails
as it does.  Otherwise the limit is exceeded, after as many reductions as allowed.  And work is left
exactly when a reduction can be made, or fails. -/
theorem execute_iterates (p : Program γ π η μ ε) (clock : Nat → Instant) (limit : Nat)
    (s : Soup γ π η μ) :
    (∀ now, p.execute now limit s = (p.executeBy (fun _ => now) limit s).outcome) ∧
    (∀ n t, p.Reduces clock s n t → p.step? (clock n) t = .ok none → n ≤ max limit 1 →
      p.executeBy clock limit s = ⟨t, n, none⟩ ∧
      ((⟨t, n⟩ : Outcome γ π η μ).rest = .terminated ↔ t.choices = []) ∧
      ∀ clock' limit', p.step? (clock' 0) t = .ok none ∧
        p.executeBy clock' limit' t = ⟨t, 0, none⟩) ∧
    (∀ n t e, p.Reduces clock s n t → p.step? (clock n) t = .error e → n < max limit 1 →
      p.executeBy clock limit s = ⟨t, n, some (.process e)⟩) ∧
    ((∀ n t, p.Reduces clock s n t → (p.step? (clock n) t = .ok none → max limit 1 < n) ∧
        ∀ e, p.step? (clock n) t = .error e → max limit 1 ≤ n) →
      ∃ t, p.Reduces clock s (max limit 1) t ∧
        p.executeBy clock limit s = ⟨t, max limit 1, some (.limitExceeded limit)⟩) ∧
    ∀ now t, t.hasWork = true ↔
      (∃ u, p.step? now t = .ok (some u)) ∨ ∃ e, p.step? now t = .error e := by
  refine ⟨fun now => p.execute_eq now limit s, ?_, fun n t e => executeBy_of_failure, ?_,
    p.hasWork_iff⟩
  · intro n t ht hrest hn
    refine ⟨executeBy_of_rest ht hrest hn, ?_, ?_⟩
    · unfold Outcome.rest
      cases t.choices <;> simp
    · -- whether work is left does not depend on the clock
      intro clock' limit'
      have hrest' : p.step? (clock' 0) t = .ok none :=
        (p.step?_eq_none_iff _ t).2 ((p.step?_eq_none_iff _ t).1 hrest)
      exact ⟨hrest', executeBy_of_rest .refl hrest' (Nat.zero_le _)⟩
  · intro hall
    have hends := p.ends_executeBy clock limit s
    generalize p.executeBy clock limit s = trail at hends
    cases hends with
    | rested hu hn hrest => exact absurd ((hall _ _ hu).1 hrest) (Nat.not_lt.2 hn)
    | failed hu hn he => exact absurd ((hall _ _ hu).2 _ he) (Nat.not_le.2 hn)
    | exceeded hu _ => exact ⟨_, hu, rfl⟩

/-! ### Executions of soups that are alike -/

/-- What reductions of two soups come to: the same error, nothing, or soups that are related. -/
inductive Alike (R : Soup γ π η μ → Soup γ π η μ → Prop) :
    Except ε (Option (Soup γ π η μ)) → Except ε (Option (Soup γ π η μ)) → Prop
  | failed (e : ε) : Alike R (.error e) (.error e)
  | stuck : Alike R (.ok none) (.ok none)
  | reduced {s t : Soup γ π η μ} (h : R s t) : Alike R (.ok (some s)) (.ok (some t))

section

variable {p : Program γ π η μ ε} {R : Soup γ π η μ → Soup γ π η μ → Prop}
  (hstep : ∀ now s t, R s t → Alike R (p.step? now s) (p.step? now t))

include hstep

/-- Work is left in both soups or in neither. -/
theorem hasWork_alike {s t : Soup γ π η μ} (h : R s t) : s.hasWork = t.hasWork := by
  have hboth := hstep default s t h
  have hrest : s.hasWork = false ↔ t.hasWork = false := by
    rw [← p.step?_eq_none_iff default, ← p.step?_eq_none_iff default]
    generalize p.step? default s = r, p.step? default t = r' at hboth
    cases hboth <;> simp
  cases ht : t.hasWork with
  | false => exact hrest.2 ht
  | true => exact Bool.of_not_eq_false fun hs => by rw [hrest.1 hs] at ht; cases ht

theorem reduceBy_alike (clock : Nat → Instant) (limit more done : Nat) {s t : Soup γ π η μ}
    (h : R s t) :
    R (p.reduceBy clock limit more done s).soup (p.reduceBy clock limit more done t).soup ∧
    (p.reduceBy clock limit more done s).reductions =
      (p.reduceBy clock limit more done t).reductions ∧
    (p.reduceBy clock limit more done s).failure =
      (p.reduceBy clock limit more done t).failure := by
  have hboth := hstep (clock done) s t h
  induction more generalizing done s t with
  | zero =>
    unfold reduceBy
    generalize p.step? (clock done) s = r, p.step? (clock done) t = r' at hboth
    cases hboth with
    | failed | stuck => exact ⟨h, rfl, rfl⟩
    | reduced hnext =>
      refine ⟨hnext, rfl, ?_⟩
      dsimp only
      rw [hasWork_alike hstep hnext]
  | succ more ih =>
    unfold reduceBy
    generalize p.step? (clock done) s = r, p.step? (clock done) t = r' at hboth
    cases hboth with
    | failed | stuck => exact ⟨h, rfl, rfl⟩
    | reduced hnext => exact ih (done + 1) hnext (hstep _ _ _ hnext)

/-- If every reduction does alike on two soups, then so does an execution. -/
theorem executeBy_alike (clock : Nat → Instant) (limit : Nat) {s t : Soup γ π η μ} (h : R s t) :
    R (p.executeBy clock limit s).soup (p.executeBy clock limit t).soup ∧
    (p.executeBy clock limit s).reductions = (p.executeBy clock limit t).reductions ∧
    (p.executeBy clock limit s).failure = (p.executeBy clock limit t).failure :=
  reduceBy_alike hstep clock limit (limit - 1) 0 h

end

end Program

end Perdure
