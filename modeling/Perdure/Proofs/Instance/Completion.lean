import Perdure.Proofs.Instance.Driven
import Perdure.Proofs.Table

/-!
# Completion

Every activity and every alarm reports at most once, and when it has reported nothing is left of
what it has started.  An instance that rests has reported to the outside exactly when nobody waits
for anything any more: then no task, no choice and no armed timer is left.

## Main definitions

* `Course.CompletesOnce` — reports are made once, and leave no orphans.
* `Course.EndsWith` — how the outcome of an execution tells whether the root has reported.

## Main results

* `Family.parts_eq_nil` — nothing is left of a family whose root has reported.
* `Script.WellDriven.completes_once` — reports are made once, and leave no orphans.
-/

namespace Perdure

/-! ### Families at rest -/

namespace Family

variable {s : Script} {root : Link} {soup : InstanceSoup} (h : Family s root soup)

include h

/-- Nothing is left of a family whose root has reported: the eldest part would have to be awaited
by an elder one. -/
theorem parts_eq_nil (hq : soup.queue root.parent ≠ []) : soup.parts = [] := by
  have hnone (n : Nat) (P : Part) (hP : P ∈ soup.parts) : P.home = n → False := by
    induction n using Nat.strongRecOn generalizing P with
    | _ n ih =>
      rintro rfl
      obtain ⟨hl, hempty⟩ := h.link_mem hP
      rcases List.mem_cons.1 hl with hroot | ha
      · rw [Part.home, hroot] at hempty
        exact hq hempty
      · obtain ⟨A, hA, hu⟩ := List.mem_flatMap.1 ha
        exact ih A.home (h.elder A hA _ hu) A hA rfl
  exact List.eq_nil_iff_forall_not_mem.2 fun P hP => hnone P.home P hP rfl

/-- A family without parts has no armed timer. -/
theorem timers_eq_empty (hp : soup.parts = []) : soup.timers = ∅ := by
  apply Table.eq_empty_of_get?
  intro t
  cases ht : soup.timers.get? t with
  | none => rfl
  | some d =>
    have hm := (h.armed t d ht).1
    rw [Soup.awaitedTimers, hp] at hm
    cases hm

/-- Nobody waits for anything exactly when there are no receivers. -/
theorem choices_eq_nil_iff : soup.choices = [] ↔ soup.receivers = [] := by
  have hr : soup.choices = soup.receivers.map Receiver.choice := h.regular
  rw [hr, List.map_eq_nil_iff]

/-- An instance at rest has parts only if receivers wait. -/
theorem parts_of_rest (hw : soup.hasWork = false) :
    soup.runnables = [] ∧ (soup.parts = [] ↔ soup.choices = []) := by
  have hr : soup.runnables = [] := by
    have ht := (Soup.hasWork_eq_false_iff soup).1 hw |>.1
    unfold Soup.takeRunnable? at ht
    split at ht
    · assumption
    · cases ht
  refine ⟨hr, ?_⟩
  rw [h.choices_eq_nil_iff, Soup.parts, hr]
  simp

end Family

/-! ### Completion -/

namespace Course

/-- Reports are made at most once, and whoever has reported has left nothing behind: no part of the
instance was started by it, directly or through others. -/
def CompletesOnce (c : Course) : Prop :=
  ∀ ch, (c.reports ch).length ≤ 1 ∧
    (c.reports ch ≠ [] → ∀ P, c.soup.Holds P → ¬ c.Descends ch P.home)

/-- The outcome of an execution tells whether the root has reported over the whole course: nobody
waits and nothing is armed after the one report of the root, and somebody waits before it. -/
def EndsWith (c : Course) (rest : Rest) (root : RootLink) : Prop :=
  (rest = .terminated ↔ (c.reports root.parent).length = 1) ∧
  (rest = .suspended ↔ c.reports root.parent = []) ∧
  (rest = .terminated ↔
    c.soup.runnables = [] ∧ c.soup.choices = [] ∧ c.soup.timers = ∅)

/-- Whoever has started a part is a part itself, until it reports. -/
theorem Orderly.ancestor {s : Script} {c : Course} (h : c.Orderly s) {a b : Channel}
    (hd : c.Descends a b) (hb : ∃ P ∈ c.soup.parts, P.home = b) :
    ∃ A ∈ c.soup.parts, A.home = a := by
  induction hd with
  | refl => exact hb
  | tail _ hs ih =>
    obtain ⟨P, hP, rfl⟩ := hb
    rcases h.lineage P hP _ hs with rfl | ⟨A, hA, hhome, -⟩
    · exact ih ⟨P, hP, rfl⟩
    · exact ih ⟨A, hA, hhome⟩

theorem Orderly.completesOnce {s : Script} {c : Course} (h : c.Orderly s) : c.CompletesOnce := by
  intro ch
  refine ⟨h.reported_once ch, ?_⟩
  intro hne P hP hd
  have hP' := (h.family.regular.holds_iff P).1 hP
  obtain ⟨A, hA, hhome⟩ := h.ancestor hd ⟨P, hP', rfl⟩
  exact h.reported_gone ch hne A hA hhome

/-- At rest the root has reported or somebody waits. -/
theorem Orderly.endsWith {s : Script} {c : Course} (h : c.Orderly s)
    {o : Outcome Shared Task Receiver Message} (ho : o.soup = c.soup)
    (hw : c.soup.hasWork = false) : c.EndsWith o.rest ⟨1, 2⟩ := by
  have hone := h.reported_once 2
  have hroot : c.reports 2 = c.soup.queue 2 := h.root_reports
  obtain ⟨hrun, hparts⟩ := h.family.parts_of_rest hw
  have hrest : o.rest = if c.soup.choices.isEmpty then .terminated else .suspended := by
    rw [Outcome.rest, ho]
  by_cases hq : c.soup.queue 2 = []
  · -- the root has not reported, so it has a part, and the part waits
    obtain ⟨P, hP, -⟩ := h.family.exists_part (l := .root) List.mem_cons_self hq
    have hne : c.soup.choices ≠ [] := fun hc => by
      rw [hparts.2 hc] at hP
      cases hP
    have hs : o.rest = .suspended := by rw [hrest, if_neg (by simpa using hne)]
    rw [EndsWith, hs, hroot, hq]
    simp [hne]
  · -- the root has reported, so nothing is left
    have hnil := h.family.parts_eq_nil hq
    have ht : o.rest = .terminated := by rw [hrest, if_pos (by simpa using hparts.1 hnil)]
    have hlen : 0 < (c.soup.queue 2).length := List.length_pos_iff.2 hq
    rw [hroot] at hone
    rw [EndsWith, ht, hroot]
    refine ⟨iff_of_true rfl (by omega), iff_of_false (by simp) hq, iff_of_true rfl ?_⟩
    exact ⟨hrun, hparts.1 hnil, h.family.timers_eq_empty hnil⟩

end Course

namespace Script

/-- **Reports are made once and leave no orphans.**  In every round of a well-driven course, after
any number of reductions, everything has reported at most once and has left nothing behind; no
report is lost, for the channel on which a part reports is open.  When the round comes to rest, its
outcome tells whether the root has reported. -/
theorem WellDriven.completes_once {s : Script} {c : Course} (h : s.WellDriven c)
    {ms : List (Channel × Message)} (hms : ∀ e ∈ ms, c.Admits e.1 e.2) (now : Instant) :
    (∀ n, let d := s.advance now n (c.inject ms)
      d.CompletesOnce ∧ ∀ P, d.soup.Holds P → d.soup.isClosed P.home = false) ∧
    ∃ root, c.soup.global.root = some root ∧ ∀ limit o,
      s.program.execute now limit (c.inject ms).soup = .ok o →
        let d := s.advance now o.reductions (c.inject ms)
        d.soup = o.soup ∧ d.EndsWith o.rest root := by
  have hd := h.driven.injectEach ms hms
  refine ⟨fun n => ?_, ⟨1, 2⟩, h.driven.orderly.root, fun limit o ho => ?_⟩
  · have ho := (hd.advance now n).orderly
    refine ⟨ho.completesOnce, fun P hP => ?_⟩
    have hP' := (ho.family.regular.holds_iff P).1 hP
    exact ho.family.unclosed _ (Family.parent_mem_owned (ho.family.link_mem hP').1)
  · obtain ⟨-, hrest, hsoup⟩ := execute_eq_ok_iff.1 ho
    have ho := (hd.advance now o.reductions).orderly
    exact ⟨hsoup.symm, ho.endsWith hsoup hrest.2⟩

/-- A day's wait beside an alarm that goes off every hour and does nothing. -/
def vigil : Script where
  definition :=
    { processId := "vigil", name := "vigil", root := 0
      activities :=
        [{ id := 0, name := none, kind := .scope 1 [⟨some "hour", none, some "hour", 2⟩] none },
         { id := 1, name := none, kind := .wait (.delay "day") },
         { id := 2, name := none, kind := .empty }] }
  evaluator occasion :=
    { duration := fun e => .ok (if e = "day" then 86400000000000 else 3600000000000)
      deadline := fun _ => .ok occasion.now }

/-- A new vigil whose root is told to stop. -/
def vigilTold : Course := Course.inject { soup := vigil.newSoup } [(1, .terminate)]

/-- An execution that is known to end has an outcome. -/
theorem exists_outcome {ε γ π η μ : Type} {x : Except ε (Outcome γ π η μ)} {rest : Rest}
    (h : x.toOption.map Outcome.rest = some rest) : ∃ o, x = .ok o ∧ o.rest = rest := by
  cases x with
  | error e => cases h
  | ok o => exact ⟨o, rfl, Option.some.inj h⟩

/-- A vigil that is told to stop comes to its end. -/
theorem exists_outcome_vigilTold :
    ∃ o, vigil.program.execute ⟨0, 0⟩ 100 vigilTold.soup = .ok o ∧ o.rest = .terminated :=
  exists_outcome (by decide +kernel)

/-- A vigil that is told to stop before it starts reports once, and is over then. -/
theorem completes_once_vigil :
    ∃ o, vigil.program.execute ⟨0, 0⟩ 100 vigilTold.soup = .ok o ∧
      let d := vigil.advance ⟨0, 0⟩ o.reductions vigilTold
      d.CompletesOnce ∧ (d.reports 2).length = 1 := by
  obtain ⟨o, ho, hrest⟩ := exists_outcome_vigilTold
  obtain ⟨hall, root, hroot, hend⟩ :=
    WellDriven.completes_once (.start rfl) (Driven.start (s := vigil) rfl).admits_terminate ⟨0, 0⟩
  cases hroot
  exact ⟨o, ho, (hall o.reductions).1, (hend 100 o ho).2.1.1 hrest⟩

end Script

end Perdure
