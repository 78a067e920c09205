import Perdure.Proofs.Instance.Driven

/-!
# Runs of activities

Every time an activity starts, it is given a number.  The parts that work for it in turn, from the
task that starts it to whatever reports that it is complete, carry that number along, and no other
run ever gets it.

## Main definitions

* `Part.run?`, `Part.start?` — the run that a part works for, and the one that it is to start.
* `Part.Apt` — a part is what the definition of its activity asks for.
* `Course.starts` — the runs that have been started.
* `Course.Numbered` — every run has a number of its own.

## Main results

* `Script.Driven.apt` — all parts are what their activities ask for.
* `Script.Driven.numbered` — the runs of every course are numbered.
-/

namespace Perdure

/-- The run that a part works for; an alarm is not a run. -/
def Part.run? : Part → Option Run
  | .ready (.activity run) | .waiting (.waitActivity run _) => some run
  | .ready (.sequenceStep sequence) | .waiting (.sequenceWaiting sequence _) => some sequence.run
  | .ready (.scopeActive scope) | .waiting (.scopeWaiting scope) => some scope.run
  | _ => none

/-- The run that a part is to start. -/
def Part.start? : Part → Option Run
  | .ready (.activity run) => some run
  | _ => none

/-- A part reports where its run does. -/
theorem Part.home_of_run? {P : Part} {run : Run} (h : P.run? = some run) : P.home = run.parent := by
  unfold Part.run? at h
  split at h <;> cases h <;> rfl

/-- A part that works for a run after its start is what the definition of the activity asks
for. -/
def Part.Apt (s : Script) : Part → Prop
  | .waiting (.waitActivity run _) =>
    ∃ a deadline, s.activity run.activity = .ok a ∧ a.kind = .wait deadline
  | .ready (.sequenceStep sequence) | .waiting (.sequenceWaiting sequence _) =>
    ∃ a children, s.activity sequence.run.activity = .ok a ∧ a.kind = .sequence children
  | .ready (.scopeActive scope) | .waiting (.scopeWaiting scope) =>
    ∃ a body alarms compensation, s.activity scope.run.activity = .ok a ∧
      a.kind = .scope body alarms compensation
  | _ => True

/-! ### What reactions keep -/

namespace Yields

variable {s : Script} {now : Instant} {n k : Nat} {P : Part} {taken : Option (Channel × Message)}
  {p : Products}

/-- A part that goes on works for the same run. -/
theorem run?_heir (h : Yields s now n k P taken p) {Q : Part} (hQ : p.heir = some Q) :
    Q.run? = P.run? := by
  cases h <;> cases hQ <;> rfl

/-- What goes on has started. -/
theorem start?_heir (h : Yields s now n k P taken p) {Q : Part} (hQ : p.heir = some Q) :
    Q.start? = none := by
  cases h <;> cases hQ <;> rfl

/-- What was just started is the start of its run. -/
theorem start?_kid (h : Yields s now n k P taken p) {t : Task} (ht : t ∈ p.kids) :
    (Part.ready t).start? = (Part.ready t).run? := by
  obtain ⟨_, _, _, rfl⟩ | ⟨_, _, _, rfl⟩ := h.kid_cases ht <;> rfl

/-- The runs among the products. -/
theorem filterMap_start?_parts (h : Yields s now n k P taken p) :
    p.parts.filterMap Part.start? = (p.kids.map Part.ready).filterMap Part.start? := by
  have hnil : p.heir.toList.filterMap Part.start? = [] :=
    List.filterMap_eq_nil_iff.2 fun Q hQ => h.start?_heir (Option.mem_toList.1 hQ)
  rw [Products.parts, List.filterMap_append, hnil, List.append_nil]

/-- What is started takes the numbers that come next. -/
theorem starts_kids (h : Yields s now n k P taken p) :
    ((p.kids.map Part.ready).filterMap Part.start?).map Run.id = List.range' k p.numbers := by
  cases h
  case scopeStarted run body alarms hp =>
    have hnil : (((AlarmRun.freshAll run alarms.length n).map Task.alarmStart).map
        Part.ready).filterMap Part.start? = [] := by
      rw [List.map_map, List.filterMap_map, List.filterMap_eq_nil_iff]
      exact fun _ _ => rfl
    show ((Run.fresh body k n) :: _).map Run.id = _
    rw [hnil]
    rfl
  all_goals rfl

/-- What goes on is what its activity asks for. -/
theorem apt_heir (h : Yields s now n k P taken p) (hP : P.Apt s) {Q : Part}
    (hQ : p.heir = some Q) : Q.Apt s := by
  cases h <;> cases hQ
  case waitArmed ha hk _ _ | sequenceStarted ha hk => exact ⟨_, _, ha, hk⟩
  case scopeStarted hp =>
    obtain ⟨a, compensation, ha, hk⟩ := Script.kind_of_scopeParts hp
    exact ⟨a, _, _, compensation, ha, hk⟩
  all_goals exact hP

/-- What was just started asks for nothing yet. -/
theorem apt_kid (h : Yields s now n k P taken p) {t : Task} (ht : t ∈ p.kids) :
    (Part.ready t).Apt s := by
  obtain ⟨_, _, _, rfl⟩ | ⟨_, _, _, rfl⟩ := h.kid_cases ht <;> exact True.intro

end Yields

/-- All parts are what their activities ask for. -/
theorem Script.Driven.apt {s : Script} {c : Course} (h : s.Driven c) :
    ∀ P ∈ c.soup.parts, P.Apt s :=
  h.forall_parts True.intro (fun hy hP hQ => hy.apt_heir hP hQ) fun hy _ ht => hy.apt_kid ht

/-! ### Runs on record -/

namespace Course

/-- The runs that have been started, first to last. -/
def starts (c : Course) : List Run := c.log.filterMap fun r => r.part.start?

/-- The runs that have been started, and those that are about to start. -/
def runs (c : Course) : List Run := c.starts ++ c.soup.parts.filterMap Part.start?

/-- Every run has a number of its own. -/
structure Numbered (c : Course) : Prop where
  nodup : (c.runs.map Run.id).Nodup
  below : ∀ run ∈ c.runs, run.id < c.soup.nextMonotonic
  /-- Parts work for runs that have been started, or start them. -/
  known : ∀ P ∈ c.soup.parts, ∀ run, P.run? = some run → run ∈ c.starts ∨ P.start? = some run
  logged : ∀ r ∈ c.log, ∀ run, r.part.run? = some run → run ∈ c.starts

variable {s : Script} {c : Course}

theorem starts_extend (c : Course) (r : Reduction) :
    (c.extend r).starts = c.starts ++ r.part.start?.toList := by
  rw [starts, log_extend, List.filterMap_append]
  cases hs : r.part.start? <;> simp [starts, hs]

/-- The run of the root has the first number. -/
theorem Numbered.start (s : Script) : Numbered { soup := s.newSoup } where
  nodup := List.nodup_singleton _
  below run hrun := by
    obtain rfl := List.mem_singleton.1 hrun
    exact Nat.lt_succ_self 1
  known P hP run hrun := by
    obtain rfl := Script.mem_parts_newSoup.1 hP
    exact .inr hrun
  logged _ h := absurd h List.not_mem_nil

/-- Messages from outside start nothing. -/
theorem runs_inject (c : Course) (ch : Channel) (msg : Message) :
    (c.inject [(ch, msg)]).runs = c.runs :=
  congrArg (c.starts ++ List.filterMap Part.start? ·) (c.soup.parts_send ch msg)

theorem Numbered.inject (h : c.Numbered) (ch : Channel) (msg : Message) :
    (c.inject [(ch, msg)]).Numbered := by
  have hparts : (c.inject [(ch, msg)]).soup.parts = c.soup.parts := c.soup.parts_send ch msg
  have hnext : (c.inject [(ch, msg)]).soup.nextMonotonic = c.soup.nextMonotonic := by
    rw [Course.inject, Soup.sendEach_frame]
  have hruns := c.runs_inject ch msg
  refine ⟨hruns ▸ h.nodup, ?_, hparts ▸ h.known, h.logged⟩
  rw [hruns, hnext]
  exact h.below

/-- The run of a part has been started, or is about to start. -/
theorem Numbered.mem_runs (h : c.Numbered) {P : Part} (hP : P ∈ c.soup.parts) {run : Run}
    (hrun : P.run? = some run) : run ∈ c.runs := by
  rcases h.known P hP run hrun with hs | hs
  · exact List.mem_append_left _ hs
  · exact List.mem_append_right _ (List.mem_filterMap.2 ⟨P, hP, hs⟩)

section Move

variable {now : Instant} {r : Reduction} {p : Products} {consumed : List Link}
  (m : Move s now .root c.soup r p consumed)

include m

/-- The part that reacts and another part work for different runs. -/
theorem run?_ne_of_before {P : Part} (hP : P ∈ r.before.parts) {run : Run}
    (hrun : P.run? = some run) : r.part.run? ≠ some run := fun hr =>
  m.home_ne_of_before hP ((Part.home_of_run? hrun).trans (Part.home_of_run? hr).symm)

/-- A reduction adds the runs among its products. -/
theorem runs_extend :
    (c.extend r).runs.Perm ((p.kids.map Part.ready).filterMap Part.start? ++ c.runs) := by
  have hafter := m.parts_after.filterMap Part.start?
  have hbefore := m.gives.parts.filterMap Part.start?
  have hpart : (r.part :: r.before.parts).filterMap Part.start? =
      r.part.start?.toList ++ r.before.parts.filterMap Part.start? := by
    cases hs : r.part.start? <;> simp [hs]
  rw [List.filterMap_append, m.yields.filterMap_start?_parts] at hafter
  rw [hpart] at hbefore
  rw [List.perm_iff_count] at hafter hbefore ⊢
  intro run
  have ha := hafter run
  have hb := hbefore run
  simp only [runs, starts_extend, soup_extend, List.count_append] at *
  omega

/-- A run that was just started has a number that no run had before. -/
theorem Numbered.not_mem_runs_of_kid (h : c.Numbered) {t : Task} (ht : t ∈ p.kids) {run : Run}
    (hrun : (Part.ready t).run? = some run) : run ∉ c.runs := by
  intro hold
  have hkid : run ∈ (p.kids.map Part.ready).filterMap Part.start? :=
    List.mem_filterMap.2 ⟨.ready t, List.mem_map_of_mem ht, m.yields.start?_kid ht ▸ hrun⟩
  have hi := List.mem_map_of_mem (f := Run.id) hkid
  rw [m.yields.starts_kids] at hi
  exact absurd (h.below run hold) (Nat.not_lt.2 (List.mem_range'_1.1 hi).1)

/-- Nothing on record works for a run that was just started. -/
theorem Numbered.run?_ne_of_kid (h : c.Numbered) {t : Task} (ht : t ∈ p.kids) {run : Run}
    (hrun : (Part.ready t).run? = some run) {q : Reduction} (hq : q ∈ (c.extend r).log) :
    q.part.run? ≠ some run := by
  have hnew := h.not_mem_runs_of_kid m ht hrun
  intro hr
  rcases List.mem_append.1 hq with hq | hq
  · exact hnew (List.mem_append_left _ (h.logged q hq run hr))
  · obtain rfl := List.mem_singleton.1 hq
    exact hnew (h.mem_runs m.part_mem hr)

theorem Numbered.extend (h : c.Numbered) : (c.extend r).Numbered := by
  have hperm := runs_extend m
  have hids := m.yields.starts_kids
  have hpart {run : Run} (hrun : r.part.run? = some run) : run ∈ (c.extend r).starts := by
    rw [starts_extend]
    exact List.mem_append.2 ((h.known _ m.part_mem run hrun).imp_right Option.mem_toList.2)
  have hold {run : Run} (hrun : run ∈ c.starts) : run ∈ (c.extend r).starts := by
    rw [starts_extend]
    exact List.mem_append_left _ hrun
  refine ⟨?_, ?_, ?_, ?_⟩
  · -- what is started takes numbers that lie above all that were taken before
    rw [(hperm.map Run.id).nodup_iff, List.map_append, hids]
    refine List.nodup_append.2 ⟨List.nodup_range', h.nodup, ?_⟩
    rintro i hi _ hj rfl
    obtain ⟨run, hrun, rfl⟩ := List.mem_map.1 hj
    exact absurd (h.below run hrun) (Nat.not_lt.2 (List.mem_range'_1.1 hi).1)
  · intro run hrun
    rw [soup_extend, m.nextMonotonic_after]
    -- a new number is one of the block that was taken, an old one lies below the block
    rcases List.mem_append.1 (hperm.mem_iff.1 hrun) with hrun | hrun
    · have hi : run.id ∈ List.range' c.soup.nextMonotonic p.numbers :=
        hids ▸ List.mem_map_of_mem hrun
      exact (List.mem_range'_1.1 hi).2
    · exact Nat.lt_add_right _ (h.below run hrun)
  · intro P hP run hrun
    rcases m.mem_after.1 hP with hQ | ⟨t, ht, rfl⟩ | hP
    · exact .inl (hpart (m.yields.run?_heir hQ ▸ hrun))
    · exact .inr (m.yields.start?_kid ht ▸ hrun)
    · exact (h.known P (m.mem_of_before hP) run hrun).imp_left hold
  · intro q hq run hrun
    rcases List.mem_append.1 hq with hq | hq
    · exact hold (h.logged q hq run hrun)
    · exact hpart (List.mem_singleton.1 hq ▸ hrun)

end Move

end Course

/-- The runs of every course are numbered. -/
theorem Script.Driven.numbered {s : Script} {c : Course} (h : s.Driven c) : c.Numbered := by
  induction h with
  | start _ => exact .start s
  | inject _ _ ih => exact ih.inject _ _
  | reduce h hr ih =>
    obtain ⟨p, consumed, m⟩ := h.orderly.family.exists_move hr
    exact ih.extend m
  | drain _ ih => exact ⟨ih.nodup, ih.below, ih.known, ih.logged⟩

end Perdure
