import Mathlib.Algebra.Order.Ring.Nat
import Perdure.Proofs.Instance.Orders
import Perdure.Proofs.Instance.Step

/-!
# Winding down

What becomes of an undisturbed instance whose root is told to stop.  The order goes down along the
links that are awaited, the reports come back up, and a list of the links whose part has taken the
order says how far it has come: above it every part is stopping, and below it nothing has happened
yet.  No reaction on the way looks at the clock or evaluates an expression.

## Main definitions

* `Part.Winds` — the reactions of an instance that winds down.
* `Winding` — instances that wind down, with the links that were told.
* `Soup.left` — how much is left to do until the end.
* `Disarms` — timers disarmed on the way from one soup to another.

## Main results

* `Part.Winds.exists_yields` — a part that winds down never fails, whatever the evaluator.
* `Winding.winds` — all that a winding instance does is to wind down.
* `Move.winding_after`, `Move.left_after` — it goes on doing so, and comes nearer to its end.
* `Move.disarms_after` — it only disarms timers.
-/

namespace Perdure

/-! ### Reactions -/

/-- The reactions of an instance that winds down.  A part that was told and is ready goes on; a part
that waits is told; a part that was told and waits hears of the end of what it awaits. -/
inductive Part.Winds (told : List Link) : Part → Option (Channel × Message) → Prop
  | ready {t : Task} (ht : (Part.ready t).link ∈ told) (hs : (Part.ready t).Stopping) :
      Winds told (.ready t) none
  | told {q : Receiver} (ht : (Part.waiting q).link ∉ told) (hh : ¬ (Part.waiting q).Halted) :
      Winds told (.waiting q) (some (q.link.termination, .terminate))
  | heard {q : Receiver} {u : Link} (ht : (Part.waiting q).link ∈ told)
      (hs : (Part.waiting q).Stopping) (hu : u ∈ q.awaits) (cs : Compensations) :
      Winds told (.waiting q) (some (u.parent, .completed none cs))

/-- Parts that are about to start an activity, or to time or fire an alarm. -/
def Part.Starting : Part → Prop
  | .ready (.activity _) | .ready (.alarmStart _) | .ready (.alarmWait ..)
  | .ready (.alarmFire _) => True
  | _ => False

/-- Nothing is started, timed or fired on the way down. -/
theorem Part.Winds.not_starting {told : List Link} {P : Part}
    {taken : Option (Channel × Message)} (hw : P.Winds told taken) : ¬ P.Starting := by
  intro hP
  cases hw with
  | @ready t _ hs => cases t <;> first | exact hs | exact hP
  | told => exact hP
  | heard => exact hP

/-- The script with another evaluator. -/
def Script.withEvaluator (s : Script) (evaluator : Occasion → Evaluator) : Script :=
  { s with evaluator }

/-- What a scope leaves behind does not depend on the evaluator, and is known. -/
theorem ScopeRun.Sound.exists_leftBehind {s : Script} {scope : ScopeRun} (h : scope.Sound s) :
    ∃ left, ∀ evaluator, (s.withEvaluator evaluator).leftBehind scope = .ok left := by
  obtain ⟨a, ha⟩ := h.known
  have hleft : ∃ left, s.leftBehind scope = .ok left := by
    unfold Script.leftBehind
    rw [ha]
    split
    · exact ⟨_, rfl⟩
    · simp only [bind, Except.bind]
      split <;> exact ⟨_, rfl⟩
  exact hleft.imp fun left hl _ => hl

/-- A part that winds down never fails, and what it produces is the same whatever the evaluator
and the clock. -/
theorem Part.Winds.exists_yields {s : Script} {told : List Link} {P : Part}
    {taken : Option (Channel × Message)} (hw : P.Winds told taken) (hs : P.Sound s) :
    ∃ p, ∀ evaluator now n k, Yields (s.withEvaluator evaluator) now n k P taken p := by
  cases hw with
  | @ready t _ hstop =>
    cases t with
    | activity | alarmStart | alarmWait | alarmFire => cases hstop
    | sequenceStep sequence =>
      obtain ⟨children, hc⟩ := hs
      -- a sequence that was told starts no further child
      exact ⟨_, fun evaluator now n k => .sequenceDone hc (.inr hstop)⟩
    | scopeActive scope =>
      cases hf : scope.isFinished with
      | true =>
        obtain ⟨left, hl⟩ := hs.exists_leftBehind
        exact ⟨_, fun evaluator now n k => .scopeDone hf (hl evaluator)⟩
      | false => exact ⟨_, fun evaluator now n k => .scopeWaits hf⟩
    | alarmActive => exact ⟨_, fun evaluator now n k => .firingWatched⟩
  | @told q =>
    cases q with
    | waitActivity => exact ⟨_, fun evaluator now n k => .waitOver (.inr (.inr rfl))⟩
    | sequenceWaiting => exact ⟨_, fun evaluator now n k => .sequenceTold⟩
    | scopeWaiting => exact ⟨_, fun evaluator now n k => .scopeTold rfl⟩
    | alarmWaiting => exact ⟨_, fun evaluator now n k => .alarmOver (.inr (.inl rfl))⟩
    | alarmActive => exact ⟨_, fun evaluator now n k => .firingTold⟩
  | @heard q u _ hstop hu cs =>
    cases q with
    | waitActivity | alarmWaiting => cases hu
    | sequenceWaiting => exact ⟨_, fun evaluator now n k => .sequenceNext rfl⟩
    | alarmActive alarm child stopped =>
      obtain rfl : stopped = true := hstop
      exact ⟨_, fun evaluator now n k => .firingLast rfl⟩
    | scopeWaiting scope =>
      -- what is awaited is the body, or an alarm that is not done yet
      rcases ScopeRun.body_or_alarm hu with ⟨body, hbody, hc⟩ | ⟨hb, l, marked, hl⟩
      · exact ⟨_, fun evaluator now n k => .bodyDone hbody hc rfl⟩
      · exact ⟨_, fun evaluator now n k => .alarmDone hb hl rfl⟩

/-- How much a part has still to do: a part that was not told has to be told and to finish. -/
def Part.left (told : List Link) : Part → Nat
  | .ready _ => 1
  | .waiting q => if (Part.waiting q).link ∈ told then 0 else 2

namespace Yields

variable {s : Script} {now : Instant} {n k : Nat} {told : List Link} {P : Part}
  {taken : Option (Channel × Message)} {p : Products} (h : Yields s now n k P taken p)
  (hw : P.Winds told taken)

include h hw

/-- On the way down nothing is started, and no timer is armed. -/
theorem winds_kids : p.kids = [] ∧ p.armed = none := by
  cases h
  case waitArmed | scopeStarted | alarmArmed | alarmFired => cases hw with | ready _ hs => cases hs
  case childStarted ht =>
    cases hw with
    | ready _ hs => cases ht.symm.trans hs
  all_goals exact ⟨rfl, rfl⟩

/-- A part that goes on is stopping, and has passed on the order that it took. -/
theorem winds_heir {Q : Part} (hQ : p.heir = some Q) : Q.Stopping ∧
    p.sent = if P.link ∈ told then [] else Q.awaits.map fun u => (u.termination, .terminate) := by
  cases hw with
  | ready ht hs =>
    rw [if_pos ht]
    refine ⟨(h.stopping_heir hs hQ).1, ?_⟩
    cases h <;> cases hQ <;> rfl
  | told ht hh =>
    obtain ⟨hs, -⟩ := h.stopping_told rfl hQ
    refine ⟨hs, ?_⟩
    rw [if_neg ht]
    cases h <;> cases hQ
    case told.scopeTold.refl => exact if_neg hh
    case told.bodyFaulted.refl | told.bodyDone.refl | told.alarmFaulted.refl |
        told.alarmDone.refl => contradiction
    all_goals rfl
  | heard ht hs hu cs =>
    rw [if_pos ht]
    refine ⟨(h.stopping_heir hs hQ).1, ?_⟩
    cases h <;> cases hQ
    case heard.bodyDone.refl => exact if_pos hs
    case heard.bodyFaulted.refl hm | heard.alarmFaulted.refl hm => cases hm
    all_goals rfl

/-- A part that is done reports no fault. -/
theorem winds_done (hf : ¬ P.Faulty) (hQ : p.heir = none) :
    ∃ cs, p.sent = [(P.home, .completed none cs)] := by
  cases h <;> cases hQ
  case scopeDone scope _ _ _ =>
    have hn : scope.fault = none := by simpa [Part.Faulty] using hf
    exact ⟨_, by rw [hn]; rfl⟩
  case sequenceFaulted hm | firingFaulted hm => cases hw <;> cases hm
  case firingUntimed hm _ _ =>
    cases hw with
    | told => cases hm
    | heard _ hs => cases hs
  case thrown | waitFaulted | alarmUntimed =>
    cases hw
    contradiction
  all_goals exact ⟨_, rfl⟩

/-- No fault arises on the way down. -/
theorem winds_faultless (hf : ¬ P.Faulty) {Q : Part} (hQ : p.heir = some Q) : ¬ Q.Faulty := by
  cases h <;> cases hQ
  case scopeWaits | scopeTold | scopeAsked => exact hf
  case bodyDone scope _ _ _ _ _ _ _ | alarmDone scope _ _ _ _ _ _ _ _ =>
    have hn : scope.fault = none := by simpa [Part.Faulty] using hf
    simp [Part.Faulty, ScopeRun.absorb, hn]
  case bodyFaulted hm | alarmFaulted hm => cases hw <;> cases hm
  all_goals
    intro hq
    cases hq

/-- A part that was told and is ready waits next. -/
theorem winds_waits {t : Task} (hP : P = .ready t) {Q : Part} (hQ : p.heir = some Q) :
    ∃ q, Q = .waiting q := by
  subst hP
  cases hw with
  | ready _ hs =>
    cases h <;> cases hQ
    case ready.sequenceStarted.refl | ready.scopeStarted.refl | ready.alarmTimed.refl |
        ready.alarmPassed.refl | ready.alarmFired.refl => cases hs
    all_goals exact ⟨_, rfl⟩

/-- What the heir has left, against what the part had left and the report that it took. -/
theorem winds_left {consumed : List Link} (hd : Delivery P taken consumed) :
    (p.heir.toList.map (Part.left (P.link :: told))).sum <
      P.left told + 2 * consumed.length := by
  -- the heir was told, whichever rule applied: it has at most one step to take
  have hheir : ∀ Q, p.heir = some Q → Q.left (P.link :: told) ≤ 1 := by
    intro Q hQ
    rw [← h.heir_link hQ]
    cases Q with
    | ready t => exact Nat.le_refl _
    | waiting q => simp [Part.left]
  have hle : (p.heir.toList.map (Part.left (P.link :: told))).sum ≤ 1 := by
    cases hQ : p.heir with
    | none => exact Nat.zero_le _
    | some Q => simpa using hheir Q hQ
  cases hw with
  | @ready t ht hs =>
    -- what a task goes on as waits, and was told, so that nothing is left
    have hzero : (p.heir.toList.map (Part.left ((Part.ready t).link :: told))).sum = 0 := by
      cases hQ : p.heir with
      | none => rfl
      | some Q =>
        obtain ⟨q, rfl⟩ := h.winds_waits (.ready ht hs) rfl hQ
        simp [Part.left, h.heir_link hQ]
    have hone : (Part.ready t).left told = 1 := rfl
    omega
  | @told q ht hh =>
    have htwo : (Part.waiting q).left told = 2 := if_neg ht
    omega
  | heard ht hs hu cs =>
    obtain ⟨u, -, -, -, rfl⟩ := hd.of_report rfl
    rw [List.length_singleton]
    omega

end Yields

/-! ### The invariant -/

/-- Instances that wind down, where the parts of the links in `told` have taken the order to
stop. -/
structure Winding (told : List Link) (root : Link) (soup : InstanceSoup) : Prop where
  stopping : ∀ P ∈ soup.parts, P.link ∈ told → P.Stopping
  unhalted : ∀ P ∈ soup.parts, P.link ∉ told → ¬ P.Halted
  ready : ∀ t, .ready t ∈ soup.parts → (Part.ready t).link ∈ told
  faultless : ∀ P ∈ soup.parts, ¬ P.Faulty
  report : ∀ l ∈ soup.expected root, ∀ m ∈ soup.queue l.parent, ∃ cs, m = .completed none cs
  /-- Nobody is told twice. -/
  once : ∀ P ∈ soup.parts, P.link ∈ told → soup.queue P.link.termination = []
  single : ∀ l ∈ soup.expected root, (soup.queue l.termination).length ≤ 1
  /-- Below a part that was not told nothing has happened. -/
  untouched : ∀ P ∈ soup.parts, P.link ∉ told → ∀ u ∈ P.awaits,
    u ∉ told ∧ soup.queue u.parent = [] ∧ soup.queue u.termination = []
  control : ∀ l ∈ soup.expected root, ∀ c, l.control = some c → soup.queue c = []
  event : ∀ t ∈ soup.awaitedTimers, soup.queue t = []

/-- All that a winding instance does is to wind down. -/
theorem Winding.winds {s : Script} {told : List Link} {root : Link} {soup rest : InstanceSoup}
    (h : Winding told root soup) (hf : Family s root soup) {P : Part}
    {taken : Option (Channel × Message)} (hg : soup.Gives P taken rest) : P.Winds told taken := by
  have hP : P ∈ soup.parts := hg.parts.mem_iff.2 List.mem_cons_self
  have htaken {c : Channel} {m : Message} (ht : taken = some (c, m)) : m ∈ soup.queue c := by
    rw [hg.queue c, ht]
    exact List.mem_append_left _ (Soup.mem_addressed.2 (List.mem_singleton_self _))
  obtain ⟨consumed, hd, -⟩ := hf.delivery hg
  cases P with
  | ready t =>
    obtain rfl : taken = none := hg.takes
    exact .ready (h.ready t hP) (h.stopping _ hP (h.ready t hP))
  | waiting q =>
    cases hd with
    | nothing ht => cases ht
    | report hu fault cs =>
      have hm := htaken rfl
      have hue := Family.mem_expected_of_awaits root hP hu
      obtain ⟨cs', he⟩ := h.report _ hue _ hm
      cases he
      by_cases ht : (Part.waiting q).link ∈ told
      · exact .heard ht (h.stopping _ hP ht) hu cs
      · rw [(h.untouched _ hP ht _ hu).2.1] at hm
        cases hm
    -- the queues of timers and of controls are empty, so only reports and the order are left
    | event hc =>
      have hm := htaken rfl
      rw [h.event _ (Family.mem_awaitedTimers hP hc)] at hm
      cases hm
    | stop hc =>
      have hm := htaken rfl
      rw [h.control _ (hf.link_mem hP).1 _ hc] at hm
      cases hm
    | terminate hc =>
      subst hc
      have ht : (Part.waiting q).link ∉ told := fun ht => by
        have hm := htaken rfl
        rw [h.once _ hP ht] at hm
        cases hm
      exact .told ht (h.unhalted _ hP ht)

namespace Move

variable {s : Script} {now : Instant} {root : Link} {soup : InstanceSoup} {r : Reduction}
  {p : Products} {consumed : List Link} (m : Move s now root soup r p consumed)
  {told : List Link} (hw : r.part.Winds told r.taken)

include m

/-- The other parts were told exactly if they were told before. -/
theorem mem_told_of_before {Q : Part} (hQ : Q ∈ r.before.parts) :
    Q.link ∈ r.part.link :: told ↔ Q.link ∈ told := by
  rw [List.mem_cons, or_iff_right (m.link_ne_of_before hQ)]

include hw

theorem kids_eq_nil : p.kids = [] := (m.yields.winds_kids hw).1

/-- Only the heir is new. -/
theorem mem_after_winds {Q : Part} :
    Q ∈ r.after.parts ↔ p.heir = some Q ∨ Q ∈ r.before.parts := by
  rw [m.mem_after, m.kids_eq_nil hw]
  simp

/-- No new link is awaited. -/
theorem mem_expected_before {l : Link} (hl : l ∈ r.after.expected root) :
    l ∈ soup.expected root := by
  refine ((m.mem_expected_after.1 hl).resolve_left ?_).1
  intro hk
  rw [Products.kidLinks, m.kids_eq_nil hw] at hk
  cases hk

/-- A part that is done reports; one that was just told tells all that it awaits. -/
theorem mem_sent_winds {c : Channel} {msg : Message} (hs : (c, msg) ∈ p.sent) :
    (p.heir = none ∧ c = r.part.home) ∨
    (r.part.link ∉ told ∧ ∃ u ∈ r.part.awaits, c = u.termination ∧ msg = .terminate) := by
  rcases m.mem_sent hs with ⟨hQ, hc, -⟩ | ⟨u, hu, hu', ho⟩
  · exact .inl ⟨hQ, hc⟩
  · obtain ⟨Q, hQ⟩ : ∃ Q, p.heir = some Q := by
      cases hQ : p.heir with
      | some Q => exact ⟨Q, rfl⟩
      | none =>
        obtain ⟨-, -, fault, cs, he⟩ := m.yields.sent_of_heir_eq_none hQ
        rw [he] at hs
        cases List.mem_singleton.1 hs
        rcases ho with ⟨-, he⟩ | ⟨-, he⟩ <;> cases he
    rw [(m.yields.winds_heir hw hQ).2] at hs
    split at hs
    · cases hs
    · next ht =>
      obtain ⟨v, -, he⟩ := List.mem_map.1 hs
      cases he
      rcases ho with ⟨hc, -⟩ | ⟨-, hm⟩
      · exact .inr ⟨ht, u, hu, hc, rfl⟩
      · cases hm

/-- The order that a part takes is the only one that waits for it. -/
theorem termination_before (h : Winding told root soup) :
    r.before.queue r.part.link.termination = [] := by
  have hl := m.family.link_mem m.part_mem
  have hq := m.gives.queue r.part.link.termination
  by_cases ht : r.part.link ∈ told
  · rw [h.once _ m.part_mem ht] at hq
    exact (List.append_eq_nil_iff.1 hq.symm).2
  · have hone := h.single _ hl.1
    have htaken : r.taken = some (r.part.link.termination, .terminate) := by
      generalize r.part = P at hw ht
      generalize r.taken = taken at hw
      cases hw with
      | told => rfl
      | ready ht' => exact absurd ht' ht
      | heard ht' => exact absurd ht' ht
    rw [hq, htaken, List.length_append, Soup.length_addressed] at hone
    simp only [Option.toList_some, List.map_cons, List.map_nil, List.count_singleton_self] at hone
    exact List.length_eq_zero_iff.1 (by omega)

/-- What was not touched is not the part that reacts. -/
theorem ne_of_untouched {u : Link} (hu : u ∉ told) (hq : soup.queue u.termination = []) :
    u ≠ r.part.link := by
  rintro rfl
  have hq' := m.gives.queue r.part.link.termination
  rw [hq] at hq'
  generalize r.part = P at hw hu hq'
  generalize r.taken = taken at hw hq'
  cases hw with
  | ready ht => exact hu ht
  | @told q =>
    have hnil := (List.append_eq_nil_iff.1 hq'.symm).1
    have hm : .terminate ∈ Soup.addressed [(q.link.termination, Message.terminate)]
        q.link.termination := Soup.mem_addressed.2 (List.mem_singleton_self _)
    exact List.ne_nil_of_mem hm hnil
  | heard ht => exact hu ht

/-- Orders go to what a part awaits that was just told. -/
theorem awaits_of_order {l : Link} (hl : l ∈ soup.expected root) {msg : Message}
    (hs : (l.termination, msg) ∈ p.sent) :
    r.part.link ∉ told ∧ l ∈ r.part.awaits ∧ ∃ Q, p.heir = some Q := by
  rcases m.mem_sent_winds hw hs with ⟨-, hc⟩ | ⟨ht, u, hu, hc, rfl⟩
  · have hP := (m.family.link_mem m.part_mem).1
    exact absurd hc.symm (m.family.parent_ne_order hP hl (.inl rfl))
  · have hue := Family.mem_expected_of_awaits root m.part_mem hu
    have he := m.family.link_unique hl hue (c := l.termination) (by simp) (by simp [hc])
    refine ⟨ht, he ▸ hu, Option.ne_none_iff_exists'.1 ?_⟩
    intro hQ
    obtain ⟨-, -, fault, cs, hsent⟩ := m.yields.sent_of_heir_eq_none hQ
    rw [hsent] at hs
    cases (Prod.mk.inj (List.mem_singleton.1 hs)).2

variable (h : Winding told root soup)

include h

theorem report_after_winds {l : Link} (hl : l ∈ r.after.expected root) {msg : Message}
    (hm : msg ∈ r.after.queue l.parent) : ∃ cs, msg = .completed none cs := by
  have hl' := m.mem_expected_before hw hl
  rcases m.mem_queue_after hm with hm | hs
  · exact h.report l hl' msg (m.mem_queue_of_before hm)
  · rcases m.mem_sent_winds hw hs with ⟨hQ, -⟩ | ⟨-, u, hu, hc, -⟩
    · obtain ⟨cs, he⟩ := m.yields.winds_done hw (h.faultless _ m.part_mem) hQ
      rw [he] at hs
      exact ⟨cs, (Prod.mk.inj (List.mem_singleton.1 hs)).2⟩
    · have hue := Family.mem_expected_of_awaits root m.part_mem hu
      exact absurd hc (m.family.parent_ne_order hl' hue (.inl rfl))

theorem once_after {Q : Part} (hQ : Q ∈ r.after.parts) (ht : Q.link ∈ r.part.link :: told) :
    r.after.queue Q.link.termination = [] := by
  apply List.eq_nil_iff_forall_not_mem.2
  intro msg hm
  rcases (m.mem_after_winds hw).1 hQ with hheir | hb
  · -- the order to the part itself was taken, and only its elder could send another
    rw [m.yields.heir_link hheir] at hm
    rcases m.mem_queue_after hm with hm | hs
    · rw [m.termination_before hw h] at hm
      cases hm
    · have hself := (m.awaits_of_order hw (m.family.link_mem m.part_mem).1 hs).2.1
      exact absurd (m.family.elder _ m.part_mem _ hself) (Nat.lt_irrefl _)
  · have hQ' := m.mem_of_before hb
    have ht := (m.mem_told_of_before hb).1 ht
    rcases m.mem_queue_after hm with hm | hs
    · have hm := m.mem_queue_of_before hm
      rw [h.once Q hQ' ht] at hm
      cases hm
    · obtain ⟨hnot, hu, -⟩ := m.awaits_of_order hw (m.family.link_mem hQ').1 hs
      exact (h.untouched _ m.part_mem hnot _ hu).1 ht

theorem single_after {l : Link} (hl : l ∈ r.after.expected root) :
    (r.after.queue l.termination).length ≤ 1 := by
  have hl' := m.mem_expected_before hw hl
  rw [m.queue_after (Family.termination_mem_owned hl), List.length_append]
  have hbefore : (r.before.queue l.termination).length ≤ (soup.queue l.termination).length := by
    rw [m.gives.queue l.termination, List.length_append]
    omega
  by_cases hs : Soup.addressed p.sent l.termination = []
  · rw [hs]
    exact Nat.le_trans hbefore (h.single l hl')
  · -- who gives orders was not told before, so that no order was given in its place
    obtain ⟨msg, hm⟩ := List.exists_mem_of_ne_nil _ hs
    obtain ⟨hnot, hu, Q, hQ⟩ := m.awaits_of_order hw hl' (Soup.mem_addressed.1 hm)
    rw [(h.untouched _ m.part_mem hnot _ hu).2.2] at hbefore
    have hn := m.family_after.terminations_nodup ((m.mem_after_winds hw).2 (.inl hQ))
    have hsent : (Soup.addressed p.sent l.termination).length ≤ 1 := by
      rw [Soup.length_addressed, (m.yields.winds_heir hw hQ).2, if_neg hnot, List.map_map]
      exact List.nodup_iff_count_le_one.1 hn l.termination
    have hzero : (r.before.queue l.termination).length = 0 := Nat.le_zero.1 hbefore
    omega

theorem untouched_after {Q : Part} (hQ : Q ∈ r.after.parts) (ht : Q.link ∉ r.part.link :: told)
    {u : Link} (hu : u ∈ Q.awaits) : u ∉ r.part.link :: told ∧ r.after.queue u.parent = [] ∧
      r.after.queue u.termination = [] := by
  rcases (m.mem_after_winds hw).1 hQ with hheir | hb
  · exact absurd (m.yields.heir_link hheir ▸ List.mem_cons_self) ht
  -- what another part awaits hears neither from the part that reacts nor of it
  have hQ' := m.mem_of_before hb
  have ht := fun ht' => ht ((m.mem_told_of_before hb).2 ht')
  obtain ⟨hu', hp, hterm⟩ := h.untouched Q hQ' ht u hu
  have hne := m.ne_of_untouched hw hu' hterm
  have hue := Family.mem_expected_of_awaits root hQ' hu
  refine ⟨List.not_mem_cons_of_ne_of_not_mem hne hu', ?_, ?_⟩
  · apply List.eq_nil_iff_forall_not_mem.2
    intro msg hm
    rcases m.mem_queue_after hm with hm | hs
    · have hm := m.mem_queue_of_before hm
      rw [hp] at hm
      cases hm
    · rcases m.mem_sent_winds hw hs with ⟨-, hc⟩ | ⟨-, v, hv, hc, -⟩
      · exact hne (m.family.parent_inj hue (m.family.link_mem m.part_mem).1 hc)
      · have hve := Family.mem_expected_of_awaits root m.part_mem hv
        exact m.family.parent_ne_order hue hve (.inl rfl) hc
  · apply List.eq_nil_iff_forall_not_mem.2
    intro msg hm
    rcases m.mem_queue_after hm with hm | hs
    · have hm := m.mem_queue_of_before hm
      rw [hterm] at hm
      cases hm
    · have hown := m.family.awaiter_unique hQ' m.part_mem hu (m.awaits_of_order hw hue hs).2.1
      exact m.link_ne_of_before hb (congrArg Part.link hown)

theorem control_after_winds {l : Link} (hl : l ∈ r.after.expected root) {c : Channel}
    (hc : l.control = some c) : r.after.queue c = [] := by
  have hl' := m.mem_expected_before hw hl
  apply List.eq_nil_iff_forall_not_mem.2
  intro msg hm
  rcases m.mem_queue_after hm with hm | hs
  · have hm := m.mem_queue_of_before hm
    rw [h.control l hl' c hc] at hm
    cases hm
  · rcases m.mem_sent_winds hw hs with ⟨-, he⟩ | ⟨-, u, hu, he, -⟩
    · have hP := (m.family.link_mem m.part_mem).1
      exact m.family.parent_ne_order hP hl' (.inr hc) he.symm
    · have hue := Family.mem_expected_of_awaits root m.part_mem hu
      exact m.family.termination_ne_control hue hl' hc he.symm

theorem event_after_winds {t : Channel} (ht : t ∈ r.after.awaitedTimers) :
    r.after.queue t = [] := by
  have htimer : p.timer = none := by
    rw [← m.yields.armed_eq, (m.yields.winds_kids hw).2]
    rfl
  rcases m.mem_awaitedTimers_after ht with hn | ho
  · rw [htimer] at hn
    cases hn
  · apply List.eq_nil_iff_forall_not_mem.2
    intro msg hm
    rcases m.mem_queue_after hm with hm | hs
    · have hm := m.mem_queue_of_before hm
      rw [h.event t ho] at hm
      cases hm
    · exact m.not_sent_of_timer ho msg hs

/-- An instance that winds down goes on winding down. -/
theorem winding_after : Winding (r.part.link :: told) root r.after where
  stopping Q hQ ht := by
    rcases (m.mem_after_winds hw).1 hQ with hheir | hb
    · exact (m.yields.winds_heir hw hheir).1
    · exact h.stopping Q (m.mem_of_before hb) ((m.mem_told_of_before hb).1 ht)
  unhalted Q hQ ht := by
    rcases (m.mem_after_winds hw).1 hQ with hheir | hb
    · exact absurd (m.yields.heir_link hheir ▸ List.mem_cons_self) ht
    · exact h.unhalted Q (m.mem_of_before hb) fun ht' => ht ((m.mem_told_of_before hb).2 ht')
  ready t hQ := by
    rcases (m.mem_after_winds hw).1 hQ with hheir | hb
    · rw [m.yields.heir_link hheir]
      exact List.mem_cons_self
    · exact List.mem_cons_of_mem _ (h.ready t (m.mem_of_before hb))
  faultless Q hQ := by
    rcases (m.mem_after_winds hw).1 hQ with hheir | hb
    · exact m.yields.winds_faultless hw (h.faultless _ m.part_mem) hheir
    · exact h.faultless Q (m.mem_of_before hb)
  report _ hl _ hm := m.report_after_winds hw h hl hm
  once _ hQ ht := m.once_after hw h hQ ht
  single _ hl := m.single_after hw h hl
  untouched _ hQ ht _ hu := m.untouched_after hw h hQ ht hu
  control _ hl _ hc := m.control_after_winds hw h hl hc
  event _ ht := m.event_after_winds hw h ht

end Move

/-! ### How much is left -/

/-- How much is left to do until the end: what the parts have to do, and the reports to come. -/
def Soup.left (told : List Link) (soup : InstanceSoup) : Nat :=
  (soup.parts.map (Part.left told)).sum + 2 * soup.awaited.length

namespace Move

variable {s : Script} {now : Instant} {root : Link} {soup : InstanceSoup} {r : Reduction}
  {p : Products} {consumed : List Link} (m : Move s now root soup r p consumed)
  {told : List Link} (hw : r.part.Winds told r.taken)

include m hw

/-- Every reaction leaves less to do. -/
theorem left_after : r.after.left (r.part.link :: told) < soup.left told := by
  have hlaw := m.yields.winds_left hw m.delivery
  have hparts : p.parts = p.heir.toList := by
    rw [Products.parts, m.kids_eq_nil hw]
    rfl
  have hafter := (m.parts_after.map (Part.left (r.part.link :: told))).sum_nat
  have hbefore := (m.gives.parts.map (Part.left told)).sum_nat
  -- nothing changes for the other parts
  have hsame : r.before.parts.map (Part.left (r.part.link :: told)) =
      r.before.parts.map (Part.left told) := by
    apply List.map_congr_left
    intro Q hQ
    cases Q with
    | ready t => rfl
    | waiting q => simp only [Part.left, m.mem_told_of_before hQ]
  have hawaited := m.awaited_perm.length_eq
  have hkids : p.kidLinks = [] := by
    rw [Products.kidLinks, m.kids_eq_nil hw]
    rfl
  rw [hkids, List.nil_append, List.length_append] at hawaited
  rw [hparts, List.map_append, List.sum_append, hsame] at hafter
  rw [List.map_cons, List.sum_cons] at hbefore
  unfold Soup.left
  omega

end Move

/-! ### Timers -/

/-- The timers in `ts` were disarmed on the way from `s` to `t`, and nothing else was asked for. -/
structure Disarms (ts : List Channel) (s t : InstanceSoup) : Prop where
  outbox : t.outbox = s.outbox ++ ts.map .cancelTimer
  nodup : ts.Nodup
  armed : ∀ c ∈ ts, s.timers.contains c = true
  timers : ∀ c, t.timers.get? c = if c ∈ ts then none else s.timers.get? c

theorem Disarms.refl (s : InstanceSoup) : Disarms [] s s where
  outbox := (List.append_nil _).symm
  nodup := List.nodup_nil
  armed _ h := nomatch h
  timers _ := rfl

theorem Disarms.trans {ts us : List Channel} {s t u : InstanceSoup} (h : Disarms ts s t)
    (h' : Disarms us t u) : Disarms (ts ++ us) s u := by
  have harmed {c : Channel} (hc : c ∈ us) : c ∉ ts ∧ s.timers.contains c = true := by
    have hm := h'.armed c hc
    rw [Table.contains, h.timers c] at hm
    split at hm
    · cases hm
    · next hts => exact ⟨hts, hm⟩
  refine ⟨?_, ?_, ?_, ?_⟩
  · rw [h'.outbox, h.outbox, List.map_append, List.append_assoc]
  · refine List.nodup_append.2 ⟨h.nodup, h'.nodup, ?_⟩
    intro c hc d hd hcd
    exact (harmed hd).1 (hcd ▸ hc)
  · intro c hc
    exact (List.mem_append.1 hc).elim (h.armed c) fun hc => (harmed hc).2
  · intro c
    rw [h'.timers, h.timers]
    by_cases hu : c ∈ us <;> simp [hu]

/-- On the way down a reaction disarms the timer of its part, if that is armed. -/
theorem Move.disarms_after {s : Script} {now : Instant} {root : Link} {soup : InstanceSoup}
    {r : Reduction} {p : Products} {consumed : List Link} {told : List Link}
    (m : Move s now root soup r p consumed) (hw : r.part.Winds told r.taken) :
    ∃ ts, Disarms ts soup r.after := by
  have harmed := (m.yields.winds_kids hw).2
  have hsoup : r.before.timers = soup.timers ∧ r.before.outbox = soup.outbox := by
    rw [m.gives.frame]
    exact ⟨rfl, rfl⟩
  have houtbox : r.after.outbox = soup.outbox ++ p.cancelled.elim [] r.before.cancellation := by
    rw [m.after, Products.outbox_addTo, harmed, hsoup.2]
    exact List.append_nil _
  have htimers (c : Channel) : r.after.timers.get? c =
      if p.cancelled = some c then none else soup.timers.get? c := by
    rw [m.after, Products.get?_timers_addTo, harmed, Products.get?_timers_disarm, hsoup.1]
    apply ite_eq_right_iff.2
    intro hs
    -- a timer that is armed gets no message
    cases hd : soup.timers.get? c with
    | none => exact (ite_self none).symm
    | some d =>
      have hunsent := m.not_sent_of_timer (m.family.armed c d hd).1
      exact absurd (Soup.addressed_eq_nil_iff.2 hunsent) hs.1
  by_cases hc : ∃ c, p.cancelled = some c ∧ soup.timers.contains c = true
  · obtain ⟨c, hcancelled, hcontains⟩ := hc
    refine ⟨[c], ?_, List.nodup_singleton c, ?_, ?_⟩
    · rw [houtbox, hcancelled]
      show _ ++ r.before.cancellation c = _
      rw [Soup.cancellation, hsoup.1, if_pos hcontains]
      rfl
    · intro q hq
      rw [List.mem_singleton.1 hq]
      exact hcontains
    · intro q
      rw [htimers q, hcancelled]
      refine if_congr ?_ rfl rfl
      rw [List.mem_singleton, Option.some.injEq]
      exact eq_comm
  · refine ⟨[], ?_, List.nodup_nil, fun _ hq => absurd hq List.not_mem_nil, ?_⟩
    · rw [houtbox]
      cases hcancelled : p.cancelled with
      | none => rfl
      | some c =>
        have hno : ¬ soup.timers.contains c = true := fun h => hc ⟨c, hcancelled, h⟩
        show _ ++ r.before.cancellation c = _
        rw [Soup.cancellation, hsoup.1, if_neg hno]
        rfl
    · intro q
      rw [htimers q, if_neg List.not_mem_nil]
      apply ite_eq_right_iff.2
      intro hq
      refine (Option.not_isSome_iff_eq_none.1 ?_).symm
      intro h
      exact hc ⟨q, hq, h⟩

end Perdure
