import Perdure.Proofs.Instance.Completion
import Perdure.Proofs.Instance.Orders

/-!
# Takedown

A fault, and the order to stop that comes from outside, take the whole instance down before it
rests again.  The order travels downwards as a message that may be overtaken by reports, so it does
not say enough to know where it is; a link is *doomed* instead when its report is there, or the
order waits for its part, or its part is stopping and everything that it awaits is doomed.  Doomed
links stay doomed until their report is taken, and at rest every doomed link has reported.

## Main definitions

* `Doomed` — links that are on their way down.
* `Falling` — families that go down as a whole: a fault is on its way up, or the root is doomed.
* `Calm` — families in which nobody was told to stop.

## Main results

* `Move.doomed_after` — doomed links stay doomed.
* `Move.falling_after` — a family that falls goes on falling.
* `Family.report_of_falling` — at rest, the root of a falling family has reported.
* `Script.WellDriven.takes_down` — a fault or the order to stop takes the instance down.
-/

namespace Perdure

/-! ### Doomed links -/

/-- Links that are on their way down: the report is there, or the order to stop waits, or the part
is stopping and all that it awaits is on its way down. -/
inductive Doomed (soup : InstanceSoup) : Link → Prop
  | reported {l : Link} (h : soup.queue l.parent ≠ []) : Doomed soup l
  | told {l : Link} (h : soup.queue l.termination ≠ []) : Doomed soup l
  | stopping {P : Part} (hP : P ∈ soup.parts) (hs : P.Stopping) (ha : ∀ u ∈ P.awaits, Doomed soup u) :
      Doomed soup P.link

/-- Whoever has passed on the order to stop awaits doomed links only. -/
def Obedient (soup : InstanceSoup) : Prop :=
  ∀ P ∈ soup.parts, P.Halted → ∀ u ∈ P.awaits, Doomed soup u

/-- Families that go down as a whole: the root is doomed, or a fault waits to be taken, or a scope
has a fault to report. -/
def Falling (root : Link) (soup : InstanceSoup) : Prop :=
  Doomed soup root ∨
  (∃ l ∈ soup.awaited, ∃ fault cs, .completed (some fault) cs ∈ soup.queue l.parent) ∨
  ∃ P ∈ soup.parts, P.Faulty

/-- Families in which nobody was told to stop at once, and every message has somebody to take
it. -/
structure Calm (root : Link) (soup : InstanceSoup) : Prop where
  untold : ∀ c, .terminate ∉ soup.queue c
  unhalted : ∀ P ∈ soup.parts, ¬ P.Halted
  addressed : ∀ c, soup.queue c ≠ [] → c ∈ soup.owned root

/-- Who is halted is stopping. -/
theorem Part.Halted.stopping {P : Part} (h : P.Halted) : P.Stopping := by
  cases P with
  | ready t => cases t <;> first | exact h | cases h
  | waiting q => cases q <;> first | exact h | cases h

/-- A scope with a fault has passed on the order to stop. -/
theorem Part.Faulty.halted {s : Script} {P : Part} (h : P.Faulty) (hs : P.Sound s) : P.Halted := by
  cases P with
  | ready t => cases t <;> first | exact hs.stopped h | cases h
  | waiting q => cases q <;> first | exact hs.1.stopped h | cases h

/-- A receiver that is stopping awaits something. -/
theorem Receiver.awaits_ne_nil {s : Script} {q : Receiver} (h : (Part.waiting q).Stopping)
    (hs : (Part.waiting q).Sound s) : q.awaits ≠ [] := by
  cases q with
  | scopeWaiting scope =>
    intro hnil
    have hf := hs.2
    rw [ScopeRun.isFinished_of_awaits hnil] at hf
    cases hf
  | sequenceWaiting | alarmActive => exact List.cons_ne_nil _ _
  | waitActivity | alarmWaiting => cases h

namespace Move

variable {s : Script} {now : Instant} {root : Link} {soup : InstanceSoup} {r : Reduction}
  {p : Products} {consumed : List Link} (m : Move s now root soup r p consumed)

include m

/-- What a stopping part awaits is awaited by its heir, and nothing else is. -/
theorem awaits_of_stopping {Q : Part} (hQ : p.heir = some Q) (hs : r.part.Stopping) {u : Link}
    (hu : u ∈ Q.awaits) : u ∈ r.part.awaits := by
  have hp := m.yields.awaits_perm m.delivery m.part_sound
  have hkids : p.kidLinks = [] := by
    rw [Products.kidLinks, (m.yields.stopping_heir hs hQ).2]
    rfl
  have hua : u ∈ p.awaits := by
    rw [Products.awaits, hQ]
    exact hu
  rw [hkids, List.append_nil] at hp
  exact hp.mem_iff.1 (List.mem_append_left _ hua)

/-- The order to stop that a part has sent waits for whom it is sent to. -/
theorem told_after {u : Link} (hs : (u.termination, .terminate) ∈ p.sent) : Doomed r.after u := by
  refine .told ?_
  rw [m.queue_after (m.owned_of_sent hs).2]
  exact List.append_ne_nil_of_right_ne_nil _
    (List.ne_nil_of_mem (Soup.mem_addressed.2 hs))

/-- Messages on a channel that stays in use wait on, unless they are taken. -/
theorem queue_after_ne_nil {c : Channel} (hc : c ∈ r.after.owned root)
    (hq : r.before.queue c ≠ []) : r.after.queue c ≠ [] := by
  rw [m.queue_after hc]
  exact List.append_ne_nil_of_left_ne_nil hq _

/-- The order to stop waits on, unless the part takes it. -/
theorem told_or_taken {l : Link} (hl : l ∈ soup.expected root) (hl' : l ∈ r.after.expected root)
    (hq : soup.queue l.termination ≠ []) :
    r.after.queue l.termination ≠ [] ∨
      l = r.part.link ∧ r.taken = some (l.termination, .terminate) := by
  by_cases hb : r.before.queue l.termination = []
  · right
    rw [m.gives.queue l.termination, hb, List.append_nil] at hq
    obtain ⟨msg, hm⟩ := List.exists_mem_of_ne_nil _ hq
    have ht := Soup.mem_addressed_toList.1 hm
    have hP := (m.family.link_mem m.part_mem).1
    have hd := m.delivery
    generalize hc : l.termination = c at ht
    rw [ht] at hd
    -- the order is gone, so it is what the part took; as any other message it would stand on a
    -- channel of another use
    cases hd with
    | report hv =>
      have hv := Family.mem_expected_of_awaits root m.part_mem hv
      exact absurd hc.symm (m.family.parent_ne_order hv hl (.inl rfl))
    | event ht =>
      exact absurd (Family.mem_awaitedTimers m.part_mem ht)
        (m.family.timer_ne hl (by simp [hc]))
    | stop ho => exact absurd hc (m.family.termination_ne_control hl hP ho)
    | terminate ho =>
      exact ⟨m.family.link_unique hl hP (c := c) (by simp [hc]) (by simp [ho]), ht⟩
  · exact .inl (m.queue_after_ne_nil (Family.termination_mem_owned hl') hb)

/-- What was just started is not doomed. -/
theorem not_doomed_of_kid {l : Link} (hk : l ∈ p.kidLinks) : ¬ Doomed soup l := by
  intro h
  cases h with
  | reported hq =>
    exact absurd (m.family.queue_below _ hq) (Nat.not_lt.2 (m.new_of_kid hk (by simp)))
  | told hq =>
    exact absurd (m.family.queue_below _ hq) (Nat.not_lt.2 (m.new_of_kid hk (by simp)))
  | stopping hP hs ha =>
    exact absurd (m.family.home_below hP) (Nat.not_lt.2 (m.new_of_kid hk (by simp)))

/-- A part that does not go on has reported. -/
theorem reported_after (hQ : p.heir = none) : r.after.queue r.part.home ≠ [] := by
  rcases m.queue_after_home with ⟨-, hne⟩ | ⟨⟨fault, cs, hq⟩, -⟩
  · exact absurd hQ hne
  · rw [hq]
    exact List.cons_ne_nil _ _

/-- Doomed links stay doomed until their report is taken.  The induction goes up in the order in
which links were started, because a part that was told anew relies on what it awaits. -/
theorem doomed_after (ho : Obedient soup) {l : Link} (h : Doomed soup l)
    (hl : l ∈ r.after.expected root) : Doomed r.after l := by
  rcases m.mem_expected_after.1 hl with hk | ⟨hl', hu⟩
  · exact absurd h (m.not_doomed_of_kid hk)
  induction hn : soup.nextChannel - l.parent using Nat.strongRecOn generalizing l with
  | _ n ih =>
    -- a part that goes on and stops, awaiting links that were doomed before
    have hlater (hP : l = r.part.link) {u : Link} (hua : u ∈ r.part.awaits)
        (hd : Doomed soup u) (hua' : u ∈ r.after.expected root) : Doomed r.after u := by
      have hue := Family.mem_expected_of_awaits root m.part_mem hua
      have huc := ((m.mem_expected_after.1 hua').resolve_left fun hk =>
        m.not_doomed_of_kid hk hd).2
      have hlt : l.parent < u.parent := hP ▸ m.family.elder _ m.part_mem u hua
      have hlt' := m.family.below _ (Family.parent_mem_owned hl')
      exact ih _ (hn ▸ Nat.sub_lt_sub_left hlt' hlt) hd hua' hue huc rfl
    cases h with
    | reported hq =>
      refine .reported (m.queue_after_ne_nil (Family.parent_mem_owned hl) ?_)
      rw [m.queue_before_parent hl' hu]
      exact hq
    | told hq =>
      -- the order waits on, or its part takes it, and then reports or goes on and stops
      rcases m.told_or_taken hl' hl hq with hq | ⟨hP, ht⟩
      · exact .told hq
      · subst hP
        cases hQ : p.heir with
        | none => exact .reported (m.reported_after hQ)
        | some Q =>
          obtain ⟨hs, hall⟩ := m.yields.stopping_told ht hQ
          have hQ' : Q ∈ r.after.parts := m.mem_after.2 (.inl hQ)
          rw [← m.yields.heir_link hQ]
          refine .stopping hQ' hs ?_
          intro u hu
          rcases hall with hh | hall
          · have hua := m.awaits_of_stopping hQ hh.stopping hu
            exact hlater rfl hua (ho _ m.part_mem hh u hua)
              (Family.mem_expected_of_awaits root hQ' hu)
          · exact m.told_after (hall u hu)
    | @stopping P hP hs ha =>
      rcases m.mem_before_or hP with rfl | hP'
      · cases hQ : p.heir with
        | none => exact .reported (m.reported_after hQ)
        | some Q =>
          have hQ' : Q ∈ r.after.parts := m.mem_after.2 (.inl hQ)
          rw [← m.yields.heir_link hQ]
          refine .stopping hQ' (m.yields.stopping_heir hs hQ).1 ?_
          intro u hu
          have hua := m.awaits_of_stopping hQ hs hu
          exact hlater rfl hua (ha u hua) (Family.mem_expected_of_awaits root hQ' hu)
      · -- another part stops, and awaits what it awaited
        have hP'' : P ∈ r.after.parts := m.mem_after.2 (.inr (.inr hP'))
        refine .stopping hP'' hs ?_
        intro u hu
        have hue := Family.mem_expected_of_awaits root hP hu
        have hue' := Family.mem_expected_of_awaits root hP'' hu
        have huc := ((m.mem_expected_after.1 hue').resolve_left fun hk =>
          m.not_doomed_of_kid hk (ha u hu)).2
        have hlt' := m.family.below _ (Family.parent_mem_owned hl')
        exact ih _ (hn ▸ Nat.sub_lt_sub_left hlt' (m.family.elder P hP u hu)) (ha u hu) hue' hue
          huc rfl

/-- Whoever has passed on the order to stop still awaits doomed links only. -/
theorem obedient_after (ho : Obedient soup) : Obedient r.after := by
  intro Q hQ hh u hu
  have hue := Family.mem_expected_of_awaits root hQ hu
  rcases m.mem_after.1 hQ with hheir | ⟨t, ht, rfl⟩ | hb
  · rcases m.yields.halted_heir hheir hh with hP | hall
    · have hua := m.awaits_of_stopping hheir hP.stopping hu
      exact m.doomed_after ho (ho _ m.part_mem hP u hua) hue
    · exact m.told_after (hall u hu)
  · exact absurd hh (m.yields.kid_unhalted ht)
  · exact m.doomed_after ho (ho Q (m.mem_of_before hb) hh u hu) hue

/-! ### Falling families -/

/-- A fault that is reported or kept brings the family down. -/
theorem falling_of_carriesFault (hf : p.CarriesFault r.part.home) : Falling root r.after := by
  rcases hf with ⟨Q, hQ, hf⟩ | ⟨hQ, fault, cs, hs⟩
  · exact .inr (.inr ⟨Q, m.mem_after.2 (.inl hQ), hf⟩)
  · have hm : .completed (some fault) cs ∈ r.after.queue r.part.home := by
      rw [m.queue_after (Family.parent_mem_owned m.link_mem_after)]
      refine List.mem_append_right _ (Soup.mem_addressed.2 ?_)
      rw [hs]
      exact List.mem_singleton_self _
    rcases List.mem_cons.1 m.link_mem_after with hroot | ha
    · refine .inl (.reported ?_)
      rw [← hroot]
      exact List.ne_nil_of_mem hm
    · exact .inr (.inl ⟨_, ha, fault, cs, hm⟩)

/-- A family that falls goes on falling. -/
theorem falling_after (ho : Obedient soup) (h : Falling root soup) : Falling root r.after := by
  rcases h with hd | ⟨l, hl, fault, cs, hm⟩ | ⟨P, hP, hf⟩
  · exact .inl (m.doomed_after ho hd List.mem_cons_self)
  · have hle : l ∈ soup.expected root := List.mem_cons_of_mem _ hl
    by_cases hu : l ∈ consumed
    · exact m.falling_of_carriesFault (m.yields.takes_fault (m.taken_of_consumed hu hm))
    · have hl' : l ∈ r.after.awaited := by
        have hl' := m.mem_expected_after.2 (.inr ⟨hle, hu⟩)
        refine (List.mem_cons.1 hl').resolve_left ?_
        intro hroot
        exact m.family.root_not_awaited (hroot ▸ hl)
      refine .inr (.inl ⟨l, hl', fault, cs, ?_⟩)
      rw [m.queue_after (Family.parent_mem_owned (List.mem_cons_of_mem _ hl')),
        m.queue_before_parent hle hu]
      exact List.mem_append_left _ hm
  · rcases m.mem_before_or hP with rfl | hP'
    · exact m.falling_of_carriesFault (m.yields.keeps_fault hf)
    · exact .inr (.inr ⟨P, m.mem_after.2 (.inr (.inr hP')), hf⟩)

/-- A fault that was sent brings the family down. -/
theorem falling_of_sent {ch : Channel} {fault : Fault} {cs : Compensations}
    (hs : .completed (some fault) cs ∈ r.sentTo ch) : Falling root r.after := by
  rw [m.sentTo_eq] at hs
  have hs := Soup.mem_addressed.1 hs
  rcases m.mem_sent hs with ⟨hQ, -, -⟩ | ⟨u, -, -, ⟨-, he⟩ | ⟨-, he⟩⟩
  · obtain ⟨-, -, fault', cs', he⟩ := m.yields.sent_of_heir_eq_none hQ
    rw [he] at hs
    cases List.mem_singleton.1 hs
    exact m.falling_of_carriesFault (.inr ⟨hQ, fault, cs, he⟩)
  · cases he
  · cases he

/-! ### Calm families -/

/-- A calm family stays calm until a fault brings it down. -/
theorem calm_after (h : Calm root soup) (hf : ¬ Falling root r.after) : Calm root r.after := by
  -- no order to stop was in a queue, so none was taken; and nothing falls, so the heir has no fault
  have huntaken (c : Channel) : r.taken ≠ some (c, .terminate) := by
    intro ht
    refine h.untold c ?_
    rw [m.gives.queue c, ht]
    simp [Soup.addressed]
  have hfaulty {Q : Part} (hQ : p.heir = some Q) : ¬ Q.Faulty := fun hq =>
    hf (.inr (.inr ⟨Q, m.mem_after.2 (.inl hQ), hq⟩))
  refine ⟨?_, ?_, ?_⟩
  · intro c hm
    rcases m.mem_queue_after hm with hb | hs
    · exact h.untold c (m.mem_queue_of_before hb)
    · rcases m.yields.calm_sent hs with ⟨q, ht⟩ | ⟨Q, hQ, hq⟩
      · exact huntaken q ht
      · exact hfaulty hQ hq
  · intro Q hQ hh
    rcases m.mem_after.1 hQ with hheir | ⟨t, ht, rfl⟩ | hb
    · rcases m.yields.calm_heir hheir hh with hP | ⟨q, ht⟩ | hq
      · exact h.unhalted _ m.part_mem hP
      · exact huntaken q ht
      · exact hfaulty hheir hq
    · exact m.yields.kid_unhalted ht hh
    · exact h.unhalted Q (m.mem_of_before hb) hh
  · intro c hc
    by_contra hno
    obtain ⟨msg, hm⟩ := List.exists_mem_of_ne_nil _ hc
    rcases m.mem_queue_after hm with hb | hs
    · -- a channel falls out of use only when it closes or its only message is taken
      have hold := m.mem_queue_of_before hb
      have howned := h.addressed c (List.ne_nil_of_mem hold)
      have hpm := m.owned_perm.mem_iff.2 (List.mem_append_right _ howned)
      have hgone := (List.mem_append.1 hpm).resolve_right hno
      have hclosed (hcl : c ∈ p.closed) : False := by
        rw [m.after, Products.queue_addTo, if_pos hcl] at hc
        exact hc rfl
      rcases List.mem_append.1 hgone with hg | hg
      · obtain ⟨u, hu, hcu⟩ := List.mem_flatMap.1 hg
        have hue := Family.mem_expected_of_awaits root m.part_mem (m.consumes u hu).1
        rcases Link.mem_channels.1 hcu with rfl | rfl | hctl
        · rw [(m.consumes u hu).2.2] at hb
          cases hb
        · rw [m.family.termination u hue msg hold] at hold
          exact h.untold _ hold
        · exact hclosed (m.yields.control_closed m.delivery m.part_sound hu hctl)
      · exact hclosed (m.yields.timer_closed (Option.mem_toList.1 hg))
    · exact hno (m.owned_of_sent hs).2

end Move

/-! ### The outside -/

section Grow

variable {soup soup' : InstanceSoup} (hp : soup'.parts = soup.parts)
  (hq : ∀ c, ∀ msg ∈ soup.queue c, msg ∈ soup'.queue c)

include hp hq

/-- More messages save nobody. -/
theorem Doomed.grow {l : Link} (h : Doomed soup l) : Doomed soup' l := by
  have hne {c : Channel} (h : soup.queue c ≠ []) : soup'.queue c ≠ [] := by
    obtain ⟨msg, hm⟩ := List.exists_mem_of_ne_nil _ h
    exact List.ne_nil_of_mem (hq c msg hm)
  induction h with
  | reported h => exact .reported (hne h)
  | told h => exact .told (hne h)
  | stopping hP hs _ ih => exact .stopping (by rw [hp]; exact hP) hs ih

theorem Obedient.grow (h : Obedient soup) : Obedient soup' := by
  intro P hP hh u hu
  rw [hp] at hP
  exact (h P hP hh u hu).grow hp hq

theorem Falling.grow {root : Link} (h : Falling root soup) : Falling root soup' := by
  rcases h with hd | ⟨l, hl, fault, cs, hm⟩ | ⟨P, hP, hf⟩
  · exact .inl (hd.grow hp hq)
  · refine .inr (.inl ⟨l, ?_, fault, cs, hq _ _ hm⟩)
    rw [Soup.awaited, hp]
    exact hl
  · refine .inr (.inr ⟨P, ?_, hf⟩)
    rw [hp]
    exact hP

end Grow

namespace Family

variable {s : Script} {root : Link} {soup : InstanceSoup}

theorem obedient_send (h : Obedient soup) (c : Channel) (msg : Message) :
    Obedient (soup.send c msg) :=
  h.grow (soup.parts_send c msg) fun _ _ hm => Soup.mem_queue_send_of_mem hm

theorem falling_send (h : Falling root soup) (c : Channel) (msg : Message) :
    Falling root (soup.send c msg) :=
  h.grow (soup.parts_send c msg) fun _ _ hm => Soup.mem_queue_send_of_mem hm

/-- The order to stop from outside brings the family down. -/
theorem falling_of_terminate (h : Family s root soup) :
    Falling root (soup.send root.termination .terminate) := by
  refine .inl (.told ?_)
  have hopen := h.unclosed _ (termination_mem_owned (List.mem_cons_self (l := soup.awaited)))
  rw [Soup.queue_send, if_pos ⟨rfl, hopen⟩]
  exact List.append_ne_nil_of_right_ne_nil _ (List.cons_ne_nil _ _)

/-- Other messages from outside leave a calm family calm. -/
theorem calm_send (h : Calm root soup) {c : Channel} {msg : Message}
    (ha : Accepts root soup c msg) (hm : msg ≠ .terminate) : Calm root (soup.send c msg) where
  untold := by
    intro q hq
    rcases Soup.mem_queue_send hq with hq | ⟨-, -, he⟩
    · exact h.untold q hq
    · exact hm he.symm
  unhalted := by
    rw [soup.parts_send]
    exact h.unhalted
  addressed := by
    intro q hq
    rw [soup.owned_send]
    obtain ⟨n, hn⟩ := List.exists_mem_of_ne_nil _ hq
    rcases Soup.mem_queue_send hn with hn | ⟨rfl, hopen, -⟩
    · exact h.addressed q (List.ne_nil_of_mem hn)
    · rcases ha with hc | ⟨ht, -⟩ | ⟨-, he⟩
      · rw [hopen] at hc
        cases hc
      · exact timer_mem_owned ht
      · exact absurd he hm

/-! ### At rest -/

variable (h : Family s root soup) (hw : soup.hasWork = false)

include h hw

/-- At rest every part waits, and nothing waits for it. -/
theorem waits_of_rest {P : Part} (hP : P ∈ soup.parts) :
    ∃ q, P = .waiting q ∧ ∀ c ∈ q.channels, soup.queue c = [] := by
  obtain ⟨hrun, -⟩ := h.parts_of_rest hw
  rw [Soup.parts, hrun, List.map_nil, List.nil_append] at hP
  obtain ⟨q, hq, rfl⟩ := List.mem_map.1 hP
  refine ⟨q, rfl, ?_⟩
  intro c hc
  have hm := ((Soup.hasWork_eq_false_iff soup).1 hw).2
  rw [Soup.takeMatch?_eq_none_iff, List.any_eq_false] at hm
  have hcs : soup.choices = soup.receivers.map Receiver.choice := h.regular
  have hmem : q.choice ∈ soup.choices := hcs ▸ List.mem_map_of_mem hq
  have harm : (⟨c, q⟩ : Arm Receiver) ∈ q.choice.arms := Receiver.mem_arms_choice.2 ⟨hc, rfl⟩
  have hready : ¬ q.choice.arms.any soup.isReady = true := hm _ hmem
  rw [List.any_eq_true, not_exists] at hready
  have hnot := fun hr => hready ⟨c, q⟩ ⟨harm, hr⟩
  simpa [Soup.isReady] using hnot

/-- At rest nothing is reported that somebody awaits. -/
theorem queue_parent_of_rest {P : Part} (hP : P ∈ soup.parts) {u : Link} (hu : u ∈ P.awaits) :
    soup.queue u.parent = [] := by
  obtain ⟨q, rfl, hq⟩ := h.waits_of_rest hw hP
  exact hq _ (Receiver.mem_channels.2 (.inr (.inl (List.mem_map_of_mem hu))))

/-- At rest no event waits on a timer that somebody waits for. -/
theorem queue_timer_of_rest {t : Channel} (ht : t ∈ soup.awaitedTimers) : soup.queue t = [] := by
  obtain ⟨P, hP, htimer⟩ := List.mem_filterMap.1 ht
  obtain ⟨q, rfl, hq⟩ := h.waits_of_rest hw hP
  exact hq t (Receiver.mem_channels.2 (.inl htimer))

/-- At rest nobody is stopping whose parts are doomed: one of them would have reported. -/
theorem report_of_doomed {l : Link} (hl : l ∈ soup.expected root) (hd : Doomed soup l) :
    soup.queue l.parent ≠ [] := by
  induction hd with
  | reported hq => exact hq
  | @told l hq =>
    intro hnil
    obtain ⟨P, hP, rfl⟩ := h.exists_part hl hnil
    obtain ⟨q, rfl, hc⟩ := h.waits_of_rest hw hP
    exact hq (hc _ (Receiver.mem_channels.2 (.inr (.inr (.inr rfl)))))
  | @stopping P hP hs ha ih =>
    obtain ⟨q, rfl, -⟩ := h.waits_of_rest hw hP
    have hne := Receiver.awaits_ne_nil hs (h.sound _ hP)
    obtain ⟨u, hu⟩ := List.exists_mem_of_ne_nil _ hne
    exact absurd (h.queue_parent_of_rest hw hP hu) (ih u hu (mem_expected_of_awaits root hP hu))

/-- At rest, the root of a falling family has reported. -/
theorem report_of_falling (ho : Obedient soup) (hf : Falling root soup) :
    soup.queue root.parent ≠ [] := by
  rcases hf with hd | ⟨l, hl, fault, cs, hm⟩ | ⟨P, hP, hf⟩
  · exact h.report_of_doomed hw List.mem_cons_self hd
  · obtain ⟨P, hP, hu⟩ := List.mem_flatMap.1 hl
    rw [h.queue_parent_of_rest hw hP hu] at hm
    cases hm
  · have hh := hf.halted (h.sound P hP)
    obtain ⟨q, rfl, -⟩ := h.waits_of_rest hw hP
    obtain ⟨u, hu⟩ := List.exists_mem_of_ne_nil _
      (Receiver.awaits_ne_nil hh.stopping (h.sound _ hP))
    have hd := ho _ hP hh u hu
    exact absurd (h.queue_parent_of_rest hw hP hu)
      (h.report_of_doomed hw (mem_expected_of_awaits root hP hu) hd)

/-- At rest no message waits in a calm family whose root has not reported. -/
theorem queue_of_calm (hc : Calm root soup) (hr : soup.queue root.parent = []) (c : Channel) :
    soup.queue c = [] := by
  by_contra hne
  have hlive {l : Link} (hl : l ∈ soup.expected root) : soup.queue l.parent = [] := by
    rcases List.mem_cons.1 hl with rfl | hl
    · exact hr
    · obtain ⟨P, hP, hu⟩ := List.mem_flatMap.1 hl
      exact h.queue_parent_of_rest hw hP hu
  -- whom the channel belongs to waits for messages on it
  rcases List.mem_append.1 (hc.addressed c hne) with ho | ht
  · obtain ⟨l, hl, hcl⟩ := List.mem_flatMap.1 ho
    rcases Link.mem_channels.1 hcl with rfl | rfl | hctl
    · exact hne (hlive hl)
    · obtain ⟨msg, hm⟩ := List.exists_mem_of_ne_nil _ hne
      exact hc.untold _ (h.termination l hl msg hm ▸ hm)
    · obtain ⟨P, hP, rfl⟩ := h.exists_part hl (hlive hl)
      obtain ⟨q, rfl, hq⟩ := h.waits_of_rest hw hP
      exact hne (hq _ (Receiver.mem_channels.2 (.inr (.inr (.inl hctl)))))
  · obtain ⟨P, hP, ht⟩ := List.mem_filterMap.1 ht
    obtain ⟨q, rfl, hq⟩ := h.waits_of_rest hw hP
    exact hne (hq _ (Receiver.mem_channels.2 (.inl ht)))

end Family

/-! ### Courses -/

namespace Script.Driven

variable {s : Script} {c : Course}

theorem parts_drain (c : Course) : c.drain.soup.parts = c.soup.parts := rfl

theorem obedient (h : s.Driven c) : Obedient c.soup := by
  induction h with
  | start _ =>
    intro P hP hh
    rw [List.mem_singleton.1 hP] at hh
    cases hh
  | inject _ _ ih => exact Family.obedient_send ih _ _
  | reduce h hr ih =>
    obtain ⟨p, consumed, m⟩ := h.orderly.family.exists_move hr
    exact m.obedient_after ih
  | @drain c _ ih => exact ih.grow (parts_drain c) fun _ _ hm => hm

/-- Nobody was told to stop, or the whole family goes down. -/
theorem falling_or_calm (h : s.Driven c) : Falling .root c.soup ∨ Calm .root c.soup := by
  induction h with
  | start _ =>
    refine .inr ⟨fun _ hm => (nomatch hm), ?_, fun _ hq => absurd rfl hq⟩
    intro P hP hh
    rw [List.mem_singleton.1 hP] at hh
    cases hh
  | @inject c ch msg h ha ih =>
    rcases ih with hf | hc
    · exact .inl (Family.falling_send hf _ _)
    -- an event of a timer disturbs nobody, the order to stop the root brings everything down
    · rcases ha with ⟨hm, ht⟩ | ⟨rfl, root, hr, rfl⟩
      · refine .inr (Family.calm_send hc (h.orderly.accepts (.inl ⟨hm, ht⟩)) ?_)
        rcases hm with rfl | rfl <;> simp
      · rw [h.orderly.root] at hr
        cases hr
        exact .inl (Family.falling_of_terminate h.orderly.family)
  | reduce h hr ih =>
    obtain ⟨p, consumed, m⟩ := h.orderly.family.exists_move hr
    rcases ih with hf | hc
    · exact .inl (m.falling_after h.obedient hf)
    · exact (Classical.em _).imp_right (m.calm_after hc)
  | @drain c _ ih =>
    rcases ih with hf | hc
    · exact .inl (hf.grow (parts_drain c) fun _ _ hm => hm)
    · exact .inr ⟨hc.untold, hc.unhalted, hc.addressed⟩

/-- A family that falls goes on falling, however far it is reduced. -/
theorem falling_advance (h : s.Driven c) (hf : Falling .root c.soup) (now : Instant) (n : Nat) :
    Falling .root (s.advance now n c).soup := by
  induction n generalizing c with
  | zero => exact hf
  | succ n ih =>
    unfold Script.advance
    split
    · next r hr =>
      obtain ⟨p, consumed, m⟩ := h.orderly.family.exists_move hr
      exact ih (.reduce h hr) (m.falling_after h.obedient hf)
    · exact hf

/-- Messages that follow do not hold the fall up. -/
theorem falling_inject (h : s.Driven c) {ms : List (Channel × Message)}
    (hms : ∀ e ∈ ms, c.Admits e.1 e.2)
    (hf : Falling .root c.soup ∨ (Link.root.termination, .terminate) ∈ ms) :
    Falling .root (c.inject ms).soup := by
  induction ms generalizing c with
  | nil =>
    rcases hf with hf | hm
    · exact hf
    · cases hm
  | cons e ms ih =>
    have ha := hms e List.mem_cons_self
    refine ih (.inject h ha)
      (fun e' he' => admits_inject.2 (hms e' (List.mem_cons_of_mem _ he'))) ?_
    rcases hf with hf | hm
    · exact .inl (Family.falling_send hf _ _)
    · rcases List.mem_cons.1 hm with rfl | hm
      · exact .inl (Family.falling_of_terminate h.orderly.family)
      · exact .inr hm

/-- A fault that was sent on the way brings the family down. -/
theorem falling_of_fault (h : s.Driven c) {now : Instant} {n : Nat} {r : Reduction}
    (hr : r ∈ (s.advance now n c).log.drop c.log.length) {ch : Channel} {fault : Fault}
    {cs : Compensations} (hs : .completed (some fault) cs ∈ r.sentTo ch) :
    Falling .root (s.advance now n c).soup := by
  obtain ⟨k, i, -, hr, he⟩ := exists_of_mem_log_advance hr
  have hk := h.advance now k
  obtain ⟨p, consumed, m⟩ := hk.orderly.family.exists_move hr
  rw [he]
  exact falling_advance (.reduce hk hr) (m.falling_of_sent hs) now i

end Script.Driven

/-- Some part has sent a completion with a fault after `c`, on the way to `d`. -/
def Course.FaultSent (c d : Course) : Prop :=
  ∃ r ∈ d.log.drop c.log.length, ∃ ch fault cs, .completed (some fault) cs ∈ r.sentTo ch

/-- Nobody has a fault to report or was told to stop, and no message waits. -/
structure Soup.Undisturbed (soup : InstanceSoup) : Prop where
  scopes : ∀ scope, soup.Holds (.waiting (.scopeWaiting scope)) →
    scope.fault = none ∧ scope.terminating = false
  sequences : ∀ sequence child, soup.Holds (.waiting (.sequenceWaiting sequence child)) →
    sequence.terminated = false
  silent : ∀ ch, soup.queue ch = []

/-- A calm family that rests before its root has reported is undisturbed. -/
theorem Family.undisturbed {s : Script} {root : Link} {soup : InstanceSoup}
    (h : Family s root soup) (hw : soup.hasWork = false) (hc : Calm root soup)
    (hr : soup.queue root.parent = []) : soup.Undisturbed := by
  have hcalm {q : Receiver} (hq : soup.Holds (.waiting q)) :
      (Part.waiting q).Sound s ∧ ¬ (Part.waiting q).Halted := by
    have hq := (h.regular.holds_iff _).1 hq
    exact ⟨h.sound _ hq, hc.unhalted _ hq⟩
  refine ⟨?_, ?_, h.queue_of_calm hw hc hr⟩
  · intro scope hq
    obtain ⟨hs, hh⟩ := hcalm hq
    have hf : ¬ scope.fault.isSome = true := fun hf => hh (hs.1.stopped hf)
    exact ⟨by simpa using hf, Bool.eq_false_iff.2 hh⟩
  · intro sequence child hq
    exact Bool.eq_false_iff.2 (hcalm hq).2

namespace Script

/-- **A fault or the order to stop takes the instance down in the round it happens in.**  If in a
round that succeeds a fault was sent, or the root was told to stop, then the round ends the
instance, and the root has reported.  So an instance that stays suspended is undisturbed. -/
theorem WellDriven.takes_down {s : Script} {c : Course} (h : s.WellDriven c)
    {ms : List (Channel × Message)} (hms : ∀ e ∈ ms, c.Admits e.1 e.2) {now : Instant}
    {limit : Nat} {o : Outcome Shared Task Receiver Message}
    (ho : s.program.execute now limit (c.inject ms).soup = .ok o) :
    ∃ root, c.soup.global.root = some root ∧
      let d := s.advance now o.reductions (c.inject ms)
      d.soup = o.soup ∧
      (c.FaultSent d ∨ (root.termination, .terminate) ∈ ms →
        o.rest = .terminated ∧ (d.reports root.parent).length = 1) ∧
      (o.rest = .suspended → o.soup.Undisturbed) := by
  refine ⟨⟨1, 2⟩, h.driven.orderly.root, ?_⟩
  have hd := h.driven.injectEach ms hms
  obtain ⟨-, hrest, hsoup⟩ := execute_eq_ok_iff.1 ho
  have hend := hd.advance now o.reductions
  obtain ⟨hterm, hsusp, -⟩ := hend.orderly.endsWith hsoup hrest.2
  have hfam := hend.orderly.family
  have hreports := hend.orderly.root_reports
  have hreport (hf : Falling .root (s.advance now o.reductions (c.inject ms)).soup) :=
    hfam.report_of_falling hrest.2 hend.obedient hf
  refine ⟨hsoup.symm, fun hcause => ?_, fun hs => ?_⟩
  -- a fault that was sent lies in the round, the order to stop at its beginning
  · have hf : Falling .root (s.advance now o.reductions (c.inject ms)).soup := by
      rcases hcause with ⟨r, hr, ch, fault, cs, hs⟩ | hm
      · exact hd.falling_of_fault hr hs
      · exact hd.falling_advance (h.driven.falling_inject hms (.inr hm)) now _
    have hne := hreport hf
    rw [← hreports] at hne
    -- the root has reported, and it reports at most once
    have hone := hend.orderly.reported_once 2
    have hpos := List.length_pos_iff.2 hne
    have hlen : ((s.advance now o.reductions (c.inject ms)).reports 2).length = 1 :=
      Nat.le_antisymm hone hpos
    exact ⟨hterm.2 hlen, hlen⟩
  · have hnil : (s.advance now o.reductions (c.inject ms)).soup.queue Link.root.parent = [] := by
      rw [← hreports]
      exact hsusp.1 hs
    have hc := hend.falling_or_calm.resolve_left fun hf => hreport hf hnil
    rw [hsoup]
    exact hfam.undisturbed hrest.2 hc hnil

/-- A vigil that is told to stop is taken down. -/
theorem takes_down_vigil :
    ∃ o, vigil.program.execute ⟨0, 0⟩ 100 vigilTold.soup = .ok o ∧ o.rest = .terminated ∧
      ((vigil.advance ⟨0, 0⟩ o.reductions vigilTold).reports 2).length = 1 := by
  obtain ⟨o, ho, -⟩ := exists_outcome_vigilTold
  obtain ⟨root, hroot, -, hdown, -⟩ :=
    WellDriven.takes_down (.start rfl) (Driven.start (s := vigil) rfl).admits_terminate ho
  cases hroot
  exact ⟨o, ho, hdown (.inr (List.mem_singleton_self _))⟩

end Script

end Perdure
