import Perdure.Checkpoint
import Perdure.Proofs.Instance.Completion
import Perdure.Proofs.Instance.Timers

/-!
# Late events of timers

The outside may deliver the event of a timer late, twice or after the timer was disarmed.  The
first event that is taken closes the channel of the timer, and so does whatever else ends the wait;
a closed channel takes no message and is never used again.  So an event that nobody waits for any
more changes nothing at all.

## Main definitions

* `Reduction.takesFrom` — a reduction takes a message from a channel.
* `Course.Ignores` — messages that change nothing.

## Main results

* `Course.ignores_of_closed` — an instance at rest ignores messages on closed channels.
* `Script.Driven.countP_takesFrom_le` — the events of a timer cause at most one reduction.
* `Script.WellDriven.ignores_stale_timers` — events of a timer that nobody waits for are ignored.
-/

namespace Perdure

/-! ### Closed channels -/

namespace Soup

variable {γ π η μ : Type}

/-- Messages on closed channels change nothing. -/
theorem sendEach_of_closed {s : Soup γ π η μ} {ms : List (Channel × μ)}
    (h : ∀ e ∈ ms, s.isClosed e.1 = true) : s.sendEach ms = s := by
  induction ms with
  | nil => rfl
  | cons e ms ih =>
    have hfirst : s.send e.1 e.2 = s := if_pos (h e List.mem_cons_self)
    rw [sendEach, List.foldl_cons, hfirst]
    exact ih fun e' he' => h e' (List.mem_cons_of_mem _ he')

end Soup

/-- An instance at rest makes no reduction. -/
theorem Script.execute_of_rest (s : Script) (now : Instant) (limit : Nat) {soup : InstanceSoup}
    (hw : soup.hasWork = false) : s.program.execute now limit soup = .ok ⟨soup, 0⟩ :=
  reduce_of_none (c := { soup }) ((s.reduction?_eq_none_iff now soup).2 hw)

/-- Executing a course with these messages, at whatever time and with whatever limit, makes no
reduction, asks for nothing and leaves the stored form as it is. -/
def Course.Ignores (s : Script) (c : Course) (ms : List (Channel × Message)) : Prop :=
  ∀ now limit, ∃ o, s.program.execute now limit (c.inject ms).soup = .ok o ∧
    o.reductions = 0 ∧ o.soup.outbox = c.soup.outbox ∧
    Checkpoint.write o.soup = Checkpoint.write c.soup ∧ o.soup = c.soup

/-- An instance at rest ignores messages on closed channels. -/
theorem Course.ignores_of_closed {s : Script} {c : Course} (hw : c.soup.hasWork = false)
    {ms : List (Channel × Message)} (h : ∀ e ∈ ms, c.soup.isClosed e.1 = true) :
    c.Ignores s ms := by
  intro now limit
  have hsame : (c.inject ms).soup = c.soup := Soup.sendEach_of_closed h
  refine ⟨⟨c.soup, 0⟩, ?_, rfl, rfl, rfl, rfl⟩
  rw [hsame]
  exact s.execute_of_rest now limit hw

/-- An instance that has emitted something rests after each of its rounds. -/
theorem Script.WellDriven.rests {s : Script} {c : Course} (h : s.WellDriven c)
    (hne : c.emitted ≠ []) : c.soup.hasWork = false := by
  induction h with
  | start _ => exact absurd rfl hne
  | round _ _ ho _ => exact (execute_eq_ok_iff.1 ho).2.1.2
  | @drained c _ ih => exact ih (c.emitted_drain ▸ hne)

/-! ### Events of a timer -/

/-- Does a reduction take a message from a channel? -/
def Reduction.takesFrom (r : Reduction) (c : Channel) : Bool := r.taken.any fun e => e.1 == c

@[simp] theorem Reduction.takesFrom_iff {r : Reduction} {c : Channel} :
    r.takesFrom c = true ↔ ∃ msg, r.taken = some (c, msg) := by
  unfold takesFrom
  cases r.taken with
  | none => simp
  | some e =>
    obtain ⟨q, msg⟩ := e
    simp

namespace Move

variable {s : Script} {now : Instant} {root : Link} {soup : InstanceSoup} {r : Reduction}
  {p : Products} {consumed : List Link} (m : Move s now root soup r p consumed)

include m

/-- A message is taken from a channel in use. -/
theorem owned_of_takesFrom {c : Channel} (h : r.takesFrom c = true) : c ∈ soup.owned root := by
  obtain ⟨msg, ht⟩ := Reduction.takesFrom_iff.1 h
  have hP := m.part_mem
  have hlisten := m.gives.listens ht
  cases hQ : r.part with
  | ready t =>
    rw [hQ] at hlisten
    cases hlisten
  | waiting q =>
    rw [hQ] at hlisten hP
    exact m.family.owned_of_reads hP hlisten

/-- The event of a timer is taken by the part that waits for it. -/
theorem timer_of_takesFrom {t : Channel} (ht : t ∈ soup.awaitedTimers)
    (h : r.takesFrom t = true) : r.part.timer = some t := by
  obtain ⟨msg, htaken⟩ := Reduction.takesFrom_iff.1 h
  by_contra hne
  exact m.not_taken_of_timer ht hne msg htaken

end Move

namespace Script.Driven

variable {s : Script} {c : Course}

/-- From a timer that is awaited, and from a channel that was not handed out, nothing was taken. -/
theorem countP_takesFrom_eq_zero (h : s.Driven c) {t : Nat}
    (ht : t ∈ c.soup.awaitedTimers ∨ c.soup.nextChannel ≤ t) : c.log.countP (·.takesFrom t) = 0 := by
  induction h with
  | start _ => rfl
  | @inject c ch msg hc ha ih =>
    refine ih ?_
    rw [← c.soup.awaitedTimers_send ch msg, ← c.nextChannel_inject ch msg]
    exact ht
  | @reduce c now r hc hr ih =>
    obtain ⟨p, consumed, m⟩ := hc.orderly.family.exists_move hr
    rw [Course.log_extend, List.countP_append, List.countP_singleton]
    rcases ht with ht | hnew
    · have hold : r.takesFrom t = false := by
        rw [Bool.eq_false_iff]
        intro htakes
        rcases m.mem_awaitedTimers_after ht with hnew | hold
        · have hlt := m.family.below t (m.owned_of_takesFrom htakes)
          have hge := m.new_of_timer hnew
          omega
        · -- whoever takes the event closes the timer
          have htimer := m.timer_of_takesFrom hold htakes
          exact m.not_owned_of_timer htimer (Family.timer_mem_owned ht)
      rw [ih ((m.mem_awaitedTimers_after ht).symm.imp_right m.new_of_timer), hold]
      rfl
    · have hnew : c.soup.nextChannel + p.channels ≤ t := m.nextChannel_after ▸ hnew
      have hold : r.takesFrom t = false := by
        rw [Bool.eq_false_iff]
        intro htakes
        have hlt := m.family.below t (m.owned_of_takesFrom htakes)
        omega
      rw [ih (.inr (by omega)), hold]
      rfl
  | drain _ ih => exact ih ht

/-- **The events of a timer cause at most one reduction**, however often they are delivered. -/
theorem countP_takesFrom_le (h : s.Driven c) {t : Nat} {d : Instant}
    (ht : .registerTimer t d ∈ c.emitted) : c.log.countP (·.takesFrom t) ≤ 1 := by
  induction h with
  | start _ => cases ht
  | @inject c ch msg hc ha ih =>
    rw [Course.emitted_inject] at ht
    exact ih ht
  | @reduce c now r hc hr ih =>
    obtain ⟨p, consumed, m⟩ := hc.orderly.family.exists_move hr
    rw [Course.log_extend, List.countP_append, List.countP_singleton]
    cases htakes : r.takesFrom t with
    | false =>
      rw [if_neg (by simp), Nat.add_zero]
      rcases List.mem_append.1
          (m.registrations_extend rfl t ▸ Course.mem_registrations.2 ht) with hold | hnew
      · exact ih (Course.mem_registrations.1 hold)
      · have ha := Soup.mem_addressed_toList.1 hnew
        rw [hc.countP_takesFrom_eq_zero (.inr (m.new_of_armed ha))]
        exact Nat.zero_le _
    | true =>
      -- what is taken waited on an open channel, so this timer was awaited until now
      have howned := m.owned_of_takesFrom htakes
      have hawaited : t ∈ c.soup.awaitedTimers := by
        rcases List.mem_append.1
            (m.registrations_extend rfl t ▸ Course.mem_registrations.2 ht) with hold | hnew
        · rcases hc.orderly.timers t d (Course.mem_registrations.1 hold) with ha | hclosed
          · exact ha
          · rw [m.family.unclosed t howned] at hclosed
            cases hclosed
        · have hge := m.new_of_armed (Soup.mem_addressed_toList.1 hnew)
          have hlt := m.family.below t howned
          omega
      rw [hc.countP_takesFrom_eq_zero (.inl hawaited)]
      exact Nat.le_refl 1
  | @drain c _ ih => exact ih (c.emitted_drain ▸ ht)

end Script.Driven

namespace Script

/-- **Late events of timers change nothing.**  For every timer that was ever registered in a
well-driven course, a choice still listens on the timer or the instance ignores any number of its
events.  Over the whole course, in whatever round and after any number of reductions, at most one
reduction took an event of the timer. -/
theorem WellDriven.ignores_stale_timers {s : Script} {c : Course} (h : s.WellDriven c) :
    (∀ t d, .registerTimer t d ∈ c.emitted →
      (∃ choice ∈ c.soup.choices, choice.listensOn t = true) ∨
        ∀ ms, (∀ e ∈ ms, e.1 = t ∧ (e.2 = .timeout ∨ e.2 = .timerCancelled)) → c.Ignores s ms) ∧
    ∀ ms, (∀ e ∈ ms, c.Admits e.1 e.2) → ∀ now n, let d := s.advance now n (c.inject ms)
      ∀ t deadline, .registerTimer t deadline ∈ d.emitted → d.log.countP (·.takesFrom t) ≤ 1 := by
  constructor
  · intro t d ht
    rcases h.driven.orderly.timers t d ht with hawaited | hclosed
    · refine .inl ?_
      have hone := h.driven.orderly.family.countP_listensOn hawaited
      exact List.countP_pos_iff.1 (by omega)
    · refine .inr fun ms hms => Course.ignores_of_closed (h.rests (List.ne_nil_of_mem ht)) ?_
      intro e he
      rw [(hms e he).1]
      exact hclosed
  · intro ms hms now n d t deadline ht
    exact ((h.driven.injectEach ms hms).advance now n).countP_takesFrom_le ht

/-- A vigil after its second round, in which its alarm went off. -/
def vigilRung : Course := vigil.advance ⟨3600, 0⟩ 6 (vigilStarted.inject [(9, .timeout)])

theorem wellDriven_vigilRung : vigil.WellDriven vigilRung :=
  .round_of_restsAfter wellDriven_vigilStarted admits_vigilStarted
    ⟨by decide +kernel, by decide +kernel⟩

/-- After the alarm of a vigil has gone off, further events of its timer are ignored. -/
theorem ignores_stale_timers_vigil :
    (∀ choice ∈ vigilRung.soup.choices, choice.listensOn 9 = false) ∧
    vigilRung.Ignores vigil [(9, .timeout), (9, .timerCancelled), (9, .timeout)] ∧
    vigilRung.log.countP (·.takesFrom 9) = 1 := by
  have hunheard : ∀ choice ∈ vigilRung.soup.choices, choice.listensOn 9 = false := by
    decide +kernel
  have hemitted : .registerTimer 9 ⟨3600, 0⟩ ∈ vigilRung.emitted := by decide +kernel
  refine ⟨hunheard, ?_, by decide +kernel⟩
  rcases wellDriven_vigilRung.ignores_stale_timers.1 9 _ hemitted with ⟨choice, hc, hl⟩ | hall
  · rw [hunheard choice hc] at hl
    cases hl
  · refine hall _ ?_
    intro e he
    simp only [List.mem_cons, List.not_mem_nil, or_false] at he
    rcases he with rfl | rfl | rfl <;> simp

end Script

end Perdure
