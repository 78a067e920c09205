import Perdure.Proofs.Instance.Completion
import Perdure.Proofs.Instance.Readers

/-!
# Timers

A part that has to wait for a moment takes a new channel, arms a timer on it and listens there.
From then on the timer is armed with the deadline it was registered with, or what became of it
waits to be taken; nothing else ever happens to it while the part waits.

## Main definitions

* `Course.registrations` — the deadlines with which a timer was registered.
* `Course.wakes` — who waits for a timer, and for which deadline.

## Main results

* `Move.queue_of_timer`, `Move.get?_timers_of_timer` — a reaction leaves the timers of others alone.
* `Script.Driven.registered_once` — a timer that is awaited was registered once, and is armed with
  its deadline or has an event waiting.
-/

namespace Perdure

/-! ### Registrations -/

/-- The deadline with which an effect registers a timer. -/
def Effect.registers? (t : Channel) : Effect → Option Instant
  | .registerTimer c d => if c = t then some d else none
  | .cancelTimer _ => none

@[simp] theorem Effect.registers?_eq_some_iff {t : Channel} {e : Effect} {d : Instant} :
    e.registers? t = some d ↔ e = .registerTimer t d := by
  cases e with
  | registerTimer c d' => by_cases hc : c = t <;> simp [registers?, hc]
  | cancelTimer c => simp [registers?]

namespace Course

/-- The deadlines with which a timer was registered, first to last. -/
def registrations (c : Course) (t : Channel) : List Instant :=
  c.emitted.filterMap (Effect.registers? t)

@[simp] theorem mem_registrations {c : Course} {t : Channel} {d : Instant} :
    d ∈ c.registrations t ↔ .registerTimer t d ∈ c.emitted := by
  simp [registrations]

/-- Messages from outside register nothing. -/
@[simp] theorem registrations_inject (c : Course) (ms : List (Channel × Message)) (t : Channel) :
    (c.inject ms).registrations t = c.registrations t := by
  simp [registrations]

/-- Handing over the effects forgets none of them. -/
@[simp] theorem registrations_drain (c : Course) (t : Channel) :
    c.drain.registrations t = c.registrations t := by
  simp [registrations]

/-- Who waits for a timer, and for which deadline. -/
def wakes (c : Course) : List (Channel × Instant) :=
  c.soup.receivers.filterMap fun r => r.timer.bind fun t =>
    (c.registrations t).head?.map fun d => (t, d)

end Course

/-! ### Timers of others -/

namespace Move

variable {s : Script} {now : Instant} {root : Link} {soup : InstanceSoup} {r : Reduction}
  {p : Products} {consumed : List Link} (m : Move s now root soup r p consumed)

include m

/-- A reduction registers the timer that it arms, and no other. -/
theorem registrations_extend {c : Course} (hc : c.soup = soup) (t : Channel) :
    (c.extend r).registrations t = c.registrations t ++ Soup.addressed p.armed.toList t := by
  have hcancelled : (p.cancelled.elim [] r.before.cancellation).filterMap (Effect.registers? t) =
      [] := by
    rw [List.filterMap_eq_nil_iff]
    intro e he
    obtain ⟨q, -, rfl⟩ := Products.exists_of_mem_cancellation he
    rfl
  have harmed : (p.armed.elim [] fun a => [Effect.registerTimer a.1 a.2]).filterMap
      (Effect.registers? t) = Soup.addressed p.armed.toList t := by
    cases p.armed <;> rfl
  rw [Course.registrations, m.emitted_extend hc, List.filterMap_append, List.filterMap_append,
    hcancelled, harmed, List.nil_append]
  rfl

/-- The timer that is armed is new. -/
theorem new_of_armed {t : Nat} {d : Instant} (ha : p.armed = some (t, d)) :
    soup.nextChannel ≤ t := by
  refine m.new_of_timer ?_
  rw [← m.yields.armed_eq, ha]
  rfl

/-- A timer that is awaited is not registered again. -/
theorem registrations_of_timer {c : Course} (hc : c.soup = soup) {t : Nat}
    (ht : t ∈ soup.awaitedTimers) : (c.extend r).registrations t = c.registrations t := by
  have harmed : Soup.addressed p.armed.toList t = [] := by
    apply Soup.addressed_eq_nil_iff.2
    intro d hd
    have hnew := m.new_of_armed (Option.mem_toList.1 hd)
    have hold := m.family.timer_below ht
    omega
  rw [m.registrations_extend hc, harmed, List.append_nil]

/-- A part takes no event of a timer that is not its own. -/
theorem not_taken_of_timer {t : Channel} (ht : t ∈ soup.awaitedTimers)
    (hne : r.part.timer ≠ some t) (msg : Message) : r.taken ≠ some (t, msg) := by
  intro htaken
  have hlink := (m.family.link_mem m.part_mem).1
  have hd := m.delivery
  rw [htaken] at hd
  cases hd with
  | report hu =>
    exact m.family.timer_ne (Family.mem_expected_of_awaits root m.part_mem hu) (by simp) ht
  | event hc => exact hne hc
  | stop hc => exact m.family.timer_ne hlink (by simp [hc]) ht
  | terminate hc => exact m.family.timer_ne hlink (by simp [hc]) ht

/-- What waits on a timer goes on waiting when another part reacts, and nothing is added to it. -/
theorem queue_of_timer {t : Channel} (ht : t ∈ soup.awaitedTimers)
    (hne : r.part.timer ≠ some t) : r.after.queue t = soup.queue t := by
  have hsent := Soup.addressed_eq_nil_iff.2 (m.not_sent_of_timer ht)
  have htaken : Soup.addressed r.taken.toList t = [] :=
    Soup.addressed_eq_nil_iff.2 fun msg hm =>
      m.not_taken_of_timer ht hne msg (Option.mem_toList.1 hm)
  have hafter := (m.mem_awaitedTimers_of ht).resolve_left hne
  rw [m.queue_after (Family.timer_mem_owned hafter), hsent, m.gives.queue t, htaken]
  simp

/-- A timer stays as it is when a part reacts that does not wait for it. -/
theorem get?_timers_of_timer {t : Nat} (ht : t ∈ soup.awaitedTimers)
    (hne : r.part.timer ≠ some t) : r.after.timers.get? t = soup.timers.get? t := by
  have hsent := Soup.addressed_eq_nil_iff.2 (m.not_sent_of_timer ht)
  have hcancelled : p.cancelled ≠ some t := fun hc => hne (m.yields.cancelled_timer hc)
  have hkept : (p.disarm r.before).timers.get? t = soup.timers.get? t := by
    rw [Products.get?_timers_disarm, if_neg hcancelled, m.gives.frame]
  rw [m.after, Products.get?_timers_addTo, if_neg (by simp [hsent])]
  split
  · next q d ha =>
    -- a timer that is armed is new, and this one is not
    have hold := m.family.timer_below ht
    have hnew := m.new_of_armed ha
    rw [if_neg (by rintro rfl; omega), hkept]
  · exact hkept

/-- A new timer is armed with its deadline. -/
theorem get?_timers_of_armed {t : Nat} {d : Instant} (ha : p.armed = some (t, d)) :
    r.after.timers.get? t = some d := by
  have hsent : Soup.addressed p.sent t = [] := by
    apply Soup.addressed_eq_nil_iff.2
    intro msg hm
    have hold := m.family.below t (m.owned_of_sent hm).1
    have hnew := m.new_of_armed ha
    omega
  rw [m.after, Products.get?_timers_addTo, if_neg (by simp [hsent])]
  simp [ha]

end Move

/-! ### Timers of a course -/

namespace Script.Driven

variable {s : Script} {c : Course}

/-- A channel that was not handed out was never registered. -/
theorem registrations_of_new (h : s.Driven c) {t : Nat} (ht : c.soup.nextChannel ≤ t) :
    c.registrations t = [] := by
  apply List.eq_nil_iff_forall_not_mem.2
  intro d hd
  have hlt : t < c.soup.nextChannel := by
    rcases h.orderly.timers t d (Course.mem_registrations.1 hd) with ha | hc
    · exact h.orderly.family.timer_below ha
    · exact h.orderly.family.closed_below t hc
  omega

/-- **A timer that is awaited was registered once**, and is armed with the deadline of its
registration, unless an event of the timer waits to be taken. -/
theorem registered_once (h : s.Driven c) {t : Nat} (ht : t ∈ c.soup.awaitedTimers) :
    ∃ d, c.registrations t = [d] ∧ (c.soup.timers.get? t = some d ∨ c.soup.queue t ≠ []) := by
  induction h with
  | start _ => cases ht
  | @inject c ch msg hc ha ih =>
    have ht' : t ∈ c.soup.awaitedTimers := c.soup.awaitedTimers_send ch msg ▸ ht
    obtain ⟨d, hd, hwait⟩ := ih ht'
    refine ⟨d, by simp [hd], ?_⟩
    show (c.soup.send ch msg).timers.get? t = some d ∨ (c.soup.send ch msg).queue t ≠ []
    rw [Soup.get?_timers_send, Soup.queue_send]
    split
    · exact .inr (by simp)
    · exact hwait
  | @reduce c now r hc hr ih =>
    obtain ⟨p, consumed, m⟩ := hc.orderly.family.exists_move hr
    rcases m.mem_awaitedTimers_after ht with hnew | hold
    · -- the timer was just armed
      obtain ⟨⟨q, d⟩, ha, rfl⟩ := Option.map_eq_some_iff.1 (m.yields.armed_eq.trans hnew)
      refine ⟨d, ?_, .inl (m.get?_timers_of_armed ha)⟩
      rw [m.registrations_extend rfl, hc.registrations_of_new (m.new_of_armed ha), ha]
      simp [Soup.addressed]
    · -- another part reacts, since the timer is still awaited
      have hne : r.part.timer ≠ some t := fun htimer =>
        m.not_owned_of_timer htimer (Family.timer_mem_owned ht)
      obtain ⟨d, hd, hwait⟩ := ih hold
      refine ⟨d, by rw [m.registrations_of_timer rfl hold, hd], ?_⟩
      show r.after.timers.get? t = some d ∨ r.after.queue t ≠ []
      rw [m.get?_timers_of_timer hold hne, m.queue_of_timer hold hne]
      exact hwait
  | drain _ ih =>
    obtain ⟨d, hd, hwait⟩ := ih ht
    exact ⟨d, by simp [hd], hwait⟩

end Script.Driven

/-! ### A vigil that has started -/

namespace Script

/-- A vigil after its first round: it waits for the end of the day, and its alarm for an hour. -/
def vigilStarted : Course :=
  vigil.advance ⟨0, 0⟩ 5 (Course.inject { soup := vigil.newSoup } [])

theorem wellDriven_vigilStarted : vigil.WellDriven vigilStarted :=
  .round_of_restsAfter (.start rfl) (List.forall_mem_nil _) ⟨by decide +kernel, by decide +kernel⟩

/-- The alarm of a vigil that has started may go off. -/
theorem admits_vigilStarted :
    ∀ e ∈ [((9 : Channel), Message.timeout)], vigilStarted.Admits e.1 e.2 := by
  intro e he
  rw [List.mem_singleton.1 he]
  exact .inl ⟨.inl rfl, ⟨3600, 0⟩, by decide +kernel⟩

end Script

end Perdure
