import Perdure.Proofs.Instance.Pending
import Perdure.Proofs.Instance.Takedown
import Perdure.Proofs.Instance.Timers

/-!
# Awaited timers are tended

Whoever waits for a timer can rely on it: the timer is armed, or what became of it waits to be
taken.  This is known of the soups of a course with its log; here it is stated for a soup alone, so
that it can be followed through storage.  At rest nothing waits to be taken, hence every timer that
somebody waits for is armed.

## Main definitions

* `Soup.Tended` — a family whose awaited timers are armed, unless an event of them waits.

## Main results

* `Soup.Tended.of_execute` — an execution keeps timers tended.
* `Soup.Tended.armed_of_rest` — at rest every timer that is awaited is armed.
-/

namespace Perdure

/-- The same parts with the same messages are a family. -/
theorem Family.of_queue {s : Script} {root : Link} {soup rest : InstanceSoup}
    (h : Family s root soup) (hrest : rest = { soup with
      messages := rest.messages, outbox := rest.outbox })
    (hqueue : ∀ c, rest.queue c = soup.queue c) : Family s root rest := by
  have hparts : rest.parts = soup.parts := by
    rw [hrest]
    rfl
  have hnext : rest.nextChannel = soup.nextChannel := by rw [hrest]
  have htimers : rest.timers = soup.timers := by rw [hrest]
  have hclosed (c : Channel) : rest.isClosed c = soup.isClosed c := by
    rw [hrest]
    rfl
  have hregular : rest.Regular := by
    rw [hrest]
    exact h.regular
  have hexpected : rest.expected root = soup.expected root := by
    unfold Soup.expected Soup.awaited
    rw [hparts]
  have hawaited : rest.awaitedTimers = soup.awaitedTimers := by
    unfold Soup.awaitedTimers
    rw [hparts]
  have howned : rest.owned root = soup.owned root := by
    unfold Soup.owned
    rw [hexpected, hawaited]
  have hlinks : rest.links = soup.links := by
    unfold Soup.links
    rw [hparts]
  constructor
  · exact hregular
  · exact hparts ▸ h.sound
  · exact howned ▸ h.nodup
  · exact howned ▸ hnext ▸ h.below
  · intro c hc
    rw [hclosed]
    exact h.unclosed c (howned ▸ hc)
  · intro c hc
    rw [hnext]
    exact h.closed_below c (hclosed c ▸ hc)
  · intro c hc
    rw [hnext]
    exact h.queue_below c (hqueue c ▸ hc)
  · intro l
    rw [hlinks, hqueue, hexpected]
    exact h.alive l
  · intro l hl
    rw [hqueue]
    exact h.report l (hexpected ▸ hl)
  · intro l hl m hm
    exact h.termination l (hexpected ▸ hl) m (hqueue _ ▸ hm)
  · intro l hl c hc m hm
    exact h.control l (hexpected ▸ hl) c hc m (hqueue c ▸ hm)
  · intro t ht m hm
    exact h.event t (hawaited ▸ ht) m (hqueue t ▸ hm)
  · intro t d hd
    rw [hawaited, hqueue]
    exact h.armed t d (htimers ▸ hd)
  · exact hparts ▸ h.elder

/-- A family whose awaited timers are armed, unless an event of them waits to be taken. -/
structure Soup.Tended (s : Script) (soup : InstanceSoup) : Prop where
  family : Family s .root soup
  root : soup.global.root = some ⟨1, 2⟩
  awaited : ∀ t ∈ soup.awaitedTimers, soup.timers.get? t ≠ none ∨ soup.queue t ≠ []

namespace Soup.Tended

variable {s : Script} {now : Instant} {soup : InstanceSoup}

/-- A new instance waits for no timer. -/
theorem newSoup (s : Script) : Soup.Tended s s.newSoup where
  family := Family.newSoup s
  root := rfl
  awaited _ ht := nomatch ht

/-- A message that the family accepts keeps timers tended. -/
theorem send (h : Soup.Tended s soup) {c : Channel} {m : Message}
    (ha : Family.Accepts .root soup c m) : Soup.Tended s (soup.send c m) where
  family := h.family.send ha
  root := by
    rw [Soup.send_frame]
    exact h.root
  awaited t ht := by
    rw [Soup.awaitedTimers_send] at ht
    rw [Soup.get?_timers_send, Soup.queue_send]
    split
    · exact .inr (by simp)
    · exact h.awaited t ht

/-- Every reduction keeps timers tended. -/
theorem after_of_reduction (h : Soup.Tended s soup) {r : Reduction}
    (hr : s.reduction? now soup = .ok (some r)) : Soup.Tended s r.after := by
  obtain ⟨p, consumed, m⟩ := h.family.exists_move hr
  refine { family := m.family_after, root := ?_, awaited := fun t ht => ?_ }
  · rw [m.after, Products.global_addTo, m.gives.frame]
    exact h.root
  · rcases m.mem_awaitedTimers_after ht with hnew | hold
    · -- the timer was just armed
      obtain ⟨⟨q, d⟩, ha, rfl⟩ := Option.map_eq_some_iff.1 (m.yields.armed_eq.trans hnew)
      refine .inl ?_
      rw [m.get?_timers_of_armed ha]
      exact Option.some_ne_none d
    · -- another part reacts, since the timer is still awaited
      have hne : r.part.timer ≠ some t := fun htimer =>
        m.not_owned_of_timer htimer (Family.timer_mem_owned ht)
      rw [m.get?_timers_of_timer hold hne, m.queue_of_timer hold hne]
      exact h.awaited t hold

/-- An execution keeps timers tended. -/
theorem of_execute (h : Soup.Tended s soup) {limit : Nat}
    {o : Outcome Shared Task Receiver Message}
    (ho : s.program.execute now limit soup = .ok o) : Soup.Tended s o.soup :=
  Script.keeps_of_execute (fun _ _ h hr => h.after_of_reduction hr) h ho

/-- Effects may be handed over, and messages be taken where none are waiting. -/
theorem of_queue (h : Soup.Tended s soup) {rest : InstanceSoup} (hrest : rest = { soup with
      messages := rest.messages, outbox := rest.outbox })
    (hqueue : ∀ c, rest.queue c = soup.queue c) : Soup.Tended s rest where
  family := h.family.of_queue hrest hqueue
  root := by
    rw [hrest]
    exact h.root
  awaited t ht := by
    have ht : t ∈ soup.awaitedTimers := by
      rw [hrest] at ht
      exact ht
    have htimers : rest.timers = soup.timers := by rw [hrest]
    rw [htimers, hqueue]
    exact h.awaited t ht

/-- An armed timer may go off. -/
theorem accepts_of_armed (h : Soup.Tended s soup) {t : Channel} {d : Instant}
    (hd : soup.timers.get? t = some d) : Family.Accepts .root soup t .timeout :=
  .inr (.inl ⟨(h.family.armed t d hd).1, .inl rfl⟩)

/-- At rest every timer that somebody waits for is armed. -/
theorem armed_of_rest (h : Soup.Tended s soup) (hw : soup.hasWork = false) {t : Channel}
    (ht : t ∈ soup.awaitedTimers) : ∃ d, soup.timers.get? t = some d := by
  have harmed := (h.awaited t ht).resolve_right
    (not_not.2 (h.family.queue_timer_of_rest hw ht))
  exact Option.ne_none_iff_exists'.1 harmed

end Soup.Tended

end Perdure
