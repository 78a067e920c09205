import Perdure.Proofs.Instance.Apart

/-!
# Timers go off in one way

Where timers stand apart, a timer that is armed is open and has not gone off, as long as nothing
else than a timer is told that its time has come.  Whoever is told so over the channel of an order
takes its own timer for one that went off and closes it, although it is armed; hence a soup is
tidy only as long as no such message comes from outside.

## Main definitions

* `Soup.Tidy` — timers stand apart, and armed ones are open and have not gone off.

## Main results

* `Soup.Tidy.after_of_reduction` — every reduction keeps a soup tidy.
-/

namespace Perdure

namespace Soup

/-- Timers stand apart, and nothing but a timer is told that its time has come.  An armed timer is
open and has not been told so yet. -/
structure Tidy (s : InstanceSoup) : Prop extends Apart s where
  regular : s.Regular
  queue_below : ∀ c, s.queue c ≠ [] → c < (s.nextChannel : Nat)
  closed_below : ∀ c, s.isClosed c = true → c < (s.nextChannel : Nat)
  awaited_below : ∀ P, s.Holds P → ∀ t, P.timer = some t → t < (s.nextChannel : Nat)
  armed : ∀ t d, s.timers.get? t = some d → s.isClosed t = false ∧ s.queue t = []
  untimed : ∀ P, s.Holds P → ∀ c ∈ P.contacts, .timeout ∉ s.queue c

namespace Tidy

variable {s : Script} {now : Instant} {soup : InstanceSoup}

/-- Whoever listens to a message on a channel that is not its own timer has it among its contacts. -/
theorem contact_of_channel {P : Part} {c : Channel} (hc : c ∈ P.channels) :
    P.timer = some c ∨ c ∈ P.contacts := by
  cases P with
  | ready t => cases hc
  | waiting q =>
    rcases Receiver.mem_channels.1 hc with hc | hc | hc | rfl
    · exact .inl hc
    · obtain ⟨u, hu, rfl⟩ := List.mem_map.1 hc
      exact .inr (Part.mem_contacts (Part.mem_kin_of_awaits hu) (by simp))
    · exact .inr (Part.mem_contacts (Part.waiting q).link_mem_kin (by simp [Part.link, hc]))
    · exact .inr (Part.mem_contacts (Part.waiting q).link_mem_kin (by simp [Part.link]))

/-- A message that tells no contact that its time has come keeps a soup tidy. -/
theorem send (h : soup.Tidy) {c : Nat} {m : Message} (hc : c < soup.nextChannel)
    (hm : m = .timeout → ∀ P, soup.Holds P → c ∉ P.contacts) : (soup.send c m).Tidy := by
  have hframe := soup.send_frame c m
  have hholds {P : Part} (hP : (soup.send c m).Holds P) : soup.Holds P := by
    rw [hframe] at hP
    cases P <;> exact hP
  have hnext : (soup.send c m).nextChannel = soup.nextChannel := by rw [hframe]
  refine { h.toApart.send c m with
    regular := ?_, queue_below := ?_, closed_below := ?_, awaited_below := ?_, armed := ?_
    untimed := ?_ }
  · rw [hframe]
    exact h.regular
  · intro q hq
    rw [hnext]
    rw [Soup.queue_send] at hq
    split at hq
    · next he => exact he.1 ▸ hc
    · exact h.queue_below q hq
  · intro q hq
    rw [hnext]
    exact h.closed_below q (soup.isClosed_send c q m ▸ hq)
  · intro P hP t ht
    rw [hnext]
    exact h.awaited_below P (hholds hP) t ht
  · intro t d hd
    rw [Soup.get?_timers_send] at hd
    split at hd
    · cases hd
    · next hne =>
      obtain ⟨hopen, hqueue⟩ := h.armed t d hd
      rw [Soup.isClosed_send, Soup.queue_send, if_neg]
      · exact ⟨hopen, hqueue⟩
      · rintro ⟨rfl, -⟩
        exact hne ⟨rfl, hopen⟩
  · intro P hP q hq hmem
    rcases Soup.mem_queue_send hmem with hmem | ⟨rfl, -, he⟩
    · exact h.untimed P (hholds hP) q hq hmem
    · exact hm he.symm P (hholds hP) hq

/-- Messages may be taken, and effects be handed over. -/
theorem mono (h : soup.Tidy) {rest : InstanceSoup} (hrest : rest = { soup with
      messages := rest.messages, outbox := rest.outbox })
    (hqueue : ∀ c, ∀ m ∈ rest.queue c, m ∈ soup.queue c) : rest.Tidy := by
  have hholds {P : Part} (hP : rest.Holds P) : soup.Holds P := by
    rw [hrest] at hP
    cases P <;> exact hP
  have htimers : rest.timers = soup.timers := by rw [hrest]
  have hnext : rest.nextChannel = soup.nextChannel := by rw [hrest]
  have hclosed (c : Channel) : rest.isClosed c = soup.isClosed c := by
    rw [hrest]
    rfl
  have hempty {c : Channel} (hc : soup.queue c = []) : rest.queue c = [] := by
    apply List.eq_nil_iff_forall_not_mem.2
    intro m hm
    have hm := hqueue c m hm
    rw [hc] at hm
    cases hm
  refine { h.toApart.mono (fun P hP => hholds hP) (fun t d hd => htimers ▸ hd) hnext (by rw [hrest])
    with regular := ?_, queue_below := ?_, closed_below := ?_, awaited_below := ?_, armed := ?_
         untimed := ?_ }
  · rw [hrest]
    exact h.regular
  · intro c hc
    rw [hnext]
    exact h.queue_below c fun hnil => hc (hempty hnil)
  · intro c hc
    rw [hnext]
    exact h.closed_below c (hclosed c ▸ hc)
  · intro P hP t ht
    rw [hnext]
    exact h.awaited_below P (hholds hP) t ht
  · intro t d hd
    rw [htimers] at hd
    obtain ⟨hopen, hnil⟩ := h.armed t d hd
    exact ⟨(hclosed t).trans hopen, hempty hnil⟩
  · intro P hP c hc hm
    exact h.untimed P (hholds hP) c hc (hqueue c _ hm)

section Reacts

variable {r : Reduction} {p : Products} (h : soup.Tidy) (m : Reacts s now soup r p)

include h m

/-- Messages are sent on channels that were handed out. -/
theorem sent_below {c : Channel} {msg : Message} (hm : (c, msg) ∈ p.sent) :
    c < (soup.nextChannel : Nat) :=
  h.contacts_below _ m.holds_part c (m.yields.contact_of_sent hm).1

/-- Channels are closed that were handed out. -/
theorem shut_below {c : Channel} (hc : c ∈ p.closed) : c < (soup.nextChannel : Nat) :=
  (m.yields.contact_of_closed hc).elim (h.awaited_below _ m.holds_part c)
    (h.contacts_below _ m.holds_part c)

/-- A message that waits after a reaction waited before, or is sent in it. -/
theorem waiting_or_sent {c : Channel} {msg : Message} (hm : msg ∈ r.after.queue c) :
    msg ∈ soup.queue c ∨ (c, msg) ∈ p.sent := by
  rw [m.after, Products.queue_addTo] at hm
  rw [(Soup.gives_of_pick? h.regular m.picked).queue c]
  split at hm
  · cases hm
  · split at hm
    · exact .inl (List.mem_append_right _ hm)
    · exact (List.mem_append.1 hm).imp (List.mem_append_right _) Soup.mem_addressed.1

/-- Where nothing waited, and nothing is sent, nothing waits. -/
theorem queue_eq_nil {c : Channel} (hempty : soup.queue c = [])
    (hno : ∀ msg, (c, msg) ∉ p.sent) : r.after.queue c = [] := by
  apply List.eq_nil_iff_forall_not_mem.2
  intro msg hm
  rcases h.waiting_or_sent m hm with hm | hm
  · rw [hempty] at hm
    cases hm
  · exact hno msg hm

/-- A timer that is armed in a reaction is new: nothing was closed or sent there. -/
theorem armed_of_new {t : Channel} {d : Instant} (harmed : p.armed = some (t, d)) :
    r.after.isClosed t = false ∧ r.after.queue t = [] := by
  have hge := (m.yields.new_of_timer (m.yields.timer_of_armed harmed)).1
  have hopen : soup.isClosed t = false := by
    by_contra hc
    exact Nat.not_lt.2 hge (h.closed_below t (Bool.not_eq_false _ ▸ hc))
  have hempty : soup.queue t = [] := by
    by_contra hc
    exact Nat.not_lt.2 hge (h.queue_below t hc)
  refine ⟨?_, h.queue_eq_nil m hempty fun msg hm => Nat.not_lt.2 hge (h.sent_below m hm)⟩
  rw [m.isClosed_after, hopen, Bool.or_false, decide_eq_false_iff_not]
  exact fun hc => Nat.not_lt.2 hge (h.shut_below m hc)

/-- Only its own part closes a timer, and disarms it unless it was told that its time has come; a
timer that stays armed stays open, and nothing is sent there. -/
theorem armed_of_kept {t : Channel} {d : Instant} (hkept : soup.timers.get? t = some d)
    (hcancelled : p.cancelled ≠ some t) :
    r.after.isClosed t = false ∧ r.after.queue t = [] := by
  obtain ⟨hopen, hempty⟩ := h.armed t d hkept
  have hstranger := h.apart t d hkept _ m.holds_part
  refine ⟨?_, h.queue_eq_nil m hempty fun msg hm => hstranger (m.yields.contact_of_sent hm).1⟩
  rw [m.isClosed_after, hopen, Bool.or_false, decide_eq_false_iff_not]
  intro hc
  have htimer := (m.yields.contact_of_closed hc).resolve_right hstranger
  obtain ⟨c, htaken⟩ := (m.yields.cancelled_or_timeout htimer).resolve_left hcancelled
  -- it was told so on its timer, where nothing waits, or on a contact, where this is never said
  have hg := Soup.gives_of_pick? h.regular m.picked
  have hm : .timeout ∈ soup.queue c := by
    rw [hg.queue c, htaken]
    exact List.mem_append_left _ (Soup.mem_addressed_toList.2 rfl)
  rcases contact_of_channel (hg.listens htaken) with hc | hc
  · rw [htimer] at hc
    cases hc
    rw [hempty] at hm
    cases hm
  · exact h.untimed _ m.holds_part c hc hm

/-- A timer that a part awaits after a reaction was handed out. -/
theorem awaited_below_after {Q : Part} (hQ : r.after.Holds Q) {t : Channel}
    (ht : Q.timer = some t) : t < (r.after.nextChannel : Nat) := by
  rcases m.holds_after hQ with hQ | hQ
  · exact m.lt_after (h.awaited_below Q hQ t ht)
  rcases List.mem_append.1 hQ with hQ | hQ
  · obtain ⟨kid, -, rfl⟩ := List.mem_map.1 hQ
    cases ht
  · have hnew : p.timer = some t := by
      rw [Products.timer, Option.mem_toList.1 hQ]
      exact ht
    rw [m.nextChannel_after]
    exact (m.yields.new_of_timer hnew).2

/-- No contact is told that its time has come. -/
theorem untimed_after {Q : Part} (hQ : r.after.Holds Q) {c : Channel} (hc : c ∈ Q.contacts) :
    .timeout ∉ r.after.queue c := by
  intro hm
  rcases h.waiting_or_sent m hm with hm | hm
  · rcases m.contact_after hQ hc with ⟨P, hP, hc⟩ | ⟨hge, -⟩
    · exact h.untimed P hP c hc hm
    · exact Nat.not_lt.2 hge (h.queue_below c (List.ne_nil_of_mem hm))
  · exact (m.yields.contact_of_sent hm).2 rfl

end Reacts

/-- Every reduction keeps a soup tidy. -/
theorem after_of_reduction (h : soup.Tidy) {r : Reduction}
    (hr : s.reduction? now soup = .ok (some r)) : r.after.Tidy := by
  obtain ⟨p, m⟩ := Script.exists_reacts hr
  refine { h.toApart.after_of_reduction hr with
    regular := ?_, queue_below := ?_, closed_below := ?_, armed := ?_
    awaited_below := fun Q hQ t ht => h.awaited_below_after m hQ ht
    untimed := fun Q hQ c hc => h.untimed_after m hQ hc }
  · rw [m.after]
    exact regular_addTo (Soup.gives_of_pick? h.regular m.picked).regular p
  · intro c hc
    obtain ⟨msg, hm⟩ := List.exists_mem_of_ne_nil _ hc
    apply m.lt_after
    rcases h.waiting_or_sent m hm with hm | hm
    · exact h.queue_below c (List.ne_nil_of_mem hm)
    · exact h.sent_below m hm
  · intro c hc
    rw [m.isClosed_after, Bool.or_eq_true, decide_eq_true_eq] at hc
    exact m.lt_after (hc.elim (h.shut_below m) (h.closed_below c))
  · intro t d hd
    rcases m.armed_or_kept hd with harmed | ⟨hkept, hcancelled⟩
    · exact h.armed_of_new m harmed
    · exact h.armed_of_kept m hkept hcancelled

/-- An execution keeps a soup tidy. -/
theorem of_execute (h : soup.Tidy) {limit : Nat} {o : Outcome Shared Task Receiver Message}
    (ho : s.program.execute now limit soup = .ok o) : o.soup.Tidy :=
  Script.keeps_of_execute (fun _ _ h hr => h.after_of_reduction hr) h ho

end Tidy

end Soup

theorem Script.tidy_newSoup (s : Script) : s.newSoup.Tidy where
  toApart := s.apart_newSoup
  regular := rfl
  queue_below _ hc := absurd rfl hc
  closed_below _ hc := nomatch hc
  awaited_below P hP t ht := by
    cases P with
    | ready => cases ht
    | waiting =>
      obtain ⟨_, hnone, -⟩ := hP
      cases hnone
  armed _ _ hd := nomatch hd
  untimed _ _ _ _ hm := nomatch hm

end Perdure
