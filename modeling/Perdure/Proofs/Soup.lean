import Perdure.Machine
import Perdure.Proofs.Table

/-!
# Soups under several changes

What sending several messages, closing several channels and using up a choice do to the queues,
the closed channels, the timers and the effects of a soup.

A choice is found by its place among all choices, and taken out before its arm and its message are
looked up by their places.  None of these is ever missing, for a place that was found is the place
of an arm whose channel has a message; so a choice that was taken out is always used.

## Main definitions

* `Soup.Matches` — what using up the first choice that can receive does to a soup.

## Main results

* `Soup.queue_sendEach`, `Soup.queue_closeEach` — the queues after several sends and closings.
* `Soup.exists_of_takeMatch?` — what using up a choice takes out of a soup.
* `Soup.tryMatch_takes_first` — trying to use up a choice takes the first ready arm, or nothing.
-/

namespace Perdure

namespace Soup

variable {γ π η μ : Type}

/-! ### Timers and effects -/

/-- The effect of disarming a timer, if it is armed. -/
def cancellation (s : Soup γ π η μ) (c : Channel) : List Effect :=
  if s.timers.contains c then [.cancelTimer c] else []

@[simp] theorem timers_close (s : Soup γ π η μ) (c : Channel) : (s.close c).timers = s.timers :=
  rfl

@[simp] theorem outbox_close (s : Soup γ π η μ) (c : Channel) : (s.close c).outbox = s.outbox :=
  rfl

@[simp] theorem outbox_send (s : Soup γ π η μ) (c : Channel) (m : μ) :
    (s.send c m).outbox = s.outbox := by
  unfold send
  split <;> rfl

/-- A message that arrives disarms the timer of its channel. -/
theorem get?_timers_send (s : Soup γ π η μ) (c q : Channel) (m : μ) :
    (s.send c m).timers.get? q =
      if q = c ∧ s.isClosed c = false then none else s.timers.get? q := by
  by_cases h : s.isClosed c <;> by_cases hq : q = c <;> simp [send, h, hq]

/-- Disarming touches no queue and closes nothing. -/
@[simp] theorem queue_cancelTimer (s : Soup γ π η μ) (c q : Channel) :
    (s.cancelTimer c).queue q = s.queue q := by
  unfold cancelTimer
  split <;> rfl

@[simp] theorem isClosed_cancelTimer (s : Soup γ π η μ) (c q : Channel) :
    (s.cancelTimer c).isClosed q = s.isClosed q := by
  unfold cancelTimer
  split <;> rfl

@[simp] theorem outbox_cancelTimer (s : Soup γ π η μ) (c : Channel) :
    (s.cancelTimer c).outbox = s.outbox ++ s.cancellation c := by
  by_cases h : s.timers.contains c <;> simp [cancelTimer, cancellation, h]

theorem get?_timers_cancelTimer (s : Soup γ π η μ) (c q : Channel) :
    (s.cancelTimer c).timers.get? q = if q = c then none else s.timers.get? q := by
  by_cases h : s.timers.contains c
  · simp [cancelTimer, h]
  · have hc : s.timers.get? c = none := by simpa [Table.contains] using h
    by_cases hq : q = c <;> simp [cancelTimer, h, hq, hc]

/-- What waits goes on waiting when a message is sent. -/
theorem mem_queue_send_of_mem {s : Soup γ π η μ} {c q : Channel} {m n : μ} (h : n ∈ s.queue q) :
    n ∈ (s.send c m).queue q := by
  rw [queue_send]
  split
  · next hq => exact List.mem_append_left _ (hq.1 ▸ h)
  · exact h

/-- What waits after a message was sent waited before, or is this message on an open channel. -/
theorem mem_queue_send {s : Soup γ π η μ} {c q : Channel} {m n : μ}
    (h : n ∈ (s.send c m).queue q) : n ∈ s.queue q ∨ q = c ∧ s.isClosed c = false ∧ n = m := by
  rw [queue_send] at h
  split at h
  · next hq =>
    obtain ⟨rfl, hopen⟩ := hq
    rcases List.mem_append.1 h with h | h
    · exact .inl h
    · exact .inr ⟨rfl, hopen, List.mem_singleton.1 h⟩
  · exact .inl h

/-- Sending touches nothing but messages and timers. -/
theorem send_frame (s : Soup γ π η μ) (c : Channel) (m : μ) :
    s.send c m = { s with messages := (s.send c m).messages, timers := (s.send c m).timers } := by
  unfold send
  split <;> rfl

/-- Disarming touches nothing but timers and effects. -/
theorem cancelTimer_frame (s : Soup γ π η μ) (c : Channel) :
    s.cancelTimer c =
      { s with timers := (s.cancelTimer c).timers, outbox := (s.cancelTimer c).outbox } := by
  unfold cancelTimer
  split <;> rfl

/-! ### Several sends and closings -/

/-- Send messages one after another. -/
def sendEach (s : Soup γ π η μ) (ms : List (Channel × μ)) : Soup γ π η μ :=
  ms.foldl (fun s e => s.send e.1 e.2) s

/-- Close channels one after another. -/
def closeEach (s : Soup γ π η μ) (cs : List Channel) : Soup γ π η μ := cs.foldl close s

/-- The messages for one channel, in order. -/
def addressed (ms : List (Channel × μ)) (c : Channel) : List μ :=
  ms.filterMap fun e => if e.1 = c then some e.2 else none

@[simp] theorem addressed_nil (c : Channel) : addressed ([] : List (Channel × μ)) c = [] := rfl

theorem addressed_cons (e : Channel × μ) (ms : List (Channel × μ)) (c : Channel) :
    addressed (e :: ms) c = if e.1 = c then e.2 :: addressed ms c else addressed ms c := by
  by_cases h : e.1 = c <;> simp [addressed, h]

theorem mem_addressed {ms : List (Channel × μ)} {c : Channel} {m : μ} :
    m ∈ addressed ms c ↔ (c, m) ∈ ms := by
  simp only [addressed, List.mem_filterMap]
  constructor
  · rintro ⟨⟨d, n⟩, he, h⟩
    split at h
    · next hd => cases h; cases hd; exact he
    · cases h
  · intro h
    exact ⟨(c, m), h, by simp⟩

theorem mem_addressed_toList {o : Option (Channel × μ)} {c : Channel} {m : μ} :
    m ∈ addressed o.toList c ↔ o = some (c, m) := mem_addressed.trans Option.mem_toList

/-- Nothing is for a channel that no message names. -/
theorem addressed_eq_nil_iff {ms : List (Channel × μ)} {c : Channel} :
    addressed ms c = [] ↔ ∀ m, (c, m) ∉ ms := by
  rw [List.eq_nil_iff_forall_not_mem]
  exact forall_congr' fun m => not_congr mem_addressed

/-- A channel gets as many messages as name it. -/
theorem length_addressed (ms : List (Channel × μ)) (c : Channel) :
    (addressed ms c).length = (ms.map Prod.fst).count c := by
  induction ms with
  | nil => rfl
  | cons e ms ih =>
    rw [addressed_cons, List.map_cons, List.count_cons, ← ih]
    by_cases h : e.1 = c <;> simp [h]

@[simp] theorem isClosed_sendEach (s : Soup γ π η μ) (ms : List (Channel × μ)) (q : Channel) :
    (s.sendEach ms).isClosed q = s.isClosed q := by
  induction ms generalizing s with
  | nil => rfl
  | cons e ms ih => rw [sendEach, List.foldl_cons, ← sendEach, ih, isClosed_send]

/-- Each open channel gets its own messages, in order. -/
theorem queue_sendEach (s : Soup γ π η μ) (ms : List (Channel × μ)) (q : Channel) :
    (s.sendEach ms).queue q =
      if s.isClosed q then s.queue q else s.queue q ++ addressed ms q := by
  induction ms generalizing s with
  | nil => simp [sendEach]
  | cons e ms ih =>
    obtain ⟨c, m⟩ := e
    rw [sendEach, List.foldl_cons, ← sendEach, ih, isClosed_send, queue_send, addressed_cons]
    by_cases hq : q = c
    · subst hq
      cases s.isClosed q <;> simp
    · simp [hq, Ne.symm hq]

theorem get?_timers_sendEach (s : Soup γ π η μ) (ms : List (Channel × μ)) (q : Channel) :
    (s.sendEach ms).timers.get? q =
      if addressed ms q ≠ [] ∧ s.isClosed q = false then none else s.timers.get? q := by
  induction ms generalizing s with
  | nil => simp [sendEach]
  | cons e ms ih =>
    obtain ⟨c, m⟩ := e
    rw [sendEach, List.foldl_cons, ← sendEach, ih, isClosed_send, get?_timers_send, addressed_cons]
    by_cases hq : q = c
    · subst hq
      cases s.isClosed q <;> simp
    · simp [hq, Ne.symm hq]

@[simp] theorem outbox_sendEach (s : Soup γ π η μ) (ms : List (Channel × μ)) :
    (s.sendEach ms).outbox = s.outbox := by
  induction ms generalizing s with
  | nil => rfl
  | cons e ms ih => rw [sendEach, List.foldl_cons, ← sendEach, ih, outbox_send]

/-- Sending touches nothing but messages and timers. -/
theorem sendEach_frame (s : Soup γ π η μ) (ms : List (Channel × μ)) :
    s.sendEach ms =
      { s with messages := (s.sendEach ms).messages, timers := (s.sendEach ms).timers } := by
  induction ms generalizing s with
  | nil => rfl
  | cons e ms ih => rw [sendEach, List.foldl_cons, ← sendEach, ih, send_frame]

/-- Closing touches nothing but messages and closed channels. -/
theorem closeEach_frame (s : Soup γ π η μ) (cs : List Channel) :
    s.closeEach cs =
      { s with messages := (s.closeEach cs).messages, closed := (s.closeEach cs).closed } := by
  induction cs generalizing s with
  | nil => rfl
  | cons c cs ih => rw [closeEach, List.foldl_cons, ← closeEach, ih, close]

theorem isClosed_closeEach (s : Soup γ π η μ) (cs : List Channel) (q : Channel) :
    (s.closeEach cs).isClosed q = (decide (q ∈ cs) || s.isClosed q) := by
  induction cs generalizing s with
  | nil => simp [closeEach]
  | cons c cs ih =>
    rw [closeEach, List.foldl_cons, ← closeEach, ih, isClosed_close]
    by_cases hq : q = c <;> simp [hq]

theorem queue_closeEach (s : Soup γ π η μ) (cs : List Channel) (q : Channel) :
    (s.closeEach cs).queue q = if q ∈ cs then [] else s.queue q := by
  induction cs generalizing s with
  | nil => simp [closeEach]
  | cons c cs ih =>
    rw [closeEach, List.foldl_cons, ← closeEach, ih, queue_close]
    by_cases hq : q = c <;> simp [hq]

@[simp] theorem timers_closeEach (s : Soup γ π η μ) (cs : List Channel) :
    (s.closeEach cs).timers = s.timers := by
  induction cs generalizing s with
  | nil => rfl
  | cons c cs ih => rw [closeEach, List.foldl_cons, ← closeEach, ih, timers_close]

@[simp] theorem outbox_closeEach (s : Soup γ π η μ) (cs : List Channel) :
    (s.closeEach cs).outbox = s.outbox := by
  induction cs generalizing s with
  | nil => rfl
  | cons c cs ih => rw [closeEach, List.foldl_cons, ← closeEach, ih, outbox_close]

/-! ### Using up a choice -/

theorem isReady_eq_false_iff {s : Soup γ π η μ} {a : Arm η} :
    s.isReady a = false ↔ s.queue a.channel = [] := by
  rw [isReady, Bool.not_eq_false', List.isEmpty_iff]

theorem find?_isReady_eq_none_iff {s : Soup γ π η μ} {arms : List (Arm η)} :
    arms.find? s.isReady = none ↔ ∀ a ∈ arms, s.queue a.channel = [] := by
  simp only [List.find?_eq_none, Bool.not_eq_true, isReady_eq_false_iff]

/-- The arm that is found in a choice is its first one with a message. -/
theorem find?_isReady_eq_some_iff {s : Soup γ π η μ} {arms : List (Arm η)} {a : Arm η} :
    arms.find? s.isReady = some a ↔ ∃ front back m left, arms = front ++ a :: back ∧
      (∀ b ∈ front, s.queue b.channel = []) ∧ s.queue a.channel = m :: left := by
  rw [List.find?_eq_some_iff_append]
  constructor
  · rintro ⟨hready, front, back, harms, hfront⟩
    obtain ⟨m, left, hq⟩ := exists_of_isReady hready
    exact ⟨front, back, m, left, harms,
      fun b hb => isReady_eq_false_iff.1 (by simpa using hfront b hb), hq⟩
  · rintro ⟨front, back, m, left, harms, hfront, hq⟩
    exact ⟨by simp [isReady, hq], front, back, harms, fun b hb => by
      rw [isReady_eq_false_iff.2 (hfront b hb), Bool.not_false]⟩

theorem firstReady?_eq_none_iff_forall {s : Soup γ π η μ} {cs : List (Choice η)} :
    s.firstReady? cs = none ↔ ∀ c ∈ cs, ∀ a ∈ c.arms, s.queue a.channel = [] := by
  simp only [firstReady?_eq_none_iff, List.any_eq_false, Bool.not_eq_true, isReady_eq_false_iff]

/-- Choices that have nothing to receive are passed over, and kept. -/
theorem firstReady?_append {s : Soup γ π η μ} {pre cs others : List (Choice η)} {a : Arm η}
    (hpre : ∀ d ∈ pre, ∀ b ∈ d.arms, s.queue b.channel = [])
    (h : s.firstReady? cs = some (a, others)) :
    s.firstReady? (pre ++ cs) = some (a, pre ++ others) := by
  induction pre with
  | nil => exact h
  | cons d pre ih =>
    obtain ⟨hd, hpre⟩ := List.forall_mem_cons.1 hpre
    rw [List.cons_append, firstReady?, find?_isReady_eq_none_iff.2 hd, ih hpre]
    rfl

/-- The choice that is found is the first one that can receive, and the choices that are kept are
all others in their order. -/
theorem exists_of_firstReady? {s : Soup γ π η μ} {cs others : List (Choice η)} {a : Arm η}
    (h : s.firstReady? cs = some (a, others)) :
    ∃ pre c post, cs = pre ++ c :: post ∧ others = pre ++ post ∧
      (∀ d ∈ pre, ∀ b ∈ d.arms, s.queue b.channel = []) ∧ c.arms.find? s.isReady = some a := by
  induction cs generalizing others with
  | nil => cases h
  | cons c cs ih =>
    rw [firstReady?] at h
    split at h
    · next b hb =>
      cases h
      exact ⟨[], c, cs, rfl, rfl, List.forall_mem_nil _, hb⟩
    · next hidle =>
      obtain ⟨⟨b, rest⟩, hb, he⟩ := Option.map_eq_some_iff.1 h
      cases he
      obtain ⟨pre, d, post, rfl, rfl, hpre, hd⟩ := ih hb
      exact ⟨c :: pre, d, post, rfl, rfl,
        List.forall_mem_cons.2 ⟨find?_isReady_eq_none_iff.1 hidle, hpre⟩, hd⟩

/-- What it is to use up a choice.  Choices before it have no message to receive, and neither do the
arms before the one that takes the oldest message on its channel.  The choice goes, the message
goes, the queue goes if it was the last, and nothing else is touched. -/
inductive Matches (s : Soup γ π η μ) (a : Arm η) (m : μ) : Soup γ π η μ → Prop
  | intro {pre post : List (Choice η)} {c : Choice η} {front back : List (Arm η)}
      {left : List μ} {messages : Table Channel (List μ)}
      (hchoices : s.choices = pre ++ c :: post)
      (hpre : ∀ d ∈ pre, ∀ b ∈ d.arms, s.queue b.channel = [])
      (harms : c.arms = front ++ a :: back)
      (hfront : ∀ b ∈ front, s.queue b.channel = [])
      (hqueue : s.queue a.channel = m :: left)
      (hmessages : ∀ q, messages.get? q =
        if q = a.channel then (if left.isEmpty then none else some left) else s.messages.get? q) :
      Matches s a m { s with choices := pre ++ post, messages }

theorem get?_withoutOldest (s : Soup γ π η μ) (c q : Channel) (left : List μ) :
    (s.withoutOldest c left).get? q =
      if q = c then (if left.isEmpty then none else some left) else s.messages.get? q := by
  by_cases h : q = c <;> cases left <;> simp [withoutOldest, h]

/-- Trying to use up a choice uses one up, or takes nothing out because no arm is ready. -/
theorem tryMatch_cases (s : Soup γ π η μ) :
    (s.firstReady? s.choices = none ∧ s.tryMatch = (none, s)) ∨
      ∃ a m s', s.tryMatch = (some (a, m), s') ∧ s.Matches a m s' := by
  cases h : s.firstReady? s.choices with
  | none => exact .inl ⟨rfl, tryMatch_of_none h⟩
  | some found =>
    obtain ⟨a, others⟩ := found
    obtain ⟨pre, c, post, hcs, rfl, hpre, hfind⟩ := exists_of_firstReady? h
    obtain ⟨front, back, m, left, harms, hfront, hq⟩ := find?_isReady_eq_some_iff.1 hfind
    exact .inr ⟨a, m, _, tryMatch_of_some h hq,
      .intro hcs hpre harms hfront hq fun q => get?_withoutOldest s a.channel q left⟩

/-- A choice is used up in one way only. -/
theorem Matches.tryMatch_eq {s s' : Soup γ π η μ} {a : Arm η} {m : μ} (h : s.Matches a m s') :
    s.tryMatch = (some (a, m), s') := by
  cases h with
  | @intro pre post c front back left messages hcs hpre harms hfront hq hmessages =>
    have hfind := find?_isReady_eq_some_iff.2 ⟨front, back, m, left, harms, hfront, hq⟩
    have hfirst : s.firstReady? s.choices = some (a, pre ++ post) := by
      rw [hcs]
      exact firstReady?_append hpre (by rw [firstReady?, hfind])
    have hsame : s.withoutOldest a.channel left = messages :=
      Table.eq_of_get? fun q => by rw [get?_withoutOldest, hmessages]
    rw [tryMatch_of_some hfirst hq, hsame]

theorem tryMatch_eq_some_iff {s s' : Soup γ π η μ} {a : Arm η} {m : μ} :
    s.tryMatch = (some (a, m), s') ↔ s.Matches a m s' := by
  refine ⟨fun h => ?_, Matches.tryMatch_eq⟩
  rcases s.tryMatch_cases with ⟨-, hnone⟩ | ⟨b, n, r, hsome, hmatch⟩
  · rw [hnone] at h
    cases h
  · rw [hsome] at h
    cases h
    exact hmatch

/-- Nothing is taken out of a soup without a ready arm, and nothing is left out of the soup that
comes of it. -/
theorem tryMatch_eq_none_iff {s s' : Soup γ π η μ} :
    s.tryMatch = (none, s') ↔ (∀ c ∈ s.choices, ∀ a ∈ c.arms, s.queue a.channel = []) ∧ s' = s := by
  rw [← firstReady?_eq_none_iff_forall]
  rcases s.tryMatch_cases with ⟨hfirst, hnone⟩ | ⟨a, m, r, hsome, hmatch⟩
  · rw [hnone, Prod.mk.injEq, eq_comm (a := s')]
    exact ⟨fun h => ⟨hfirst, h.2⟩, fun h => ⟨rfl, h.2⟩⟩
  · rw [hsome]
    constructor
    · intro h
      cases h
    · rintro ⟨hfirst, -⟩
      rw [tryMatch_of_none hfirst] at hsome
      cases hsome

/-- What is taken is what trying takes. -/
theorem takeMatch?_eq_some_iff {s s' : Soup γ π η μ} {a : Arm η} {m : μ} :
    s.takeMatch? = some (a, m, s') ↔ s.Matches a m s' := by
  rw [← tryMatch_eq_some_iff, takeMatch?]
  rcases s.tryMatch_cases with ⟨-, hnone⟩ | ⟨b, n, r, hsome, -⟩
  · simp [hnone]
  · simp [hsome, and_assoc]

/-- Using up a choice takes the choice and the oldest message of one of its channels. -/
theorem exists_of_takeMatch? {s s' : Soup γ π η μ} {a : Arm η} {m : μ}
    (h : s.takeMatch? = some (a, m, s')) :
    ∃ pre c post, s.choices = pre ++ c :: post ∧ a ∈ c.arms ∧
      s' = { s with choices := pre ++ post, messages := s'.messages } := by
  obtain ⟨hcs, -, harms, -, -, -⟩ := takeMatch?_eq_some_iff.1 h
  exact ⟨_, _, _, hcs, harms ▸ List.mem_append_right _ List.mem_cons_self, rfl⟩

/-- The message that is taken was the oldest of its queue, and the rest of the queue is kept. -/
theorem messages_of_takeMatch? {s s' : Soup γ π η μ} {a : Arm η} {m : μ}
    (h : s.takeMatch? = some (a, m, s')) :
    ∃ left, s.queue a.channel = m :: left ∧ s'.messages = s.withoutOldest a.channel left := by
  obtain ⟨-, -, -, -, hq, hmessages⟩ := takeMatch?_eq_some_iff.1 h
  exact ⟨_, hq, Table.eq_of_get? fun q => by rw [get?_withoutOldest, hmessages]⟩

/-- **A match takes the first ready arm and touches nothing else.**  In every soup, a choice is used
up if and only if some choice waits on a channel with a message; it is then the first such choice,
by its first such arm and with the oldest message.  Otherwise the soup is left as it was. -/
theorem tryMatch_takes_first (s : Soup γ π η μ) :
    ((∃ a m s', s.tryMatch = (some (a, m), s')) ↔
        ∃ c ∈ s.choices, ∃ a ∈ c.arms, s.queue a.channel ≠ []) ∧
      (∀ a m s', s.tryMatch = (some (a, m), s') ↔ s.Matches a m s') ∧
      ∀ s', s.tryMatch = (none, s') ↔
        (∀ c ∈ s.choices, ∀ a ∈ c.arms, s.queue a.channel = []) ∧ s' = s := by
  refine ⟨⟨?_, ?_⟩, fun a m s' => tryMatch_eq_some_iff, fun s' => tryMatch_eq_none_iff⟩
  · rintro ⟨a, m, s', h⟩
    obtain ⟨hcs, -, harms, -, hq, -⟩ := tryMatch_eq_some_iff.1 h
    refine ⟨_, hcs ▸ List.mem_append_right _ List.mem_cons_self, a,
      harms ▸ List.mem_append_right _ List.mem_cons_self, ?_⟩
    rw [hq]
    exact List.cons_ne_nil _ _
  · rintro ⟨c, hc, a, ha, hq⟩
    rcases s.tryMatch_cases with ⟨hfirst, -⟩ | ⟨b, n, r, hsome, -⟩
    · exact absurd (firstReady?_eq_none_iff_forall.1 hfirst c hc a ha) hq
    · exact ⟨b, n, r, hsome⟩

end Soup

end Perdure
