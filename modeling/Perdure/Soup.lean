import Perdure.Table
import Perdure.Time.Instant

/-!
# The soup of an instance

All state of a running instance: processes that are ready to run, choices that wait for messages,
messages that wait for a receiver, armed timers and the data shared by all processes.  Processes
meet only through channels.  A choice waits on several channels at once and is used up by the
first message that one of its arms takes.

## Main definitions

* `Channel`, `Arm`, `Choice` — where messages go and who waits for them.
* `Effect` — what the outside is asked to do about timers.
* `Soup` — the state of an instance, for any kind of processes, handlers and messages.
* `Soup.send`, `Soup.close`, `Soup.object`, … — one function per change of the state.
* `Soup.takeRunnable?`, `Soup.takeMatch?` — what can be reduced next.
* `Soup.tryMatch` — take the first ready arm and its message out of a soup, one after the other.

## Main results

* `Soup.queue_send`, `Soup.queue_close`, `Soup.queue_takeMatch?` — what becomes of the queues.
* `Soup.tryMatch_of_none`, `Soup.tryMatch_of_some` — a choice that is taken out is used.
* `Soup.hasWork_eq_false_iff` — work is left exactly when one of these two finds something.
-/

namespace Perdure

/-- The name of a channel. -/
abbrev Channel := Nat

/-- A channel as text. -/
def Channel.text (c : Channel) : String := "ch" ++ toString c

/-- One receive: a channel and the handler of its message. -/
structure Arm (η : Type) where
  channel : Channel
  handler : η
deriving DecidableEq, Repr

/-- Receives of which one is used. -/
structure Choice (η : Type) where
  arms : List (Arm η)
deriving DecidableEq, Repr

/-- What the outside is asked to do about timers. -/
inductive Effect where
  | registerTimer (channel : Channel) (deadline : Instant)
  | cancelTimer (channel : Channel)
deriving DecidableEq, Repr

/-- The state of an instance: shared data `γ`, processes `π`, handlers `η` and messages `μ`. -/
structure Soup (γ π η μ : Type) where
  global : γ
  /-- The channel that is handed out next. -/
  nextChannel : Nat := 1
  /-- The number that is handed out next. -/
  nextMonotonic : Nat := 1
  /-- Processes ready to run, first come first served. -/
  runnables : List π := []
  /-- Waiting choices, oldest first. -/
  choices : List (Choice η) := []
  /-- Messages that no handler has taken, oldest first. -/
  messages : Table Channel (List μ) := ∅
  /-- Channels that take no more messages. -/
  closed : KeySet Channel := ∅
  /-- Armed timers by the channel they will send to. -/
  timers : Table Channel Instant := ∅
  /-- Effects not yet handed over; they are not part of the stored state. -/
  outbox : List Effect := []
deriving DecidableEq, Repr

namespace Soup

variable {γ π η μ : Type}

/-! ### Names -/

/-- Hand out a new channel. -/
def newChannel (s : Soup γ π η μ) : Channel × Soup γ π η μ :=
  (s.nextChannel, { s with nextChannel := s.nextChannel + 1 })

/-- Hand out a new number. -/
def genMonotonic (s : Soup γ π η μ) : Nat × Soup γ π η μ :=
  (s.nextMonotonic, { s with nextMonotonic := s.nextMonotonic + 1 })

/-! ### Processes and choices -/

/-- Add a process that is ready to run. -/
def spawn (s : Soup γ π η μ) (p : π) : Soup γ π η μ :=
  { s with runnables := s.runnables ++ [p] }

/-- Add a waiting choice.  A choice without arms would wait for ever and is left out. -/
def object (s : Soup γ π η μ) (c : Choice η) : Soup γ π η μ :=
  if c.arms.isEmpty then s else { s with choices := s.choices ++ [c] }

/-! ### Messages -/

/-- Messages waiting on a channel, oldest first. -/
def queue (s : Soup γ π η μ) (c : Channel) : List μ := (s.messages.get? c).getD []

/-- Is the channel closed? -/
def isClosed (s : Soup γ π η μ) (c : Channel) : Bool := s.closed.contains c

/-- Send a message.  It disarms the timer of the channel; a closed channel drops it. -/
def send (s : Soup γ π η μ) (c : Channel) (m : μ) : Soup γ π η μ :=
  if s.isClosed c then s
  else { s with timers := s.timers.erase c, messages := s.messages.insert c (s.queue c ++ [m]) }

/-- Close a channel: its messages are dropped, and so are all later ones. -/
def close (s : Soup γ π η μ) (c : Channel) : Soup γ π η μ :=
  { s with messages := s.messages.erase c, closed := s.closed.add c }

/-- Take all messages of a channel. -/
def takeMessages (s : Soup γ π η μ) (c : Channel) : List μ × Soup γ π η μ :=
  (s.queue c, { s with messages := s.messages.erase c })

/-- A message goes to the end of its own queue, unless the channel is closed. -/
theorem queue_send (s : Soup γ π η μ) (c q : Channel) (m : μ) :
    (s.send c m).queue q =
      if q = c ∧ s.isClosed c = false then s.queue c ++ [m] else s.queue q := by
  by_cases h : s.isClosed c <;> by_cases hq : q = c <;> simp [send, queue, h, hq]

/-- Sending closes nothing. -/
@[simp] theorem isClosed_send (s : Soup γ π η μ) (c q : Channel) (m : μ) :
    (s.send c m).isClosed q = s.isClosed q := by
  unfold send
  split <;> rfl

/-- Closing empties the queue of the channel and leaves all others. -/
@[simp] theorem queue_close (s : Soup γ π η μ) (c q : Channel) :
    (s.close c).queue q = if q = c then [] else s.queue q := by
  by_cases h : q = c <;> simp [close, queue, h]

/-- A channel is closed after it was closed, or if it was closed before. -/
@[simp] theorem isClosed_close (s : Soup γ π η μ) (c q : Channel) :
    (s.close c).isClosed q = (decide (q = c) || s.isClosed q) := by
  simp [close, isClosed]

/-- Taking the messages of a channel empties its queue and leaves all others. -/
theorem queue_takeMessages (s : Soup γ π η μ) (c q : Channel) :
    (s.takeMessages c).2.queue q = if q = c then [] else s.queue q := by
  by_cases h : q = c <;> simp [takeMessages, queue, h]

/-! ### Timers -/

/-- Arm a timer. -/
def registerTimer (s : Soup γ π η μ) (c : Channel) (deadline : Instant) : Soup γ π η μ :=
  { s with
    timers := s.timers.insert c deadline
    outbox := s.outbox ++ [.registerTimer c deadline] }

/-- Disarm a timer, if it is armed. -/
def cancelTimer (s : Soup γ π η μ) (c : Channel) : Soup γ π η μ :=
  if s.timers.contains c then
    { s with timers := s.timers.erase c, outbox := s.outbox ++ [.cancelTimer c] }
  else s

/-- Hand over the effects. -/
def drainEffects (s : Soup γ π η μ) : List Effect × Soup γ π η μ :=
  (s.outbox, { s with outbox := [] })

/-! ### Reduction -/

/-- Take the process that has waited longest to run. -/
def takeRunnable? (s : Soup γ π η μ) : Option (π × Soup γ π η μ) :=
  match s.runnables with
  | [] => none
  | p :: rest => some (p, { s with runnables := rest })

/-- Has the channel of an arm a message? -/
def isReady (s : Soup γ π η μ) (a : Arm η) : Bool := !(s.queue a.channel).isEmpty

/-- The place of the first ready arm of a choice, beside the place of the choice. -/
def placeIn? (s : Soup γ π η μ) : Choice η × Nat → Option (Nat × Nat)
  | (c, i) => (c.arms.findIdx? s.isReady).map fun j => (i, j)

/-- Where the first ready arm of the first choice that has one stands. -/
def readyPlace? (s : Soup γ π η μ) : Option (Nat × Nat) := s.choices.zipIdx.findSome? s.placeIn?

/-- The queues after the oldest message of a channel is taken. -/
def withoutOldest (s : Soup γ π η μ) (c : Channel) (left : List μ) : Table Channel (List μ) :=
  if left.isEmpty then s.messages.erase c else s.messages.insert c left

/-- Take the oldest message of a channel, if there is one.  A queue that is emptied goes. -/
def takeOldest (s : Soup γ π η μ) (c : Channel) : Option μ × Soup γ π η μ :=
  match s.queue c with
  | [] => (none, s)
  | m :: left => (some m, { s with messages := s.withoutOldest c left })

/-- Try to use up the first choice that can receive.  The choice is taken out before its arm and the
message are looked up, and would not be put back if one of them was missing. -/
def tryMatch (s : Soup γ π η μ) : Option (Arm η × μ) × Soup γ π η μ :=
  match s.readyPlace? with
  | none => (none, s)
  | some (i, j) => match s.choices[i]? with
    | none => (none, s)
    | some c =>
      let s := { s with choices := s.choices.eraseIdx i }
      match c.arms[j]? with
      | none => (none, s)
      | some a => match s.takeOldest a.channel with
        | (none, s) => (none, s)
        | (some m, s) => (some (a, m), s)

/-- Use up the first choice that can receive: the arm that takes a message, and the oldest message
on its channel.  If there is none, the soup is left as it was (`tryMatch_of_none`). -/
def takeMatch? (s : Soup γ π η μ) : Option (Arm η × μ × Soup γ π η μ) :=
  match s.tryMatch with
  | (none, _) => none
  | (some (a, m), s) => some (a, m, s)

/-! ### Which arm is ready first -/

/-- The first ready arm of the first choice that has one, and the other choices. -/
def firstReady? (s : Soup γ π η μ) : List (Choice η) → Option (Arm η × List (Choice η))
  | [] => none
  | c :: rest => match c.arms.find? s.isReady with
    | some a => some (a, rest)
    | none => (s.firstReady? rest).map fun (a, others) => (a, c :: others)

theorem isReady_of_firstReady? {s : Soup γ π η μ} {cs others : List (Choice η)} {a : Arm η}
    (h : s.firstReady? cs = some (a, others)) : s.isReady a = true := by
  induction cs generalizing others with
  | nil => simp [firstReady?] at h
  | cons c rest ih =>
    simp only [firstReady?] at h
    split at h
    · next b hb =>
      cases h
      exact List.find?_some hb
    · obtain ⟨⟨b, os⟩, hb, he⟩ := Option.map_eq_some_iff.1 h
      cases he
      exact ih hb

/-- A ready arm has a message. -/
theorem exists_of_isReady {s : Soup γ π η μ} {a : Arm η} (h : s.isReady a = true) :
    ∃ m left, s.queue a.channel = m :: left := by
  cases hq : s.queue a.channel with
  | nil => simp [isReady, hq] at h
  | cons m left => exact ⟨m, left, rfl⟩

/-- The places of choices and arms, counted from any number on, lead to the arm that is found by
going through the choices themselves. -/
theorem findSome?_placeIn? (s : Soup γ π η μ) (cs : List (Choice η)) (k : Nat) :
    (cs.zipIdx k).findSome? s.placeIn? = none ∧ s.firstReady? cs = none ∨
      ∃ i j c a, (cs.zipIdx k).findSome? s.placeIn? = some (k + i, j) ∧ cs[i]? = some c ∧
        c.arms[j]? = some a ∧ s.firstReady? cs = some (a, cs.eraseIdx i) := by
  induction cs generalizing k with
  | nil => exact .inl ⟨rfl, rfl⟩
  | cons c rest ih =>
    rw [List.zipIdx_cons, List.findSome?_cons, firstReady?, placeIn?,
      List.find?_eq_bind_findIdx?_getElem?]
    cases hplace : c.arms.findIdx? s.isReady with
    | some j =>
      obtain ⟨hj, -⟩ := List.findIdx?_eq_some_iff_getElem.1 hplace
      have harm : c.arms[j]? = some c.arms[j] := List.getElem?_eq_getElem hj
      refine .inr ⟨0, j, c, c.arms[j], rfl, rfl, harm, ?_⟩
      rw [Option.bind_some, harm]
      rfl
    | none =>
      rcases ih (k + 1) with ⟨hnone, hfirst⟩ | ⟨i, j, d, a, hsome, hd, ha, hfirst⟩
      · rw [hfirst]
        exact .inl ⟨hnone, rfl⟩
      · rw [hfirst]
        refine .inr ⟨i + 1, j, d, a, ?_, hd, ha, rfl⟩
        rw [← Nat.add_assoc, Nat.add_right_comm]
        exact hsome

/-- Nothing is taken out if no arm is ready. -/
theorem tryMatch_of_none {s : Soup γ π η μ} (h : s.firstReady? s.choices = none) :
    s.tryMatch = (none, s) := by
  unfold tryMatch readyPlace?
  rcases s.findSome?_placeIn? s.choices 0 with ⟨hplace, -⟩ | ⟨_, _, _, _, -, -, -, hfirst⟩
  · rw [hplace]
  · rw [hfirst] at h
    cases h

/-- If an arm is ready, nothing is missing once its choice is taken out. -/
theorem tryMatch_of_some {s : Soup γ π η μ} {a : Arm η} {others : List (Choice η)} {m : μ}
    {left : List μ} (h : s.firstReady? s.choices = some (a, others))
    (hq : s.queue a.channel = m :: left) : s.tryMatch =
      (some (a, m), { s with choices := others, messages := s.withoutOldest a.channel left }) := by
  unfold tryMatch readyPlace?
  rcases s.findSome?_placeIn? s.choices 0 with ⟨-, hfirst⟩ | ⟨i, j, c, b, hplace, hc, hb, hfirst⟩
  · rw [hfirst] at h
    cases h
  · rw [hfirst] at h
    cases h
    rw [hplace, Nat.zero_add]
    simp only [hc, hb]
    unfold takeOldest
    have hqueue : ({ s with choices := s.choices.eraseIdx i } : Soup γ π η μ).queue a.channel =
      m :: left := hq
    rw [hqueue]
    rfl

/-- What is used up, without the places. -/
theorem takeMatch?_eq (s : Soup γ π η μ) : s.takeMatch? =
    match s.firstReady? s.choices with
    | none => none
    | some (a, choices) => match s.queue a.channel with
      | [] => none
      | m :: left => some (a, m, { s with choices, messages := s.withoutOldest a.channel left }) := by
  unfold takeMatch?
  cases h : s.firstReady? s.choices with
  | none => rw [tryMatch_of_none h]
  | some found =>
    obtain ⟨m, left, hq⟩ := exists_of_isReady (isReady_of_firstReady? h)
    rw [tryMatch_of_some h hq]
    simp only [hq]

/-- Taking the oldest message of a channel leaves the rest of its queue, and all other queues. -/
theorem getD_withoutOldest (s : Soup γ π η μ) (c q : Channel) (left : List μ) :
    ((s.withoutOldest c left).get? q).getD [] = if q = c then left else s.queue q := by
  by_cases h : q = c <;> cases left <;> simp [withoutOldest, queue, h]

/-- The message that a choice takes was the oldest on its channel; other queues stay. -/
theorem queue_takeMatch? {s s' : Soup γ π η μ} {a : Arm η} {m : μ}
    (h : s.takeMatch? = some (a, m, s')) (q : Channel) :
    s.queue q = if q = a.channel then m :: s'.queue q else s'.queue q := by
  rw [takeMatch?_eq] at h
  cases hf : s.firstReady? s.choices with
  | none => simp [hf] at h
  | some found =>
    obtain ⟨b, choices⟩ := found
    cases hq : s.queue b.channel with
    | nil => simp [hf, hq] at h
    | cons n left =>
      simp only [hf, hq, Option.some.injEq, Prod.mk.injEq] at h
      obtain ⟨rfl, rfl, rfl⟩ := h
      have hleft := s.getD_withoutOldest b.channel q left
      show s.queue q = if q = b.channel then n :: ((s.withoutOldest b.channel left).get? q).getD []
        else ((s.withoutOldest b.channel left).get? q).getD []
      rw [hleft]
      by_cases hc : q = b.channel
      · rw [if_pos hc, if_pos hc, hc, hq]
      · rw [if_neg hc, if_neg hc]

/-- Is there anything left to reduce? -/
def hasWork (s : Soup γ π η μ) : Bool :=
  !s.runnables.isEmpty || s.choices.any fun c => c.arms.any s.isReady

theorem firstReady?_eq_none_iff (s : Soup γ π η μ) (cs : List (Choice η)) :
    s.firstReady? cs = none ↔ (cs.any fun c => c.arms.any s.isReady) = false := by
  induction cs with
  | nil => simp [firstReady?]
  | cons c rest ih =>
    simp only [firstReady?, List.any_cons, Bool.or_eq_false_iff, ← ih]
    split
    · next a h =>
      have ha := List.find?_some h
      have hm := List.mem_of_find?_eq_some h
      have : c.arms.any s.isReady = true := List.any_eq_true.2 ⟨a, hm, ha⟩
      simp [this]
    · next h =>
      have : c.arms.any s.isReady = false := by
        rw [List.any_eq_false]
        exact fun a ha => by simpa using List.find?_eq_none.1 h a ha
      simp [this]

theorem takeMatch?_eq_none_iff (s : Soup γ π η μ) :
    s.takeMatch? = none ↔ (s.choices.any fun c => c.arms.any s.isReady) = false := by
  rw [← firstReady?_eq_none_iff, takeMatch?_eq]
  split
  · next h => simp [h]
  · next a cs h =>
    have hr := isReady_of_firstReady? h
    split
    · next hq => simp [isReady, hq] at hr
    · simp [h]

/-- Nothing is left to reduce exactly when no process is ready and no message can be taken. -/
theorem hasWork_eq_false_iff (s : Soup γ π η μ) :
    s.hasWork = false ↔ s.takeRunnable? = none ∧ s.takeMatch? = none := by
  rw [takeMatch?_eq_none_iff]
  cases h : s.runnables <;> simp [hasWork, takeRunnable?, h]

end Soup

end Perdure
