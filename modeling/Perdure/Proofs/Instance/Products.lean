import Perdure.Proofs.Instance.Part
import Perdure.Proofs.Soup

/-!
# What a reaction produces

A part that reacts changes its soup in a few ways only, and always in the same order: it takes
new numbers and channels, disarms the timer it waited for, closes channels, arms a timer, sends
messages, starts others and goes on as its heir.  `Products` is the list of these changes, free of
the soup in which they happen.

## Main definitions

* `Products` — what a reaction produces.
* `Products.addTo` — the soup with the products.

## Main results

* `Products.queue_addTo`, `Products.isClosed_addTo`, `Products.get?_timers_addTo`,
  `Products.outbox_addTo`, … — each part of the soup with the products.
-/

namespace Perdure

/-- What a reaction produces. -/
structure Products where
  /-- How many numbers it takes. -/
  numbers : Nat := 0
  /-- How many channels it takes. -/
  channels : Nat := 0
  /-- The timer that is disarmed. -/
  cancelled : Option Channel := none
  closed : List Channel := []
  /-- The timer that is armed. -/
  armed : Option (Channel × Instant) := none
  sent : List (Channel × Message) := []
  /-- The tasks of what is started. -/
  kids : List Task := []
  /-- What works on in the place of the part; `none` if its work is done. -/
  heir : Option Part := none

namespace Products

/-- The parts among the products. -/
def parts (p : Products) : List Part := p.kids.map .ready ++ p.heir.toList

/-- The tasks among the products. -/
def tasks (p : Products) : List Task :=
  match p.heir with
  | some (.ready t) => p.kids ++ [t]
  | _ => p.kids

/-- The receivers among the products. -/
def receivers (p : Products) : List Receiver :=
  match p.heir with
  | some (.waiting r) => [r]
  | _ => []

theorem mem_tasks {p : Products} {t : Task} :
    t ∈ p.tasks ↔ t ∈ p.kids ∨ p.heir = some (.ready t) := by
  unfold tasks
  rcases p.heir with _ | (u | r) <;> simp [eq_comm]

theorem mem_receivers {p : Products} {r : Receiver} :
    r ∈ p.receivers ↔ p.heir = some (.waiting r) := by
  unfold receivers
  rcases p.heir with _ | (u | q) <;> simp [eq_comm]

/-- The names handed out. -/
def takeNames (p : Products) (s : InstanceSoup) : InstanceSoup :=
  { s with
    nextChannel := s.nextChannel + p.channels
    nextMonotonic := s.nextMonotonic + p.numbers }

/-- The timer disarmed. -/
def disarm (p : Products) (s : InstanceSoup) : InstanceSoup := p.cancelled.elim s s.cancelTimer

/-- The timer armed. -/
def arm (p : Products) (s : InstanceSoup) : InstanceSoup :=
  p.armed.elim s fun t => s.registerTimer t.1 t.2

/-- The tasks and receivers added. -/
def populate (p : Products) (s : InstanceSoup) : InstanceSoup :=
  p.receivers.foldl (fun s r => s.object r.choice) (p.tasks.foldl Soup.spawn s)

/-- The soup with the products. -/
def addTo (p : Products) (s : InstanceSoup) : InstanceSoup :=
  p.populate ((p.arm ((p.disarm (p.takeNames s)).closeEach p.closed)).sendEach p.sent)

/-! ### Tasks and receivers -/

theorem foldl_spawn (ts : List Task) (s : InstanceSoup) :
    ts.foldl Soup.spawn s = { s with runnables := s.runnables ++ ts } := by
  induction ts generalizing s with
  | nil => simp
  | cons t ts ih => simp [ih, Soup.spawn]

/-- A choice made from a receiver has arms, so it is not left out. -/
theorem object_choice (s : InstanceSoup) (r : Receiver) :
    s.object r.choice = { s with choices := s.choices ++ [r.choice] } := by
  simp [Soup.object, Receiver.choice, r.channels_ne_nil]

theorem foldl_object (rs : List Receiver) (s : InstanceSoup) :
    rs.foldl (fun s r => s.object r.choice) s =
      { s with choices := s.choices ++ rs.map Receiver.choice } := by
  induction rs generalizing s with
  | nil => simp
  | cons r rs ih =>
    rw [List.foldl_cons, object_choice, ih]
    simp

theorem populate_eq (p : Products) (s : InstanceSoup) :
    p.populate s = { s with
      runnables := s.runnables ++ p.tasks
      choices := s.choices ++ p.receivers.map Receiver.choice } := by
  rw [populate, foldl_spawn, foldl_object]

/-! ### The soup before its parts are added -/

/-- The soup after all changes but the new parts. -/
def settle (p : Products) (s : InstanceSoup) : InstanceSoup :=
  (p.arm ((p.disarm (p.takeNames s)).closeEach p.closed)).sendEach p.sent

theorem addTo_eq (p : Products) (s : InstanceSoup) : p.addTo s = p.populate (p.settle s) := rfl

theorem disarm_frame (p : Products) (s : InstanceSoup) :
    p.disarm s = { s with timers := (p.disarm s).timers, outbox := (p.disarm s).outbox } := by
  unfold disarm
  cases p.cancelled with
  | none => rfl
  | some c => exact s.cancelTimer_frame c

theorem arm_frame (p : Products) (s : InstanceSoup) :
    p.arm s = { s with timers := (p.arm s).timers, outbox := (p.arm s).outbox } := by
  unfold arm
  cases p.armed <;> rfl

/-- Names, messages, closed channels, timers and effects change; nothing else does. -/
theorem settle_frame (p : Products) (s : InstanceSoup) :
    p.settle s = { p.takeNames s with
      messages := (p.settle s).messages, closed := (p.settle s).closed
      timers := (p.settle s).timers, outbox := (p.settle s).outbox } := by
  unfold settle
  rw [Soup.sendEach_frame, arm_frame, Soup.closeEach_frame, disarm_frame]

/-! ### The fields of the soup with the products -/

variable (p : Products) (s : InstanceSoup)

@[simp] theorem global_addTo : (p.addTo s).global = s.global := by
  rw [addTo_eq, populate_eq, settle_frame]; rfl

@[simp] theorem nextChannel_addTo : (p.addTo s).nextChannel = s.nextChannel + p.channels := by
  rw [addTo_eq, populate_eq, settle_frame]; rfl

@[simp] theorem nextMonotonic_addTo :
    (p.addTo s).nextMonotonic = s.nextMonotonic + p.numbers := by
  rw [addTo_eq, populate_eq, settle_frame]; rfl

@[simp] theorem runnables_addTo : (p.addTo s).runnables = s.runnables ++ p.tasks := by
  rw [addTo_eq, populate_eq, settle_frame]; rfl

@[simp] theorem choices_addTo :
    (p.addTo s).choices = s.choices ++ p.receivers.map Receiver.choice := by
  rw [addTo_eq, populate_eq, settle_frame]; rfl

theorem isClosed_disarm (q : Channel) : (p.disarm s).isClosed q = s.isClosed q := by
  unfold disarm
  cases p.cancelled <;> simp

theorem isClosed_arm (q : Channel) : (p.arm s).isClosed q = s.isClosed q := by
  unfold arm
  cases p.armed <;> rfl

/-- Closed is what was closed, and what the reaction closes. -/
@[simp] theorem isClosed_addTo (q : Channel) :
    (p.addTo s).isClosed q = (decide (q ∈ p.closed) || s.isClosed q) := by
  have h : (p.addTo s).isClosed q = (p.settle s).isClosed q := by rw [addTo_eq, populate_eq]; rfl
  rw [h, settle, Soup.isClosed_sendEach, isClosed_arm, Soup.isClosed_closeEach, isClosed_disarm]
  rfl

theorem queue_disarm (q : Channel) : (p.disarm s).queue q = s.queue q := by
  unfold disarm
  cases p.cancelled <;> simp

theorem queue_arm (q : Channel) : (p.arm s).queue q = s.queue q := by
  unfold arm
  cases p.armed <;> rfl

/-- Closing empties a queue, and an open channel gets its own messages. -/
theorem queue_addTo (q : Channel) :
    (p.addTo s).queue q =
      if q ∈ p.closed then [] else if s.isClosed q then s.queue q
      else s.queue q ++ Soup.addressed p.sent q := by
  have h : (p.addTo s).queue q = (p.settle s).queue q := by rw [addTo_eq, populate_eq]; rfl
  have hc : ((p.disarm (p.takeNames s)).closeEach p.closed).isClosed q =
      (decide (q ∈ p.closed) || s.isClosed q) := by
    rw [Soup.isClosed_closeEach, isClosed_disarm]
    rfl
  have hq : ((p.disarm (p.takeNames s)).closeEach p.closed).queue q =
      if q ∈ p.closed then [] else s.queue q := by
    rw [Soup.queue_closeEach, queue_disarm]
    rfl
  rw [h, settle, Soup.queue_sendEach, isClosed_arm, queue_arm, hc, hq]
  by_cases hm : q ∈ p.closed <;> simp [hm]

/-- A message disarms the timer of its channel; else it is armed as the reaction leaves it. -/
theorem get?_timers_addTo (q : Channel) :
    (p.addTo s).timers.get? q =
      if Soup.addressed p.sent q ≠ [] ∧ (p.addTo s).isClosed q = false then none
      else match p.armed with
        | some (c, d) => if q = c then some d else (p.disarm s).timers.get? q
        | none => (p.disarm s).timers.get? q := by
  have h : (p.addTo s).timers = (p.settle s).timers := by rw [addTo_eq, populate_eq]
  have hn : (p.disarm (p.takeNames s)).timers = (p.disarm s).timers := by
    unfold disarm
    cases p.cancelled with
    | none => rfl
    | some c => by_cases hc : s.timers.contains c <;> simp [Soup.cancelTimer, takeNames, hc]
  rw [h, settle, Soup.get?_timers_sendEach, isClosed_arm, Soup.isClosed_closeEach, isClosed_disarm,
    isClosed_addTo]
  congr 1
  unfold arm
  cases p.armed with
  | none => simp only [Option.elim, Soup.timers_closeEach, hn]
  | some t => simp only [Option.elim, Soup.registerTimer, Table.get?_insert, Soup.timers_closeEach, hn]

theorem get?_timers_disarm (q : Channel) :
    (p.disarm s).timers.get? q = if p.cancelled = some q then none else s.timers.get? q := by
  unfold disarm
  cases p.cancelled with
  | none => simp
  | some c => simp [Soup.get?_timers_cancelTimer, eq_comm]

/-- The effects of a reaction: a disarmed timer, then an armed one. -/
theorem outbox_addTo :
    (p.addTo s).outbox = s.outbox ++ p.cancelled.elim [] s.cancellation ++
      p.armed.elim [] fun t => [.registerTimer t.1 t.2] := by
  have h : (p.addTo s).outbox = (p.settle s).outbox := by rw [addTo_eq, populate_eq]
  have hd : (p.disarm (p.takeNames s)).outbox =
      s.outbox ++ p.cancelled.elim [] s.cancellation := by
    unfold disarm
    cases p.cancelled with
    | none => simp [takeNames]
    | some c => simp [Soup.cancellation, takeNames]
  rw [h, settle, Soup.outbox_sendEach]
  unfold arm
  cases p.armed with
  | none => simp [hd]
  | some t => simp [Soup.registerTimer, hd]

/-! ### The parts of the soup with the products -/

@[simp] theorem receivers_addTo : (p.addTo s).receivers = s.receivers ++ p.receivers := by
  rw [Soup.receivers, choices_addTo, List.filterMap_append, filterMap_receiver?_choice]
  rfl

/-- The new parts join the old ones. -/
theorem parts_addTo : (p.addTo s).parts.Perm (p.parts ++ s.parts) := by
  have hp : p.parts.Perm (p.tasks.map .ready ++ p.receivers.map .waiting) := by
    unfold Products.parts Products.tasks Products.receivers
    rcases p.heir with _ | (t | r) <;> simp
  refine .trans ?_ (hp.symm.append_right _)
  simp only [Soup.parts, runnables_addTo, receivers_addTo, List.map_append]
  rw [List.perm_iff_count]
  intro a
  simp only [List.count_append]
  omega

end Products

/-- A message changes no part. -/
theorem Soup.parts_send (soup : InstanceSoup) (c : Channel) (msg : Message) :
    (soup.send c msg).parts = soup.parts := by
  rw [Soup.send_frame]
  rfl

theorem Soup.awaitedTimers_send (soup : InstanceSoup) (c : Channel) (msg : Message) :
    (soup.send c msg).awaitedTimers = soup.awaitedTimers := by
  unfold awaitedTimers
  rw [parts_send]

end Perdure
