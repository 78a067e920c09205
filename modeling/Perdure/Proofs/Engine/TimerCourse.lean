import Perdure.Engine.Timers

/-!
# Courses of a timer service

A timer service is called, its tasks are scheduled, and time passes, all in any order.  Each event
is told to the registration that it answers: to the one being made if the service is stopped, and to
the one whose task is scheduled otherwise.

## Main definitions

* `TimerStep`, `TimerCourse` — what happens to a timer service, and what it said to whom.
* `TimerService.Moves` — what a step may do to a service.
* `TimerCourse.Coherent` — tasks and pending registrations belong together.

## Main results

* `TimerService.exists_moves` — every step does one of these things.
* `TimerService.get?_pending_finish` — a task that ends leaves other registrations pending.
* `TimerCourse.coherent_run` — tasks and pending registrations belong together at any time.
-/

namespace Perdure

/-- What can happen to a timer service. -/
inductive TimerStep where
  | register (key : TimerKey) (deadline : Instant)
  | cancel (key : TimerKey)
  | shutdown
  /-- Some nanoseconds pass, and the clock shows what it may. -/
  | advance (now : Instant) (nanos : Nat)
  /-- The task of a registration is scheduled. -/
  | wake (number : Nat) (sleepFirst : Bool)
deriving DecidableEq

namespace TimerStep

/-- The service after a step. -/
def apply (s : TimerService) : TimerStep → TimerService
  | register key deadline => s.register key deadline
  | cancel key => s.cancel key
  | shutdown => s.shutdown
  | advance now nanos => s.advance now nanos
  | wake number sleepFirst => s.wake number sleepFirst

/-- How many registrations a step makes. -/
def registrations : TimerStep → Nat
  | register _ _ => 1
  | _ => 0

end TimerStep

/-- A service, the number of registrations so far, and what was said to which of them. -/
structure TimerCourse where
  service : TimerService
  count : Nat := 0
  said : List (Nat × TimerEvent) := []

namespace TimerCourse

/-- Who is told the events of a step. -/
def listener (c : TimerCourse) : TimerStep → Nat
  | .wake number _ => number
  | _ => c.count

/-- The course after a step. -/
def step (c : TimerCourse) (x : TimerStep) : TimerCourse :=
  let service := x.apply c.service
  { service
    count := c.count + x.registrations
    said := c.said ++ (service.events.drop c.service.events.length).map (c.listener x, ·) }

/-- The course after some steps. -/
def after (c : TimerCourse) (steps : List TimerStep) : TimerCourse := steps.foldl step c

/-- The course of a new service. -/
def run (now : Instant) (steps : List TimerStep) : TimerCourse :=
  after { service := { now } } steps

/-- What a registration was told. -/
def heard (c : TimerCourse) (number : Nat) : List TimerEvent :=
  c.said.filterMap fun e => if e.1 = number then some e.2 else none

end TimerCourse

/-! ### What calls and tasks do -/

namespace TimerService

variable {s s' : TimerService} {x : TimerStep} {events : List TimerEvent}

/-- Tasks once the registration is revoked that is pending under a key. -/
def Revokes (s : TimerService) (key : TimerKey) (tasks : Table Nat TimerTask) : Prop :=
  ∀ n, tasks.get? n = (s.tasks.get? n).map fun t =>
    { t with revoked := t.revoked || s.pending.get? key = some n }

/-- What a step may do to a service, and the events that it leaves behind. -/
inductive Moves (s : TimerService) : TimerStep → List TimerEvent → TimerService → Prop
  | registered {key deadline tasks} (running : s.stopped = false) (revokes : s.Revokes key tasks) :
      s.Moves (.register key deadline) []
        { s with
          next := s.next + 1
          pending := s.pending.insert key s.next
          tasks := tasks.insert s.next { key, delay := s.now.nanosUntil deadline } }
  | refused {key deadline} (stopped : s.stopped = true) :
      s.Moves (.register key deadline) [.cancelled key]
        { s with events := s.events ++ [.cancelled key] }
  | cancelled {key tasks} (revokes : s.Revokes key tasks) :
      s.Moves (.cancel key) [] { s with pending := s.pending.erase key, tasks }
  | stopped : s.Moves .shutdown [] { s with stopped := true }
  | advanced {now nanos} :
      s.Moves (.advance now nanos) [] { s with now, uptime := s.uptime + nanos }
  | absent {number sleepFirst} (gone : s.tasks.get? number = none) :
      s.Moves (.wake number sleepFirst) [] s
  | slept {number sleepFirst t} (task : s.tasks.get? number = some t)
      (goesOn : s.ending? (s.asleep t) sleepFirst = none) :
      s.Moves (.wake number sleepFirst) [] { s with tasks := s.tasks.insert number (s.asleep t) }
  | ended {number sleepFirst t event} (task : s.tasks.get? number = some t)
      (ends : s.ending? (s.asleep t) sleepFirst = some event) :
      s.Moves (.wake number sleepFirst) event.toList (s.finish number (s.asleep t).key event)

theorem exists_revokes (s : TimerService) (key : TimerKey) :
    ∃ tasks, s.Revokes key tasks ∧ s.revokePending key = { s with tasks } := by
  unfold Revokes revokePending
  cases hp : s.pending.get? key with
  | none => exact ⟨s.tasks, by simp, rfl⟩
  | some number =>
    simp only [revoke]
    cases ht : s.tasks.get? number with
    | none =>
      refine ⟨s.tasks, fun n => ?_, rfl⟩
      by_cases h : number = n
      · simp [← h, ht]
      · simp [h]
    | some t =>
      refine ⟨s.tasks.insert number { t with revoked := true }, fun n => ?_, rfl⟩
      by_cases h : number = n
      · simp [← h, ht]
      · simp [h, Ne.symm h]

/-- Every step does one of these. -/
theorem exists_moves (s : TimerService) (x : TimerStep) :
    ∃ events, s.Moves x events (x.apply s) := by
  cases x with
  | register key deadline =>
    cases hs : s.stopped with
    | false =>
      obtain ⟨tasks, hrevokes, hrevoke⟩ := s.exists_revokes key
      have hmoves := @Moves.registered s key deadline tasks hs hrevokes
      exact ⟨_, by simpa [TimerStep.apply, register, hs, hrevoke] using hmoves⟩
    | true => exact ⟨_, by simpa [TimerStep.apply, register, hs] using Moves.refused hs⟩
  | cancel key =>
    obtain ⟨tasks, hrevokes, hrevoke⟩ := s.exists_revokes key
    exact ⟨_, by simpa [TimerStep.apply, cancel, hrevoke] using Moves.cancelled hrevokes⟩
  | shutdown => exact ⟨_, .stopped⟩
  | advance now nanos => exact ⟨_, .advanced⟩
  | wake number sleepFirst =>
    cases ht : s.tasks.get? number with
    | none => exact ⟨_, by simpa [TimerStep.apply, wake, ht] using Moves.absent ht⟩
    | some t =>
      cases he : s.ending? (s.asleep t) sleepFirst with
      | none => exact ⟨_, by simpa [TimerStep.apply, wake, ht, he] using Moves.slept ht he⟩
      | some event => exact ⟨_, by simpa [TimerStep.apply, wake, ht, he] using Moves.ended ht he⟩

theorem Moves.stopped_iff (h : s.Moves x events s') :
    s'.stopped = true ↔ s.stopped = true ∨ .shutdown = x := by
  cases h <;> simp [finish]

theorem Moves.events_eq (h : s.Moves x events s') : s'.events = s.events ++ events := by
  cases h <;> simp [finish]

/-- A task that ends takes nothing but its own registration from the pending ones. -/
theorem get?_pending_finish {number n : Nat} {key k : TimerKey} {event : Option TimerEvent}
    (h : ∀ k, s.pending.get? k = some number → k = key) :
    (s.finish number key event).pending.get? k = some n ↔ s.pending.get? k = some n ∧ n ≠ number := by
  unfold finish
  constructor
  · intro hk
    split at hk
    · rw [Table.get?_erase] at hk
      split at hk
      · cases hk
      · next hne => exact ⟨hk, fun he => hne (h k (he ▸ hk))⟩
    · next hother => exact ⟨hk, fun he => hother (h k (he ▸ hk) ▸ he ▸ hk)⟩
  · rintro ⟨hk, hne⟩
    split
    · next hown =>
      rw [Table.get?_erase, if_neg, hk]
      rintro rfl
      exact hne (Option.some.inj (hk.symm.trans hown))
    · exact hk

/-- How a task ends that looks around. -/
theorem ending?_eq (s : TimerService) (t : TimerTask) (sleepFirst : Bool) :
    s.ending? t sleepFirst =
      if (∃ due ∈ t.due, due ≤ s.uptime) ∧
          (sleepFirst = true ∨ s.stopped = false ∧ t.revoked = false) then
        some (some (.timeout t.key))
      else if s.stopped = true then some (some (.cancelled t.key))
      else if t.revoked = true then some none
      else none := by
  unfold ending?
  cases sleepFirst <;> cases s.stopped <;> cases t.revoked <;> cases t.due <;> simp <;> grind

end TimerService

namespace TimerCourse

variable {c : TimerCourse} {x : TimerStep} {events : List TimerEvent} {s' : TimerService}
  {number delay : Nat} {key : TimerKey} {past : List TimerStep}

/-! ### What is said to whom -/

/-- A step changes the service as it may, and tells its events to one registration. -/
theorem exists_moves (c : TimerCourse) (x : TimerStep) : ∃ events s', c.service.Moves x events s' ∧
    c.step x = ⟨s', c.count + x.registrations, c.said ++ events.map (c.listener x, ·)⟩ := by
  obtain ⟨events, hmoves⟩ := c.service.exists_moves x
  refine ⟨events, _, hmoves, ?_⟩
  simp [step, hmoves.events_eq]

/-- Events are told to the registration that is being made, or to one that has a task. -/
theorem listener_of_moves (h : c.service.Moves x events s') (hne : events ≠ []) :
    c.listener x = c.count ∧ x.registrations = 1 ∨
      ∃ t, c.service.tasks.get? (c.listener x) = some t := by
  cases h with
  | registered | cancelled | stopped | advanced | absent | slept => exact absurd rfl hne
  | refused => exact .inl ⟨rfl, rfl⟩
  | ended task => exact .inr ⟨_, task⟩

/-- Tasks and pending registrations belong together. -/
structure Coherent (c : TimerCourse) : Prop where
  /-- What is pending under a key has a task for this key. -/
  pending : ∀ key n, c.service.pending.get? key = some n →
    ∃ t, c.service.tasks.get? n = some t ∧ t.key = key
  tasks : ∀ n t, c.service.tasks.get? n = some t → n < c.service.next
  next : c.service.next ≤ c.count
  /-- Until the service is stopped, registrations have the numbers of their tasks. -/
  numbered : c.service.stopped = false → c.service.next = c.count
  /-- Only registrations are told anything. -/
  said : ∀ e ∈ c.said, e.1 < c.count
  /-- Whatever is said is said to one of them. -/
  events : c.said.map Prod.snd = c.service.events

theorem coherent_start (now : Instant) : Coherent { service := { now } } where
  pending := nofun
  tasks := nofun
  next := Nat.le_refl 0
  numbered _ := rfl
  said := nofun
  events := rfl

/-- Nothing was said to registrations to come. -/
theorem Coherent.heard_eq_nil (h : c.Coherent) : c.heard c.count = [] :=
  List.filterMap_eq_nil_iff.2 fun e he => if_neg (Nat.ne_of_lt (h.said e he))

/-- What is pending is pending under the key of its task. -/
theorem Coherent.key_of_pending (h : c.Coherent) {t : TimerTask}
    (ht : c.service.tasks.get? number = some t) (k : TimerKey)
    (hk : c.service.pending.get? k = some number) : k = t.key := by
  obtain ⟨u, hu, hkey⟩ := h.pending k number hk
  exact Option.some.inj (ht.symm.trans hu) ▸ hkey.symm

/-- If tasks and pending registrations belong together, they do after every step. -/
theorem Coherent.step (h : c.Coherent) (x : TimerStep) : (c.step x).Coherent := by
  obtain ⟨events, s', hmoves, hstep⟩ := c.exists_moves x
  rw [hstep]
  have hall : (c.said ++ events.map (c.listener x, ·)).map Prod.snd = s'.events := by
    rw [List.map_append, List.map_map, h.events, hmoves.events_eq]
    exact congrArg _ (List.map_id _)
  have hsaid : ∀ e ∈ c.said ++ events.map (c.listener x, ·), e.1 < c.count + x.registrations := by
    intro e he
    rcases List.mem_append.1 he with he | he
    · exact Nat.lt_add_right _ (h.said e he)
    · obtain ⟨event, hevent, rfl⟩ := List.mem_map.1 he
      rcases listener_of_moves hmoves (List.ne_nil_of_mem hevent) with ⟨hnew, hone⟩ | ⟨t, ht⟩
      · show c.listener x < _
        omega
      · exact Nat.lt_add_right _ (Nat.lt_of_lt_of_le (h.tasks _ t ht) h.next)
  have hpending := h.pending
  have htasks := h.tasks
  have hnext := h.next
  have hnumbered := h.numbered
  cases hmoves with
  | registered running revokes =>
    refine ⟨fun k n hk => ?_, fun n t ht => ?_, Nat.succ_le_succ hnext,
      fun _ => congrArg _ (hnumbered running), hsaid, hall⟩
    · rw [Table.get?_insert] at hk
      rw [Table.get?_insert, revokes]
      split at hk
      · next he => simp_all
      · obtain ⟨t, ht, hkey⟩ := hpending k n hk
        have := htasks n t ht
        rw [if_neg (by omega), ht]
        exact ⟨_, rfl, hkey⟩
    · rw [Table.get?_insert, revokes] at ht
      split at ht
      · next he => exact he ▸ Nat.lt_succ_self _
      · obtain ⟨t, ht, -⟩ := Option.map_eq_some_iff.1 ht
        exact Nat.lt_succ_of_lt (htasks n t ht)
  | refused stopped =>
    refine ⟨hpending, htasks, Nat.le_succ_of_le hnext, fun hs => ?_, hsaid, hall⟩
    rw [stopped] at hs
    cases hs
  | cancelled revokes =>
    refine ⟨fun k n hk => ?_, fun n t ht => ?_, hnext, hnumbered, hsaid, hall⟩
    · rw [Table.get?_erase] at hk
      split at hk
      · cases hk
      · obtain ⟨t, ht, hkey⟩ := hpending k n hk
        rw [revokes, ht]
        exact ⟨_, rfl, hkey⟩
    · rw [revokes] at ht
      obtain ⟨t, ht, -⟩ := Option.map_eq_some_iff.1 ht
      exact htasks n t ht
  | stopped =>
    refine ⟨hpending, htasks, hnext, fun hs => ?_, hsaid, hall⟩
    cases hs
  | advanced => exact ⟨hpending, htasks, hnext, hnumbered, hsaid, hall⟩
  | absent => exact ⟨hpending, htasks, hnext, hnumbered, hsaid, hall⟩
  | @slept number _ t task goesOn =>
    refine ⟨fun k n hk => ?_, fun n u hu => ?_, hnext, hnumbered, hsaid, hall⟩
    · obtain ⟨u, hu, hkey⟩ := hpending k n hk
      rw [Table.get?_insert]
      split
      · next he =>
        obtain rfl : t = u := Option.some.inj (task.symm.trans (he ▸ hu))
        exact ⟨_, rfl, hkey⟩
      · exact ⟨u, hu, hkey⟩
    · rw [Table.get?_insert] at hu
      split at hu
      · next he => exact htasks n t (he ▸ task)
      · exact htasks n u hu
  | @ended number _ t event task ends =>
    refine ⟨fun k n hk => ?_, fun n u hu => ?_, hnext, hnumbered, hsaid, hall⟩
    · obtain ⟨hk, hne⟩ := (TimerService.get?_pending_finish (h.key_of_pending task)).1 hk
      obtain ⟨u, hu, hkey⟩ := hpending k n hk
      exact ⟨u, by simp [TimerService.finish, hne, hu], hkey⟩
    · simp only [TimerService.finish, Table.get?_erase] at hu
      split at hu
      · cases hu
      · exact htasks n u hu

/-- A registration hears what is said to it. -/
theorem heard_append (c : TimerCourse) (s' : TimerService) (count listener number : Nat)
    (events : List TimerEvent) :
    heard ⟨s', count, c.said ++ events.map (listener, ·)⟩ number =
      c.heard number ++ if listener = number then events else [] := by
  unfold heard
  rw [List.filterMap_append, List.filterMap_map]
  show _ ++ events.filterMap (fun e => if listener = number then some e else none) = _
  by_cases he : listener = number <;> simp [he]

theorem after_append (c : TimerCourse) (steps steps' : List TimerStep) :
    c.after (steps ++ steps') = (c.after steps).after steps' :=
  List.foldl_append

theorem Coherent.after (h : c.Coherent) (steps : List TimerStep) : (c.after steps).Coherent := by
  induction steps generalizing c with
  | nil => exact h
  | cons x rest ih => exact ih (h.step x)

theorem coherent_run (now : Instant) (steps : List TimerStep) : (run now steps).Coherent :=
  (coherent_start now).after steps

/-- A service is stopped once it was shut down. -/
theorem stopped_after (c : TimerCourse) (steps : List TimerStep) :
    (c.after steps).service.stopped = true ↔ c.service.stopped = true ∨ .shutdown ∈ steps := by
  induction steps generalizing c with
  | nil => simp [TimerCourse.after]
  | cons x rest ih =>
    obtain ⟨events, hmoves⟩ := c.service.exists_moves x
    rw [List.mem_cons, ← or_assoc, ← hmoves.stopped_iff]
    exact ih (c.step x)

end TimerCourse

end Perdure
