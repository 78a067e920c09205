import Mathlib.Data.List.Induction
import Mathlib.Data.List.TakeWhile
import Mathlib.Logic.Basic
import Perdure.Proofs.Engine.TimerCourse

/-!
# Registrations and their events

The invariant follows one registration: as long as its task waits, nothing was said and what the
task knows is what happened since the registration; once the task has ended, all that will ever be
said was said.

A registration that was withdrawn is not silent for sure.  Its task notices the withdrawal only when
it is scheduled next.  If the service is shut down before that, the task takes the shutdown for the
reason and says so.

## Main definitions

* `Withdrawn`, `Rested` — a registration was withdrawn, and its task has slept for its delay.
* `TimerCourse.Waits`, `TimerCourse.Ended` — a registration before and after its task has ended.
* `TimerCourse.AnswersOnce` — what is promised to a registration.

## Main results

* `TimerCourse.Waits.wake` — what becomes of a registration whose task is scheduled.
* `TimerCourse.story` — what is known of a registration at any time.
* `TimerCourse.answers_once` — each registration is answered at most once.
-/

namespace Perdure

namespace TimerStep

/-- A step withdraws what is registered under a key. -/
def Withdraws (key : TimerKey) (x : TimerStep) : Prop :=
  x = .cancel key ∨ ∃ deadline, x = .register key deadline

end TimerStep

/-- What happened so far withdraws a registration. -/
def Withdrawn (key : TimerKey) (past : List TimerStep) : Prop := ∃ x ∈ past, x.Withdraws key

/-- What happened before the service was shut down. -/
def upToShutdown (past : List TimerStep) : List TimerStep := past.takeWhile (· ≠ .shutdown)

/-- How long the task of a registration has slept by the end of a step. -/
def sleepOn (number : Nat) (slept : Option Nat) : TimerStep → Option Nat
  | .wake n _ => if n = number then some (slept.getD 0) else slept
  | .advance _ nanos => slept.map (· + nanos)
  | _ => slept

/-- How long the task of a registration has slept: as long ago it was scheduled first. -/
def slept (number : Nat) (past : List TimerStep) : Option Nat := past.foldl (sleepOn number) none

/-- The task of a registration has slept for its delay. -/
def Rested (number delay : Nat) (past : List TimerStep) : Prop :=
  ∃ nanos ∈ slept number past, delay ≤ nanos

instance (number delay : Nat) (past : List TimerStep) : Decidable (Rested number delay past) :=
  decidable_of_iff ((slept number past).any (delay ≤ ·) = true)
    (by simp [Rested, Option.any_eq_true])

/-! ### What happened since -/

section

variable {number delay : Nat} {key : TimerKey} {past steps : List TimerStep} {x : TimerStep}

theorem slept_concat (number : Nat) (past : List TimerStep) (x : TimerStep) :
    slept number (past ++ [x]) = sleepOn number (slept number past) x := by
  simp [slept]

theorem withdrawn_concat :
    Withdrawn key (past ++ [x]) ↔ Withdrawn key past ∨ x.Withdraws key := by
  simp [Withdrawn, or_and_right, exists_or]

/-- A task that has slept for its delay has done so for good. -/
theorem Rested.concat (h : Rested number delay past) (x : TimerStep) :
    Rested number delay (past ++ [x]) := by
  obtain ⟨nanos, hnanos, hle⟩ := h
  rw [Option.mem_def] at hnanos
  rw [Rested, slept_concat, hnanos]
  cases x with
  | advance now more => exact ⟨nanos + more, rfl, Nat.le_add_right_of_le hle⟩
  | wake n sleepFirst => exact ⟨nanos, by simp [sleepOn], hle⟩
  | _ => exact ⟨nanos, rfl, hle⟩

/-- What came before the shutdown is not changed by what comes later. -/
theorem upToShutdown_mono (past : List TimerStep) (x : TimerStep) :
    upToShutdown past <+: upToShutdown (past ++ [x]) := by
  unfold upToShutdown
  rw [List.takeWhile_append]
  split
  · exact (List.takeWhile_prefix _).trans (List.prefix_append _ _)
  · exact List.prefix_rfl

theorem upToShutdown_eq (h : .shutdown ∉ past) : upToShutdown past = past :=
  List.takeWhile_eq_self_iff.2 fun _ hx => decide_eq_true fun he => h (he ▸ hx)

theorem Withdrawn.mono (h : Withdrawn key past) (hs : past <+: steps) :
    Withdrawn key steps := by
  obtain ⟨x, hx, hk⟩ := h
  exact ⟨x, hs.subset hx, hk⟩

end

namespace TimerCourse

variable {c : TimerCourse} {x : TimerStep} {events : List TimerEvent} {number delay : Nat}
  {key : TimerKey} {past : List TimerStep}

/-! ### One registration -/

/-- The task of a registration has not ended: nothing was said to the registration, and what the
task knows is what happened since. -/
structure Waits (c : TimerCourse) (number : Nat) (key : TimerKey) (delay : Nat)
    (past : List TimerStep) (t : TimerTask) : Prop where
  task : c.service.tasks.get? number = some t
  task_key : t.key = key
  task_delay : t.delay = delay
  stopped : c.service.stopped = true ↔ .shutdown ∈ past
  /-- Withdrawals are noticed by the service until it is stopped. -/
  revoked : c.service.stopped = false → (t.revoked = true ↔ Withdrawn key past)
  due : t.due = (slept number past).map fun nanos => c.service.uptime - nanos + delay
  slept : ∀ nanos ∈ slept number past, nanos ≤ c.service.uptime
  pending : ¬ Withdrawn key past → c.service.pending.get? key = some number
  heard : c.heard number = []

/-- The task of a registration has ended, or never was one: what was said to the registration is
all that ever will be. -/
structure Ended (c : TimerCourse) (number : Nat) (events : List TimerEvent) : Prop where
  gone : c.service.tasks.get? number = none
  old : number < c.count
  heard : c.heard number = events

/-- Nothing is said to a registration any more once its task has ended. -/
theorem Ended.step (h : c.Ended number events) (hc : c.Coherent) (x : TimerStep) :
    (c.step x).Ended number events := by
  obtain ⟨events', s', hmoves, hstep⟩ := c.exists_moves x
  rw [hstep]
  have hold := h.old
  refine ⟨?_, Nat.lt_add_right _ hold, ?_⟩
  · cases hmoves with
    | registered running revokes =>
      have := hc.numbered running
      rw [Table.get?_insert, if_neg (by omega), revokes, h.gone, Option.map_none]
    | cancelled revokes => rw [revokes, h.gone, Option.map_none]
    | refused | stopped | advanced | absent => exact h.gone
    | slept task =>
      rw [Table.get?_insert, if_neg, h.gone]
      rintro rfl
      cases h.gone.symm.trans task
    | ended => simp [TimerService.finish, h.gone]
  · rw [heard_append, h.heard, List.append_right_eq_self]
    refine ite_eq_right_iff.2 fun hlistener => Decidable.byContradiction fun hne => ?_
    rcases listener_of_moves hmoves hne with ⟨hnew, -⟩ | ⟨t, ht⟩
    · omega
    · rw [hlistener, h.gone] at ht
      cases ht

section

variable {t : TimerTask} (h : c.Waits number key delay past t)

include h

/-- The withdrawals of a registration are the revocations of its task. -/
theorem Waits.revoked_iff (hc : c.Coherent) (hs : c.service.stopped = false) (k : TimerKey) :
    (t.revoked || decide (c.service.pending.get? k = some number)) = true ↔
      Withdrawn key past ∨ k = key := by
  rw [Bool.or_eq_true, h.revoked hs, decide_eq_true_iff]
  constructor
  · rintro (hw | hk)
    · exact .inl hw
    · exact .inr ((hc.key_of_pending h.task k hk).trans h.task_key)
  · rintro (hw | rfl)
    · exact .inl hw
    · by_cases hw : Withdrawn k past
      · exact .inl hw
      · exact .inr (h.pending hw)

/-- A task goes on waiting through a step that is no shutdown and lets no time pass. -/
theorem Waits.keep (revoked : Bool) {s' : TimerService} {count : Nat}
    {said : List (Nat × TimerEvent)} (hshutdown : x ≠ .shutdown)
    (hsleep : sleepOn number (Perdure.slept number past) x = Perdure.slept number past)
    (htask : s'.tasks.get? number = some { t with revoked })
    (hstopped : s'.stopped = c.service.stopped) (huptime : s'.uptime = c.service.uptime)
    (hrevoked : c.service.stopped = false → (revoked = true ↔ Withdrawn key past ∨ x.Withdraws key))
    (hpending : ¬ x.Withdraws key → c.service.pending.get? key = some number →
      s'.pending.get? key = some number)
    (hheard : TimerCourse.heard ⟨s', count, said⟩ number = []) :
    Waits ⟨s', count, said⟩ number key delay (past ++ [x]) { t with revoked } where
  task := htask
  task_key := h.task_key
  task_delay := h.task_delay
  stopped := by simp [hstopped, h.stopped, hshutdown.symm]
  revoked hs := (hrevoked (hstopped.symm.trans hs)).trans withdrawn_concat.symm
  due := by
    rw [slept_concat, hsleep, huptime]
    exact h.due
  slept := by
    rw [slept_concat, hsleep, huptime]
    exact h.slept
  pending hw := by
    rw [withdrawn_concat, not_or] at hw
    exact hpending hw.2 (h.pending hw.1)
  heard := hheard

/-- A task that is not scheduled goes on waiting. -/
theorem Waits.step (hc : c.Coherent) (hx : ∀ sleepFirst, x ≠ .wake number sleepFirst) :
    ∃ t, (c.step x).Waits number key delay (past ++ [x]) t := by
  obtain ⟨events', s', hmoves, hstep⟩ := c.exists_moves x
  rw [hstep]
  have hnumber := hc.tasks number t h.task
  have hnext := hc.next
  have hheard : TimerCourse.heard
      ⟨s', c.count + x.registrations, c.said ++ events'.map (c.listener x, ·)⟩ number = [] := by
    rw [heard_append, h.heard, List.nil_append, if_neg]
    intro hlistener
    cases x with
    | wake n sleepFirst => exact hx sleepFirst (hlistener ▸ rfl)
    | _ => exact absurd hlistener (by simp only [listener]; omega)
  cases hmoves with
  | @registered k deadline tasks running revokes =>
    refine ⟨_, h.keep (t.revoked || decide (c.service.pending.get? k = some number)) nofun rfl ?_
      rfl rfl (fun hs => ?_) (fun hk hp => ?_) hheard⟩
    · rw [Table.get?_insert, if_neg (by omega), revokes, h.task]
      rfl
    · rw [h.revoked_iff hc hs]
      simp [TimerStep.Withdraws, eq_comm]
    · rw [Table.get?_insert, if_neg, hp]
      rintro rfl
      exact hk (.inr ⟨deadline, rfl⟩)
  | @cancelled k tasks revokes =>
    refine ⟨_, h.keep (t.revoked || decide (c.service.pending.get? k = some number)) nofun rfl ?_
      rfl rfl (fun hs => ?_) (fun hk hp => ?_) hheard⟩
    · rw [revokes, h.task]
      rfl
    · rw [h.revoked_iff hc hs]
      simp [TimerStep.Withdraws, eq_comm]
    · rw [Table.get?_erase, if_neg, hp]
      rintro rfl
      exact hk (.inl rfl)
  | refused stopped =>
    refine ⟨_, h.keep t.revoked nofun rfl h.task rfl rfl (fun hs => ?_) (fun _ hp => hp) hheard⟩
    rw [stopped] at hs
    cases hs
  | stopped =>
    exact ⟨t, { h with
      stopped := by simp
      revoked := nofun
      due := by rw [slept_concat]; exact h.due
      slept := by rw [slept_concat]; exact h.slept
      pending := fun hw => h.pending fun hp => hw (withdrawn_concat.2 (.inl hp))
      heard := hheard }⟩
  | @advanced now nanos =>
    refine ⟨t, h.task, h.task_key, h.task_delay, by simp [h.stopped], fun hs => ?_, ?_, ?_,
      fun hw => h.pending fun hp => hw (withdrawn_concat.2 (.inl hp)), hheard⟩
    · rw [h.revoked hs, withdrawn_concat]
      simp [TimerStep.Withdraws]
    · rw [slept_concat, h.due]
      cases Perdure.slept number past <;> simp [sleepOn, Nat.add_sub_add_right]
    · rw [slept_concat]
      simp only [sleepOn, Option.mem_def, Option.map_eq_some_iff]
      rintro _ ⟨nanos', hnanos, rfl⟩
      exact Nat.add_le_add_right (h.slept nanos' hnanos) nanos
  | @absent n sleepFirst gone =>
    have hother : n ≠ number := fun he => hx sleepFirst (he ▸ rfl)
    exact ⟨_, h.keep t.revoked nofun (if_neg hother) h.task rfl rfl
      (fun hs => (h.revoked hs).trans (or_iff_left nofun).symm) (fun _ hp => hp) hheard⟩
  | @slept n sleepFirst u task goesOn =>
    have hother : n ≠ number := fun he => hx sleepFirst (he ▸ rfl)
    refine ⟨_, h.keep t.revoked nofun (if_neg hother) ?_ rfl rfl
      (fun hs => (h.revoked hs).trans (or_iff_left nofun).symm) (fun _ hp => hp) hheard⟩
    rw [Table.get?_insert, if_neg hother.symm, h.task]
  | @ended n sleepFirst u event task ends =>
    have hother : n ≠ number := fun he => hx sleepFirst (he ▸ rfl)
    refine ⟨_, h.keep t.revoked nofun (if_neg hother) ?_ rfl rfl
      (fun hs => (h.revoked hs).trans (or_iff_left nofun).symm) (fun _ hp => ?_) hheard⟩
    · rw [TimerService.finish, Table.get?_erase, if_neg hother.symm, h.task]
    · exact (TimerService.get?_pending_finish (hc.key_of_pending task)).2 ⟨hp, hother.symm⟩

/-- A task that is scheduled knows how long it has slept. -/
theorem Waits.due_asleep (sleepFirst : Bool) :
    (c.service.asleep t).due = (Perdure.slept number (past ++ [.wake number sleepFirst])).map
      fun nanos => c.service.uptime - nanos + delay := by
  rw [slept_concat, TimerService.asleep, h.due, h.task_delay]
  cases Perdure.slept number past <;> simp [sleepOn]

theorem Waits.slept_le (sleepFirst : Bool) :
    ∀ nanos ∈ Perdure.slept number (past ++ [.wake number sleepFirst]),
      nanos ≤ c.service.uptime := by
  have hslept := h.slept
  rw [slept_concat]
  cases hs : Perdure.slept number past <;> simp_all [sleepOn]

/-- A task that is scheduled finds its sleep over if it has slept for its delay. -/
theorem Waits.rested_iff (sleepFirst : Bool) :
    (∃ due ∈ (c.service.asleep t).due, due ≤ c.service.uptime) ↔
      Rested number delay (past ++ [.wake number sleepFirst]) := by
  have hslept := h.slept_le sleepFirst
  rw [h.due_asleep sleepFirst, Rested]
  constructor
  · rintro ⟨due, hdue, hle⟩
    obtain ⟨nanos, hnanos, rfl⟩ := Option.map_eq_some_iff.1 hdue
    have := hslept nanos hnanos
    exact ⟨nanos, hnanos, by omega⟩
  · rintro ⟨nanos, hnanos, hle⟩
    have := hslept nanos hnanos
    exact ⟨_, Option.map_eq_some_iff.2 ⟨nanos, hnanos, rfl⟩, by omega⟩

/-- How the task of a registration ends that is scheduled, by what happened since. -/
theorem Waits.ending?_eq [Decidable (Withdrawn key past)] (sleepFirst : Bool)
    [Decidable (Rested number delay (past ++ [.wake number sleepFirst]))] :
    c.service.ending? (c.service.asleep t) sleepFirst =
      if Rested number delay (past ++ [.wake number sleepFirst]) ∧
          (sleepFirst = true ∨ .shutdown ∉ past ∧ ¬ Withdrawn key past) then
        some (some (.timeout key))
      else if .shutdown ∈ past then some (some (.cancelled key))
      else if Withdrawn key past then some none
      else none := by
  have hstopped : c.service.stopped = false ↔ .shutdown ∉ past := by
    rw [← h.stopped, Bool.not_eq_true]
  have hquiet : (c.service.stopped = false ∧ (c.service.asleep t).revoked = false) ↔
      .shutdown ∉ past ∧ ¬ Withdrawn key past := by
    rw [← hstopped]
    refine and_congr_right fun hs => ?_
    rw [← h.revoked hs, Bool.not_eq_true]
    rfl
  have hkey : (c.service.asleep t).key = key := h.task_key
  rw [TimerService.ending?_eq, hkey]
  simp only [h.rested_iff sleepFirst, hquiet]
  split
  · rfl
  · split
    · next hs => rw [if_pos (h.stopped.1 hs)]
    · next hs =>
      rw [Bool.not_eq_true] at hs
      rw [if_neg (hstopped.1 hs)]
      exact if_congr (h.revoked hs) rfl rfl

/-- What becomes of a registration whose task is scheduled: it times out, it is cancelled by the
shutdown, it ends in silence, or its task goes on waiting. -/
theorem Waits.wake (hc : c.Coherent) (sleepFirst : Bool) :
    let past' := past ++ [.wake number sleepFirst]
    let c' := c.step (.wake number sleepFirst)
    (Rested number delay past' ∧ (sleepFirst = true ∨ .shutdown ∉ past ∧ ¬ Withdrawn key past) ∧
      c'.Ended number [.timeout key]) ∨
    (¬ (Rested number delay past' ∧ sleepFirst = true) ∧ .shutdown ∈ past ∧
      c'.Ended number [.cancelled key]) ∨
    (¬ (Rested number delay past' ∧ sleepFirst = true) ∧ .shutdown ∉ past ∧ Withdrawn key past ∧
      c'.Ended number []) ∨
    (¬ Rested number delay past' ∧ .shutdown ∉ past ∧ ¬ Withdrawn key past ∧
      ∃ t, c'.Waits number key delay past' t) := by
  classical
  obtain ⟨events', s', hmoves, hstep⟩ := c.exists_moves (.wake number sleepFirst)
  have hends := h.ending?_eq sleepFirst
  have hold : number < c.count := Nat.lt_of_lt_of_le (hc.tasks number t h.task) hc.next
  have hheard : TimerCourse.heard ⟨s', c.count, c.said ++ events'.map (number, ·)⟩ number =
      events' := by
    rw [heard_append, h.heard, if_pos rfl, List.nil_append]
  dsimp only
  rw [hstep]
  cases hmoves with
  | absent gone => cases gone.symm.trans h.task
  | @slept _ _ u task goesOn =>
    obtain rfl : t = u := Option.some.inj (h.task.symm.trans task)
    rw [goesOn] at hends
    split at hends
    · cases hends
    · next hover =>
      split at hends
      · cases hends
      · next hs =>
        split at hends
        · cases hends
        · next hw =>
          refine .inr (.inr (.inr
            ⟨fun hr => hover ⟨hr, .inr ⟨hs, hw⟩⟩, hs, hw, c.service.asleep t, ?_⟩))
          refine ⟨?_, h.task_key, h.task_delay, by simp [h.stopped], fun hrunning => ?_,
            h.due_asleep sleepFirst, h.slept_le sleepFirst, fun _ => h.pending hw, hheard⟩
          · rw [Table.get?_insert, if_pos rfl]
          · rw [withdrawn_concat]
            exact (h.revoked hrunning).trans (or_iff_left nofun).symm
  | @ended _ _ u event task ends =>
    obtain rfl : t = u := Option.some.inj (h.task.symm.trans task)
    have hended : Ended ⟨c.service.finish number (c.service.asleep t).key event, c.count,
        c.said ++ event.toList.map (number, ·)⟩ number event.toList :=
      ⟨by simp [TimerService.finish], hold, hheard⟩
    rw [ends] at hends
    split at hends
    · next hover =>
      cases hends
      exact .inl ⟨hover.1, hover.2, hended⟩
    · next hover =>
      have hnot : ¬ (Rested number delay (past ++ [.wake number sleepFirst]) ∧ sleepFirst = true) :=
        fun hr => hover ⟨hr.1, .inl hr.2⟩
      split at hends
      · next hs =>
        cases hends
        exact .inr (.inl ⟨hnot, hs, hended⟩)
      · next hs =>
        split at hends
        · next hw =>
          cases hends
          exact .inr (.inr (.inl ⟨hnot, hs, hw, hended⟩))
        · cases hends

end

/-! ### All steps -/

theorem Ended.after (h : c.Ended number events) (hc : c.Coherent) (steps : List TimerStep) :
    (c.after steps).Ended number events := by
  induction steps generalizing c with
  | nil => exact h
  | cons x rest ih => exact ih (h.step hc x) (hc.step x)

/-- What a registration was told, with the reason in what happened since. -/
inductive Told (number : Nat) (key : TimerKey) (delay : Nat) (past : List TimerStep) :
    List TimerEvent → Prop
  | timeout (rested : Rested number delay past) : Told number key delay past [.timeout key]
  | cancelled (stopped : .shutdown ∈ past) : Told number key delay past [.cancelled key]
  | nothing (withdrawn : Withdrawn key (upToShutdown past)) : Told number key delay past []

theorem Told.concat (h : Told number key delay past events) (x : TimerStep) :
    Told number key delay (past ++ [x]) events := by
  cases h with
  | timeout rested => exact .timeout (rested.concat x)
  | cancelled stopped => exact .cancelled (List.mem_append_left _ stopped)
  | nothing withdrawn => exact .nothing (withdrawn.mono (upToShutdown_mono past x))

theorem Told.length_le_one (h : Told number key delay past events) : events.length ≤ 1 := by
  cases h <;> simp

/-- A registration that is told something times out after its delay or is cancelled by a shutdown. -/
theorem Told.warrants (h : Told number key delay past events) : ∀ e ∈ events,
    e = .timeout key ∧ Rested number delay past ∨ e = .cancelled key ∧ .shutdown ∈ past := by
  intro e he
  cases h with
  | timeout rested => exact .inl ⟨List.mem_singleton.1 he, rested⟩
  | cancelled stopped => exact .inr ⟨List.mem_singleton.1 he, stopped⟩
  | nothing => cases he

/-- A registration that is told nothing was withdrawn. -/
theorem Told.ne_nil (h : Told number key delay past events) (hw : ¬ Withdrawn key past) :
    events ≠ [] := by
  cases h with
  | timeout | cancelled => exact List.cons_ne_nil _ _
  | nothing withdrawn => exact absurd (withdrawn.mono (List.takeWhile_prefix _)) hw

/-- A registration with a running service has a task that waits. -/
theorem waits_registered (hc : c.Coherent) (hs : c.service.stopped = false) (key : TimerKey)
    (deadline : Instant) : ∃ t, (c.step (.register key deadline)).Waits c.count key
      (c.service.now.nanosUntil deadline) [] t := by
  obtain ⟨events', s', hmoves, hstep⟩ := c.exists_moves (.register key deadline)
  have hnumber := hc.numbered hs
  have hheard := hc.heard_eq_nil
  rw [hstep]
  cases hmoves with
  | registered running revokes =>
    refine ⟨{ key, delay := c.service.now.nanosUntil deadline }, ?_, rfl, rfl, ?_, fun _ => ?_, rfl,
      nofun, fun _ => ?_, ?_⟩
    · rw [Table.get?_insert, if_pos hnumber.symm]
    · simp [hs]
    · simp [Withdrawn]
    · rw [Table.get?_insert, if_pos rfl, hnumber]
    · rw [heard_append, hheard, ite_self, List.append_nil]
  | refused stopped =>
    rw [hs] at stopped
    cases stopped

/-- A registration with a service that is stopped is cancelled at once. -/
theorem ended_registered (hc : c.Coherent) (hs : c.service.stopped = true) (key : TimerKey)
    (deadline : Instant) :
    (c.step (.register key deadline)).Ended c.count [.cancelled key] := by
  obtain ⟨events', s', hmoves, hstep⟩ := c.exists_moves (.register key deadline)
  rw [hstep]
  cases hmoves with
  | registered running =>
    rw [hs] at running
    cases running
  | refused stopped =>
    refine ⟨?_, Nat.lt_succ_self _, ?_⟩
    · cases ht : c.service.tasks.get? c.count with
      | none => rfl
      | some t => exact absurd (hc.tasks _ t ht) (Nat.not_lt.2 hc.next)
    · rw [heard_append, hc.heard_eq_nil]
      exact if_pos rfl

/-- What is known of a registration at any time: its task waits, or it was told what there was to
tell. -/
theorem story (hc : c.Coherent) (hs : c.service.stopped = false) (key : TimerKey)
    (deadline : Instant) (past : List TimerStep) :
    let delay := c.service.now.nanosUntil deadline
    let c' := (c.step (.register key deadline)).after past
    (∃ t, c'.Waits c.count key delay past t) ∨
      ∃ events, c'.Ended c.count events ∧ Told c.count key delay past events := by
  induction past using List.reverseRecOn with
  | nil => exact .inl (waits_registered hc hs key deadline)
  | append_singleton past x ih =>
    have hc' := (hc.step (.register key deadline)).after past
    simp only [after_append]
    rcases ih with ⟨t, hwaits⟩ | ⟨events, hended, htold⟩
    · by_cases hx : ∃ sleepFirst, x = .wake c.count sleepFirst
      · obtain ⟨sleepFirst, rfl⟩ := hx
        rcases hwaits.wake hc' sleepFirst with ⟨hrested, -, hended⟩ | ⟨-, hstopped, hended⟩ |
          ⟨-, hrunning, hwithdrawn, hended⟩ | ⟨-, -, -, hwaits⟩
        · exact .inr ⟨_, hended, .timeout hrested⟩
        · exact .inr ⟨_, hended, .cancelled (List.mem_append_left _ hstopped)⟩
        · rw [← upToShutdown_eq hrunning] at hwithdrawn
          exact .inr ⟨_, hended, .nothing (hwithdrawn.mono (upToShutdown_mono past _))⟩
        · exact .inl hwaits
      · exact .inl (hwaits.step hc' (not_exists.1 hx))
    · exact .inr ⟨events, hended.step hc' x, htold.concat x⟩

/-- A task goes on waiting as long as it is not scheduled. -/
theorem Waits.after {t : TimerTask} (h : c.Waits number key delay past t) (hc : c.Coherent)
    {steps : List TimerStep} (hsteps : ∀ sleepFirst, .wake number sleepFirst ∉ steps) :
    ∃ t, (c.after steps).Waits number key delay (past ++ steps) t := by
  induction steps generalizing c past t with
  | nil => exact ⟨t, (List.append_nil past).symm ▸ h⟩
  | cons x rest ih =>
    obtain ⟨u, hu⟩ := h.step hc fun sleepFirst he => hsteps sleepFirst (he ▸ List.mem_cons_self)
    rw [List.append_cons]
    exact ih hu (hc.step x) fun sleepFirst hmem => hsteps sleepFirst (List.mem_cons_of_mem x hmem)

/-- What is promised to a registration, by what happened `before` it was made and `since`. -/
structure AnswersOnce (c : TimerCourse) (number : Nat) (key : TimerKey) (delay : Nat)
    (before since : List TimerStep) : Prop where
  /-- All that the service says is said to one of its registrations. -/
  addressed : c.said.map Prod.snd = c.service.events ∧ ∀ e ∈ c.said, e.1 < c.count
  /-- A registration is told one thing at most. -/
  once : (c.heard number).length ≤ 1
  /-- It times out if its task has slept for its delay, and is cancelled by a shutdown. -/
  warranted : ∀ e ∈ c.heard number, e = .timeout key ∧ Rested number delay since ∨
    e = .cancelled key ∧ .shutdown ∈ before ++ since
  /-- After a shutdown it is cancelled at once. -/
  late : .shutdown ∈ before → c.heard number = [.cancelled key]
  /-- If it was not withdrawn before a shutdown, it is told something when its task is scheduled
  after the shutdown or at the end of its sleep. -/
  answered : ∀ first sleepFirst rest, since = first ++ .wake number sleepFirst :: rest →
    ¬ Withdrawn key (upToShutdown first) →
    .shutdown ∈ first ∨ Rested number delay (first ++ [.wake number sleepFirst]) →
    ∃ e, c.heard number = [e]
  /-- If it was withdrawn before that, it is told what its task finds when it is scheduled next:
  nothing, unless the service is shut down meanwhile or the delay passes. -/
  withdrawn : ∀ first x mid sleepFirst rest,
    since = first ++ x :: (mid ++ .wake number sleepFirst :: rest) → x.Withdraws key →
    .shutdown ∉ before ++ first → ¬ Withdrawn key first → ¬ Rested number delay first →
    (∀ sleepFirst, .wake number sleepFirst ∉ mid) →
    c.heard number =
      if Rested number delay (first ++ x :: mid ++ [.wake number sleepFirst]) ∧ sleepFirst = true
      then [.timeout key]
      else if .shutdown ∈ mid then [.cancelled key]
      else []
  /-- Until it is withdrawn or told something it is pending, whatever older ones do. -/
  pending : .shutdown ∉ before → ¬ Withdrawn key since →
    (c.service.pending.get? key = some number ↔ c.heard number = [])

section

variable (hc : c.Coherent) (hs : c.service.stopped = false) (key : TimerKey) (deadline : Instant)
  {first mid rest : List TimerStep} {sleepFirst : Bool}

include hc hs

/-- A registration that was not withdrawn is told something when its task finds the service stopped
or its sleep over. -/
theorem heard_of_kept (hw : ¬ Withdrawn key (upToShutdown first))
    (hdone : .shutdown ∈ first ∨ Rested c.count (c.service.now.nanosUntil deadline)
      (first ++ [.wake c.count sleepFirst])) :
    ∃ e, ((c.step (.register key deadline)).after
      (first ++ .wake c.count sleepFirst :: rest)).heard c.count = [e] := by
  have hc' := (hc.step (.register key deadline)).after first
  have hdone' : ∃ e, (((c.step (.register key deadline)).after first).step
      (.wake c.count sleepFirst)).Ended c.count [e] := by
    rcases story hc hs key deadline first with ⟨t, hwaits⟩ | ⟨events, hended, htold⟩
    · rcases hwaits.wake hc' sleepFirst with ⟨-, -, hended⟩ | ⟨-, -, hended⟩ |
        ⟨-, hrunning, hwithdrawn, -⟩ | ⟨hrested, hstopped, -, -⟩
      · exact ⟨_, hended⟩
      · exact ⟨_, hended⟩
      · exact absurd ((upToShutdown_eq hrunning).symm ▸ hwithdrawn) hw
      · exact absurd hdone (not_or.2 ⟨hstopped, hrested⟩)
    · cases htold with
      | timeout | cancelled => exact ⟨_, hended.step hc' _⟩
      | nothing hwithdrawn => exact absurd hwithdrawn hw
  obtain ⟨e, hended⟩ := hdone'
  rw [after_append]
  exact ⟨e, (hended.after (hc'.step _) rest).heard⟩

/-- A registration that was withdrawn is told what its task finds when it is scheduled next. -/
theorem heard_of_withdrawn (hx : x.Withdraws key) (hstopped : .shutdown ∉ first)
    (hw : ¬ Withdrawn key first)
    (hrested : ¬ Rested c.count (c.service.now.nanosUntil deadline) first)
    (hmid : ∀ sleepFirst, .wake c.count sleepFirst ∉ mid) :
    ((c.step (.register key deadline)).after
      (first ++ x :: (mid ++ .wake c.count sleepFirst :: rest))).heard c.count =
      if Rested c.count (c.service.now.nanosUntil deadline)
          (first ++ x :: mid ++ [.wake c.count sleepFirst]) ∧ sleepFirst = true
      then [.timeout key]
      else if .shutdown ∈ mid then [.cancelled key]
      else [] := by
  have hc' := (hc.step (.register key deadline)).after first
  -- until it is withdrawn, its task waits
  obtain ⟨t, hwaits⟩ :
      ∃ t, ((c.step (.register key deadline)).after first).Waits c.count key _ first t := by
    rcases story hc hs key deadline first with hwaits | ⟨events, -, htold⟩
    · exact hwaits
    · cases htold with
      | timeout h => exact absurd h hrested
      | cancelled h => exact absurd h hstopped
      | nothing h => exact absurd (h.mono (List.takeWhile_prefix _)) hw
  have hnever : ∀ sleepFirst, .wake c.count sleepFirst ∉ x :: mid := by
    intro sleepFirst hmem
    rcases List.mem_cons.1 hmem with rfl | hmem
    · rcases hx with hx | ⟨_, hx⟩ <;> cases hx
    · exact hmid sleepFirst hmem
  obtain ⟨u, hwaits⟩ := hwaits.after hc' hnever
  have hwithdrawn : Withdrawn key (first ++ x :: mid) :=
    ⟨x, List.mem_append_right _ List.mem_cons_self, hx⟩
  have hshutdown : .shutdown ∈ first ++ x :: mid ↔ .shutdown ∈ mid := by
    rw [List.mem_append, or_iff_right hstopped, List.mem_cons, or_iff_right]
    rintro rfl
    rcases hx with hx | ⟨_, hx⟩ <;> cases hx
  have hc'' := hc'.after (x :: mid)
  have hlast {events : List TimerEvent}
      (h : ((((c.step (.register key deadline)).after first).after (x :: mid)).step
        (.wake c.count sleepFirst)).Ended c.count events) :
      ((c.step (.register key deadline)).after
        (first ++ x :: (mid ++ .wake c.count sleepFirst :: rest))).heard c.count = events := by
    rw [after_append, ← List.cons_append, after_append]
    exact (h.after (hc''.step _) rest).heard
  rcases hwaits.wake hc'' sleepFirst with ⟨hr, hfirst, hended⟩ | ⟨hr, hs', hended⟩ |
    ⟨hr, hs', -, hended⟩ | ⟨-, -, hnot, -⟩
  · rw [hlast hended, if_pos ⟨hr, hfirst.resolve_right fun h => h.2 hwithdrawn⟩]
  · rw [hlast hended, if_neg hr, if_pos (hshutdown.1 hs')]
  · rw [hlast hended, if_neg hr, if_neg fun h => hs' (hshutdown.2 h)]
  · exact absurd hwithdrawn hnot

end

/-- **Each registration is answered at most once.**  However a service is called, its tasks are
scheduled and time passes: a registration that nobody withdraws is told one thing when its task
finds its sleep over or the service stopped; one that is withdrawn before is told nothing if its
task is scheduled before the shutdown and before its sleep is over, and else what it finds then;
and a registration stays pending until it is withdrawn or told something. -/
theorem answers_once (now : Instant) (before : List TimerStep) (key : TimerKey) (deadline : Instant)
    (since : List TimerStep) :
    let made := run now before
    (run now (before ++ .register key deadline :: since)).AnswersOnce made.count key
      (made.service.now.nanosUntil deadline) before since := by
  intro made
  have hc : made.Coherent := coherent_run now before
  have hrun : run now (before ++ .register key deadline :: since) =
      (made.step (.register key deadline)).after since := after_append _ _ _
  have hall := (hc.step (.register key deadline)).after since
  have hstopped : made.service.stopped = true ↔ .shutdown ∈ before :=
    (stopped_after _ before).trans (or_iff_right nofun)
  rw [hrun]
  cases hs : made.service.stopped with
  | true =>
    have hbefore := hstopped.1 hs
    have hended := (ended_registered hc hs key deadline).after
      (hc.step (.register key deadline)) since
    have hheard := hended.heard
    refine ⟨⟨hall.events, hall.said⟩, ?_, ?_, fun _ => hheard, ?_, ?_, fun h => absurd hbefore h⟩
    · rw [hheard]
      exact Nat.le_refl 1
    · rw [hheard]
      intro e he
      exact .inr ⟨List.mem_singleton.1 he, List.mem_append_left _ hbefore⟩
    · exact fun _ _ _ _ _ _ => ⟨_, hheard⟩
    · exact fun _ _ _ _ _ _ _ h => absurd (List.mem_append_left _ hbefore) h
  | false =>
    have hbefore : .shutdown ∉ before := fun h => by simp [hstopped.2 h] at hs
    have hstory := story hc hs key deadline since
    refine ⟨⟨hall.events, hall.said⟩, ?_, ?_, fun h => absurd h hbefore, ?_, ?_, ?_⟩
    · rcases hstory with ⟨t, hwaits⟩ | ⟨events, hended, htold⟩
      · rw [hwaits.heard]
        exact Nat.zero_le 1
      · rw [hended.heard]
        exact htold.length_le_one
    · rcases hstory with ⟨t, hwaits⟩ | ⟨events, hended, htold⟩
      · rw [hwaits.heard]
        exact nofun
      · rw [hended.heard]
        exact fun e he => (htold.warrants e he).imp_right
          (And.imp_right (List.mem_append_right before))
    · rintro first sleepFirst rest rfl hw hdone
      exact heard_of_kept hc hs key deadline hw hdone
    · rintro first x mid sleepFirst rest rfl hx hfirst hw hrested hmid
      exact heard_of_withdrawn hc hs key deadline hx (fun h => hfirst (List.mem_append_right _ h))
        hw hrested hmid
    · intro _ hw
      rcases hstory with ⟨t, hwaits⟩ | ⟨events, hended, htold⟩
      · exact iff_of_true (hwaits.pending hw) hwaits.heard
      · refine iff_of_false (fun hp => ?_) ?_
        · obtain ⟨t, ht, -⟩ := hall.pending key _ hp
          rw [hended.gone] at ht
          cases ht
        · rw [hended.heard]
          exact htold.ne_nil hw

/-- A timer that is cancelled before a shutdown is heard of all the same, unless its task is
scheduled in between. -/
example : let key : TimerKey := ⟨1, 3⟩
    let steps : List TimerStep := [.register key ⟨60, 0⟩, .cancel key, .shutdown, .wake 0 false]
    (run ⟨0, 0⟩ steps).heard 0 = [.cancelled key] ∧
      (run ⟨0, 0⟩ (steps.take 2 ++ .wake 0 false :: steps.drop 2)).heard 0 = [] := by
  decide +kernel

end TimerCourse

end Perdure
