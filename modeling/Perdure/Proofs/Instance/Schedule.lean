import Mathlib.Data.List.Induction
import Perdure.Proofs.Instance.Faults

/-!
# The schedule of an alarm

An alarm works out a deadline when it starts, and another one each time its activity has reported
completion, if it repeats.  So its current deadline can be told from what has happened so far: from
its start, or from its last firing and the report on that.  The schedule is kept if every firing
came at the deadline that the alarm had then, or later.

## Main definitions

* `Evaluator.Sets` — the instant that a deadline stands for.
* `Tick.fires`, `Tick.started`, `Tick.completes`, `Tick.Ordered` — what can happen to an alarm.
* `Script.Schedule` — an alarm has kept to its schedule, and its current deadline.
* `Script.Firing` — an alarm has kept to its schedule, and its activity is under way.

## Main results

* `Script.firstDeadline_eq_ok_iff`, `Script.nextDeadline_eq_ok_iff` — what sets a deadline.
* `Script.Schedule.completed` — what an alarm has started before has completed.
* `Script.Firing.schedule` — a report on a firing leads to the next deadline.
-/

namespace Perdure

/-! ### Deadlines -/

/-- The deadline stands for this instant: that many nanoseconds from now, or the instant itself. -/
def Evaluator.Sets (ev : Evaluator) (now : Instant) : Deadline → Instant → Prop
  | .delay duration, t => ∃ nanos, ev.duration duration = .ok nanos ∧ now.addNanos? nanos = some t
  | .instant timestamp, t => ev.deadline timestamp = .ok t

theorem Evaluator.deadlineAfter_eq_ok_iff {ev : Evaluator} {now t : Instant} {expression : String} :
    ev.deadlineAfter now expression = .ok t ↔ ev.Sets now (.delay expression) t := by
  unfold Evaluator.deadlineAfter Evaluator.Sets
  cases hd : ev.duration expression with
  | error e => simp [hd, bind, Except.bind]
  | ok nanos =>
    rw [Turn.ok_bind]
    cases ht : now.addNanos? nanos <;>
      simp [hd, ht, pure, Except.pure, throw, throwThe, MonadExceptOf.throw]

/-- Only an alarm without any expression has no first deadline. -/
theorem Alarm.first_eq_none_iff {a : Alarm} :
    a.first = none ↔ a.delay = none ∧ a.instant = none ∧ a.repetition = none := by
  simp [Alarm.first]

namespace Script

variable {s : Script} {o : Occasion}

theorem settle_eq_ok_iff {α : Type} {expression : String} {r : Except EvaluationFailure α} {a : α} :
    settle expression r = .ok (.ok a) ↔ r = .ok a := by
  unfold settle
  split <;> simp

/-- A deadline has a value exactly when its expression sets it. -/
theorem deadline_eq_ok_iff {d : Deadline} {t : Instant} :
    s.deadline o d = .ok (.ok t) ↔ (s.evaluator o).Sets o.now d t := by
  cases d with
  | delay duration => exact settle_eq_ok_iff.trans Evaluator.deadlineAfter_eq_ok_iff
  | instant timestamp => exact settle_eq_ok_iff

/-- A value passes through the choice of a deadline. -/
theorem optional_eq_ok_iff {d : Deadline} {t : Option Instant} :
    (do pure ((← s.deadline o d).map some) : Except RunError (Except Fault (Option Instant))) =
      .ok (.ok t) ↔ Option.Rel ((s.evaluator o).Sets o.now) (some d) t := by
  have hmap : (do pure ((← s.deadline o d).map some) :
      Except RunError (Except Fault (Option Instant))) = .ok (.ok t) ↔
        ∃ u, t = some u ∧ s.deadline o d = .ok (.ok u) := by
    rcases s.deadline o d with e | (f | u) <;>
      simp [bind, Except.bind, pure, Except.pure, Except.map, eq_comm]
  rw [hmap]
  constructor
  · rintro ⟨u, rfl, hu⟩
    exact .some (deadline_eq_ok_iff.1 hu)
  · rintro ⟨hu⟩
    exact ⟨_, rfl, deadline_eq_ok_iff.2 hu⟩

theorem ok_none_iff {t : Option Instant} :
    (.ok (.ok none) : Except RunError (Except Fault (Option Instant))) = .ok (.ok t) ↔
      Option.Rel ((s.evaluator o).Sets o.now) none t := by
  constructor
  · rintro ⟨⟩
    exact .none
  · rintro ⟨⟩
    rfl

/-- The first deadline of an alarm is set by its delay, else by its instant, else by its
repetition; without any of them it has none. -/
theorem firstDeadline_eq_ok_iff {a : Alarm} {t : Option Instant} :
    s.firstDeadline o a = .ok (.ok t) ↔ Option.Rel ((s.evaluator o).Sets o.now) a.first t := by
  obtain ⟨delay, instant, repetition, activity⟩ := a
  rcases delay with _ | duration
  · rcases instant with _ | timestamp
    · rcases repetition with _ | duration
      · exact ok_none_iff
      · exact optional_eq_ok_iff (d := .delay duration)
    · exact optional_eq_ok_iff (d := .instant timestamp)
  · exact optional_eq_ok_iff (d := .delay duration)

/-- Every other deadline of an alarm is set by its repetition, if it has one. -/
theorem nextDeadline_eq_ok_iff {a : Alarm} {t : Option Instant} :
    s.nextDeadline o a = .ok (.ok t) ↔ Option.Rel ((s.evaluator o).Sets o.now) a.next t := by
  obtain ⟨delay, instant, repetition, activity⟩ := a
  rcases repetition with _ | duration
  · exact ok_none_iff
  · exact optional_eq_ok_iff (d := .delay duration)

end Script

/-- What has a deadline has an expression that sets it. -/
theorem Evaluator.ne_none_of_sets {ev : Evaluator} {now d : Instant} {e : Option Deadline}
    (hset : Option.Rel (ev.Sets now) e (some d)) : e ≠ none := by
  rintro rfl
  cases hset

/-! ### What happens to an alarm -/

/-- The place of the alarm that a part works for. -/
def Part.place? : Part → Option AlarmRef
  | .ready (.alarmStart alarm) | .ready (.alarmWait alarm _) | .ready (.alarmFire alarm)
  | .ready (.alarmActive alarm _ _) | .waiting (.alarmWaiting alarm _)
  | .waiting (.alarmActive alarm _ _) => some alarm.alarm
  | _ => none

/-- A part that goes on works for the same alarm. -/
theorem Yields.place?_heir {s : Script} {now : Instant} {n k : Nat} {P Q : Part}
    {taken : Option (Channel × Message)} {p : Products} (h : Yields s now n k P taken p)
    (hQ : p.heir = some Q) : Q.place? = P.place? := by
  cases h <;> cases hQ <;> rfl

namespace Tick

/-- The channel on which the part reports that reacts. -/
abbrev home (t : Tick) : Channel := t.reduction.part.home

/-- The alarm that reports on a channel fires. -/
def fires (t : Tick) (h : Channel) : Bool :=
  match t.reduction.part with
  | .ready (.alarmFire alarm) => alarm.parent == h
  | _ => false

/-- The run that is started, when an alarm fires. -/
def started (t : Tick) : Option Run := (t.reduction.produced.filterMap Part.start?).head?

/-- It is reported that a run has completed without fault. -/
def completes (t : Tick) (run : Run) : Bool :=
  (t.reduction.sentTo run.parent).any fun msg => msg.isCompleted && msg.fault.isNone

/-- The alarm that reports on a channel takes the order to fire no more, or to stop at once. -/
def Ordered (t : Tick) (h : Channel) : Prop :=
  t.home = h ∧ ∃ c msg, t.reduction.taken = some (c, msg) ∧ (msg = .stop ∨ msg = .terminate)

theorem fires_iff {t : Tick} {h : Channel} : t.fires h = true ↔
    ∃ alarm, t.reduction.part = .ready (.alarmFire alarm) ∧ alarm.parent = h := by
  unfold fires
  split
  · next alarm hP => simp [hP]
  · next hP =>
    simp only [Bool.false_eq_true, false_iff]
    rintro ⟨alarm, he, -⟩
    exact hP alarm he

theorem completes_iff {t : Tick} {run : Run} : t.completes run = true ↔
    ∃ cs, .completed none cs ∈ t.reduction.sentTo run.parent := by
  unfold completes
  rw [List.any_eq_true]
  constructor
  · rintro ⟨msg, hmsg, hdone⟩
    cases msg with
    | completed fault cs =>
      obtain rfl : fault = none := Option.isNone_iff_eq_none.1 hdone
      exact ⟨cs, hmsg⟩
    | _ => cases hdone
  · rintro ⟨cs, hmsg⟩
    exact ⟨_, hmsg, rfl⟩

theorem completes_of_find? {ts : List Tick} {run : Run} {t : Tick}
    (h : ts.find? (·.completes run) = some t) : t ∈ ts ∧ t.completes run = true :=
  ⟨List.mem_of_find?_eq_some h, List.find?_some (p := fun t => Tick.completes t run) h⟩

/-- Only a part that is about to fire makes an alarm fire. -/
theorem fires_eq_false_of_part {t : Tick} {P : Part} (ht : t.reduction.part = P)
    (hP : ∀ alarm, P ≠ .ready (.alarmFire alarm)) (h : Channel) : t.fires h = false := by
  rw [Bool.eq_false_iff]
  intro hf
  obtain ⟨alarm, he, -⟩ := fires_iff.1 hf
  exact hP alarm (ht.symm.trans he)

/-- Only a part of the alarm makes it fire. -/
theorem fires_eq_false {t : Tick} {h : Channel} (hne : t.home ≠ h) : t.fires h = false := by
  rw [Bool.eq_false_iff]
  intro hf
  obtain ⟨alarm, hP, rfl⟩ := fires_iff.1 hf
  exact hne (congrArg Part.home hP)

/-- Only the orders to stop are orders. -/
theorem not_ordered_of_taken {t : Tick} {taken : Option (Channel × Message)}
    (ht : t.reduction.taken = taken)
    (hno : ∀ c msg, taken = some (c, msg) → msg ≠ .stop ∧ msg ≠ .terminate) (h : Channel) :
    ¬ t.Ordered h := by
  rintro ⟨-, c, msg, he, hmsg⟩
  have hnot := hno c msg (ht.symm.trans he)
  exact hmsg.elim hnot.1 hnot.2

end Tick

/-! ### Lists -/

/-- A property of all members of a list, and of one more. -/
theorem forall_mem_concat {α : Type} {p : α → Prop} {xs : List α} {x : α} (h : ∀ y ∈ xs, p y)
    (hx : p x) : ∀ y ∈ xs ++ [x], p y :=
  List.forall_mem_append.2 ⟨h, List.forall_mem_singleton.2 hx⟩

/-- Two members of a list are at the same place, or one of them comes first. -/
theorem split_cases {α : Type} {xs ys xs' ys' : List α} {a b : α}
    (h : xs ++ a :: ys = xs' ++ b :: ys') : (xs = xs' ∧ a = b ∧ ys = ys') ∨ b ∈ ys ∨
      ∃ zs, xs = xs' ++ b :: zs ∧ ys' = zs ++ a :: ys := by
  rcases List.append_eq_append_iff.1 h with ⟨zs, rfl, hrest⟩ | ⟨zs, rfl, hrest⟩
  · cases zs with
    | nil =>
      obtain ⟨rfl, rfl⟩ := List.cons_eq_cons.1 hrest
      exact .inl ⟨(List.append_nil xs).symm, rfl, rfl⟩
    | cons z zs =>
      obtain ⟨rfl, rfl⟩ := List.cons_eq_cons.1 hrest
      exact .inr (.inl (List.mem_append_right _ List.mem_cons_self))
  · cases zs with
    | nil =>
      obtain ⟨rfl, rfl⟩ := List.cons_eq_cons.1 hrest
      exact .inl ⟨List.append_nil xs', rfl, rfl⟩
    | cons z zs =>
      obtain ⟨rfl, rfl⟩ := List.cons_eq_cons.1 hrest
      exact .inr (.inr ⟨zs, rfl, rfl⟩)

/-- A predicate holds of at most one member of a list, if it holds of none before another. -/
theorem countP_le_one {α : Type} {p : α → Bool} {xs : List α}
    (h : ∀ pre x post, xs = pre ++ x :: post → p x = true → ∀ y ∈ pre, p y = false) :
    xs.countP p ≤ 1 := by
  induction xs using List.reverseRecOn with
  | nil => exact Nat.zero_le 1
  | append_singleton xs x ih =>
    rw [List.countP_append, List.countP_singleton]
    split
    · next hx =>
      have hnone : xs.countP p = 0 := by
        rw [List.countP_eq_zero]
        intro y hy
        rw [h xs x [] rfl hx y hy]
        exact Bool.false_ne_true
      exact Nat.le_of_eq (congrArg (· + 1) hnone)
    · refine ih fun pre y post hxs hy => h pre y (post ++ [x]) ?_ hy
      rw [hxs, List.append_assoc, List.cons_append]

/-! ### Schedules -/

/-- The ticks so far are in accordance with the schedule of the alarm that reports on `h`: all its
firings were due, and each one came after the activity of the one before had completed.  The alarm
does not fire again before the deadline, if it has one. -/
inductive Script.Schedule (s : Script) (h : Channel) (place : AlarmRef) :
    List Tick → Option Instant → Prop
  | first {earlier later : List Tick} {start : Tick} {alarm : AlarmRun} {a : Alarm}
      {deadline : Option Instant} (hstart : start.reduction.part = .ready (.alarmStart alarm))
      (hhome : alarm.parent = h) (hearlier : ∀ t ∈ earlier, t.home ≠ h)
      (hlater : ∀ t ∈ later, t.fires h = false) (ha : s.alarm place = .ok a)
      (hset : Option.Rel ((s.evaluator ⟨start.now, place.scope⟩).Sets start.now) a.first deadline) :
      Schedule s h place (earlier ++ start :: later) deadline
  | next {earlier later : List Tick} {firing report : Tick} {child : Run} {a : Alarm} {due : Instant}
      {deadline : Option Instant} (hearlier : Schedule s h place earlier (some due))
      (hdue : due.isAtMost firing.now = true) (hfires : firing.fires h = true)
      (hchild : firing.started = some child)
      (hreport : later.find? (·.completes child) = some report)
      (hlater : ∀ t ∈ later, t.fires h = false) (ha : s.alarm place = .ok a)
      (hset : Option.Rel ((s.evaluator ⟨report.now, place.scope⟩).Sets report.now) a.next deadline) :
      Schedule s h place (earlier ++ firing :: later) deadline

/-- The ticks so far are in accordance with the schedule of the alarm that reports on `h`, which has
fired.  What its activity has reported since waits to be taken, and was reported just now. -/
inductive Script.Firing (s : Script) (h : Channel) (place : AlarmRef) (child : Run) (now : Instant)
    (waiting : List Message) : List Tick → Prop
  | intro {earlier later : List Tick} {firing : Tick} {due : Instant}
      (hearlier : s.Schedule h place earlier (some due)) (hdue : due.isAtMost firing.now = true)
      (hfires : firing.fires h = true) (hchild : firing.started = some child)
      (hlater : ∀ t ∈ later, t.fires h = false)
      (hwaiting : waiting = later.flatMap fun t => t.reduction.sentTo child.parent)
      (hnow : ∀ t ∈ later, t.reduction.sentTo child.parent ≠ [] → t.now = now) :
      Firing s h place child now waiting (earlier ++ firing :: later)

/-- Nobody has told the alarm to stop. -/
def Unordered (ts : List Tick) (h : Channel) : Prop := ∀ t ∈ ts, ¬ t.Ordered h

/-- An alarm that has not been told to stop is not told by a tick that takes no such order. -/
theorem Unordered.append {ts : List Tick} {t : Tick} {h : Channel} (hu : Unordered ts h)
    (ht : ¬ t.Ordered h) : Unordered (ts ++ [t]) h := forall_mem_concat hu ht

namespace Script

variable {s : Script} {h : Channel} {place : AlarmRef} {ts : List Tick} {t : Tick}
  {deadline : Option Instant}

namespace Schedule

/-- Until the alarm fires, it keeps its deadline. -/
theorem append (hs : s.Schedule h place ts deadline) (ht : t.fires h = false) :
    s.Schedule h place (ts ++ [t]) deadline := by
  cases hs with
  | first hstart hhome hearlier hlater ha hset =>
    rw [List.append_assoc, List.cons_append]
    exact .first hstart hhome hearlier (forall_mem_concat hlater ht) ha hset
  | next hearlier hdue hfires hchild hreport hlater ha hset =>
    rw [List.append_assoc, List.cons_append]
    refine .next hearlier hdue hfires hchild ?_ (forall_mem_concat hlater ht) ha hset
    rw [List.find?_append, hreport]
    rfl

/-- Until its first deadline an alarm has not fired. -/
theorem not_fires_of_start {earlier later : List Tick} {start : Tick} {alarm : AlarmRun}
    (hstart : start.reduction.part = .ready (.alarmStart alarm))
    (hearlier : ∀ t ∈ earlier, t.home ≠ h) (hlater : ∀ t ∈ later, t.fires h = false) :
    ∀ t ∈ earlier ++ start :: later, t.fires h = false := by
  refine List.forall_mem_append.2 ⟨fun t ht => Tick.fires_eq_false (hearlier t ht), ?_⟩
  exact List.forall_mem_cons.2 ⟨Tick.fires_eq_false_of_part hstart nofun h, hlater⟩

/-- An alarm that has a deadline has an expression. -/
theorem first_ne_none {d : Instant} (hs : s.Schedule h place ts (some d)) {a : Alarm}
    (ha : s.alarm place = .ok a) : a.first ≠ none := by
  cases hs with
  | first _ _ _ _ ha' hset =>
    rw [ha] at ha'
    cases ha'
    exact Evaluator.ne_none_of_sets hset
  | next _ _ _ _ _ _ ha' hset =>
    rw [ha] at ha'
    cases ha'
    intro hfirst
    have hrepetition := (Alarm.first_eq_none_iff.1 hfirst).2.2
    exact Evaluator.ne_none_of_sets hset (by rw [Alarm.next, hrepetition]; rfl)

/-- An alarm that does not repeat has a deadline only until it has fired. -/
theorem not_fires_of_once {d : Instant} (hs : s.Schedule h place ts (some d)) {a : Alarm}
    (ha : s.alarm place = .ok a) (honce : a.repetition = none) : ∀ t ∈ ts, t.fires h = false := by
  cases hs with
  | first hstart _ hearlier hlater _ _ => exact not_fires_of_start hstart hearlier hlater
  | next _ _ _ _ _ _ ha' hset =>
    rw [ha] at ha'
    cases ha'
    exact absurd (by rw [Alarm.next, honce]; rfl) (Evaluator.ne_none_of_sets hset)

/-- What an alarm has started in a firing has completed by the time it has a deadline again. -/
theorem completed (hs : s.Schedule h place ts deadline) {earlier later : List Tick} {firing : Tick}
    (hts : ts = earlier ++ firing :: later) (hfires : firing.fires h = true) :
    ∃ child, firing.started = some child ∧ ∃ report ∈ later, report.completes child = true := by
  induction hs generalizing later with
  | @first before after start _ _ _ hstart _ hbefore hafter _ _ =>
    have hmem := hts ▸ List.mem_append_right earlier List.mem_cons_self
    have hfalse := not_fires_of_start hstart hbefore hafter firing hmem
    rw [hfires] at hfalse
    cases hfalse
  | @next before after last report child _ _ _ _ _ _ hchild hreport hafter _ _ ih =>
    -- the firing is the last one, or one before the last
    rcases split_cases hts with ⟨-, rfl, rfl⟩ | hmem | ⟨between, rfl, rfl⟩
    · exact ⟨child, hchild, report, Tick.completes_of_find? hreport⟩
    · have hfalse := hafter firing hmem
      rw [hfires] at hfalse
      cases hfalse
    · obtain ⟨child', hchild', report', hreport', hcompletes⟩ := ih rfl
      exact ⟨child', hchild', report', List.mem_append_left _ hreport', hcompletes⟩

end Schedule

namespace Firing

variable {child : Run} {now : Instant} {waiting : List Message}

/-- A firing goes on, and what is reported on it is added to what waits. -/
theorem append (hs : s.Firing h place child now waiting ts) (ht : t.fires h = false)
    (hnow : t.now = now) :
    s.Firing h place child now (waiting ++ t.reduction.sentTo child.parent) (ts ++ [t]) := by
  obtain ⟨hearlier, hdue, hfires, hchild, hlater, rfl, hold⟩ := hs
  rw [List.append_assoc, List.cons_append]
  refine .intro hearlier hdue hfires hchild (forall_mem_concat hlater ht) ?_
    (forall_mem_concat hold fun _ => hnow)
  rw [List.flatMap_append, List.flatMap_singleton]

/-- While nothing is reported the clock may be set. -/
theorem set (hs : s.Firing h place child now [] ts) (next : Instant) :
    s.Firing h place child next [] ts := by
  obtain ⟨hearlier, hdue, hfires, hchild, hlater, hwaiting, -⟩ := hs
  refine .intro hearlier hdue hfires hchild hlater hwaiting fun t ht hsent => ?_
  exact absurd (List.flatMap_eq_nil_iff.1 hwaiting.symm t ht) hsent

/-- When it is reported that the activity has completed, the next deadline is worked out. -/
theorem schedule (hs : s.Firing h place child now waiting ts) {cs : Compensations}
    (hreport : .completed none cs ∈ waiting) {a : Alarm} (ha : s.alarm place = .ok a)
    (hset : Option.Rel ((s.evaluator ⟨now, place.scope⟩).Sets now) a.next deadline) :
    s.Schedule h place ts deadline := by
  obtain @⟨_, later, _, _, hearlier, hdue, hfires, hchild, hlater, rfl, hnow⟩ := hs
  obtain ⟨t, ht, hsent⟩ := List.mem_flatMap.1 hreport
  -- whichever report came first, it was made at the current time
  have hsome : (later.find? (·.completes child)).isSome = true :=
    List.find?_isSome.2 ⟨t, ht, Tick.completes_iff.2 ⟨cs, hsent⟩⟩
  obtain ⟨report, hfirst⟩ := Option.isSome_iff_exists.1 hsome
  obtain ⟨hmem, hcompletes⟩ := Tick.completes_of_find? hfirst
  obtain ⟨_, hfound⟩ := Tick.completes_iff.1 hcompletes
  have hreported := hnow report hmem (List.ne_nil_of_mem hfound)
  exact .next hearlier hdue hfires hchild hfirst hlater ha (hreported ▸ hset)

end Firing

end Script

end Perdure
