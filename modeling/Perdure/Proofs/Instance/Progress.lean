import Perdure.Proofs.Failure
import Perdure.Proofs.Instance.Completion
import Perdure.Proofs.Instance.Winding

/-!
# Valid instances never break by themselves

The parts of an instance of a valid definition refer to activities and alarms that are there, and
take only messages that they understand.  So a reaction fails for one reason only: an expression of
the definition has no value, because the evaluator says so or because the deadline that it names
lies beyond the range of instants.

## Main definitions

* `Script.Invalid` — the expressions of a definition that have no value at a time.
* `Part.Known` — the activity or alarm that a part refers to is in the definition.

## Main results

* `Yields.known` — what a part of a valid definition produces is known.
* `Delivery.not_refused` — a receiver understands what is meant for it.
* `Fails.invalid` — a known part fails only where an expression has no value.
* `Script.WellDriven.never_breaks` — how an execution of a well-driven instance may fail.
-/

namespace Perdure

/-! ### Expressions without a value -/

/-- The expressions of a kind that are evaluated to durations. -/
def ActivityKind.durations : ActivityKind → List String
  | .wait (.delay duration) => [duration]
  | .scope _ alarms _ => alarms.flatMap fun a => a.delay.toList ++ a.repetition.toList
  | _ => []

/-- The expressions of a kind that are evaluated to instants. -/
def ActivityKind.timestamps : ActivityKind → List String
  | .wait (.instant timestamp) => [timestamp]
  | .scope _ alarms _ => alarms.flatMap fun a => a.instant.toList
  | _ => []

/-- The expressions of a definition that have no value at a time, and why. -/
inductive Script.Invalid (s : Script) (now : Instant) : InvalidExpression → Prop
  /-- The evaluator finds a duration invalid. -/
  | duration {id : ActivityId} {a : Activity} {expression : String} {e : InvalidExpression}
      (ha : s.definition.activity? id = some a) (he : expression ∈ a.kind.durations)
      (hv : (s.evaluator ⟨now, id⟩).duration expression = .error (.invalid e)) : Invalid s now e
  /-- The evaluator finds an instant invalid. -/
  | timestamp {id : ActivityId} {a : Activity} {expression : String} {e : InvalidExpression}
      (ha : s.definition.activity? id = some a) (he : expression ∈ a.kind.timestamps)
      (hv : (s.evaluator ⟨now, id⟩).deadline expression = .error (.invalid e)) : Invalid s now e
  /-- The time lies too near to the end of the range of instants. -/
  | range {id : ActivityId} {a : Activity} {expression : String} {nanos : Int}
      (ha : s.definition.activity? id = some a) (he : expression ∈ a.kind.durations)
      (hv : (s.evaluator ⟨now, id⟩).duration expression = .ok nanos)
      (hr : now.addNanos? nanos = none) : Invalid s now ⟨expression, .deadlineOutOfRange⟩

namespace Script

variable {s : Script} {now : Instant} {id : ActivityId} {a : Activity} {e : RunError}

theorem activity_eq_ok_iff : s.activity id = .ok a ↔ s.definition.activity? id = some a := by
  unfold activity
  split
  · next hget => rw [hget, Except.ok.injEq, Option.some.injEq]
  · next hget => simp [hget]

theorem error_of_settle {α : Type} {expression : String} {r : Except EvaluationFailure α}
    (h : settle expression r = .error e) :
    ∃ x, e = .invalidProcess x ∧ r = .error (.invalid x) := by
  unfold settle at h
  split at h
  · cases h
  · cases h
  · next x =>
    cases h
    exact ⟨x, rfl, rfl⟩

/-- A duration without a value. -/
theorem invalid_of_deadlineAfter (ha : s.activity id = .ok a) {expression : String}
    (he : expression ∈ a.kind.durations)
    (h : s.deadlineAfter ⟨now, id⟩ expression = .error e) :
    ∃ x, e = .invalidProcess x ∧ s.Invalid now x := by
  obtain ⟨x, rfl, hx⟩ := error_of_settle h
  refine ⟨x, rfl, ?_⟩
  rcases exists_of_bind_eq_error hx with hv | ⟨nanos, hv, hrange⟩
  · exact .duration (activity_eq_ok_iff.1 ha) he hv
  · split at hrange
    · cases hrange
    · next hr =>
      cases hrange
      exact .range (activity_eq_ok_iff.1 ha) he hv hr

/-- An instant without a value. -/
theorem invalid_of_deadlineAt (ha : s.activity id = .ok a) {expression : String}
    (he : expression ∈ a.kind.timestamps) (h : s.deadlineAt ⟨now, id⟩ expression = .error e) :
    ∃ x, e = .invalidProcess x ∧ s.Invalid now x := by
  obtain ⟨x, rfl, hx⟩ := error_of_settle h
  exact ⟨x, rfl, .timestamp (activity_eq_ok_iff.1 ha) he hx⟩

/-- A wait whose end has no value. -/
theorem invalid_of_deadline (ha : s.activity id = .ok a) {deadline : Deadline}
    (hk : a.kind = .wait deadline) (h : s.deadline ⟨now, id⟩ deadline = .error e) :
    ∃ x, e = .invalidProcess x ∧ s.Invalid now x := by
  cases deadline with
  | delay duration =>
    refine invalid_of_deadlineAfter ha ?_ h
    rw [hk]
    exact List.mem_singleton_self _
  | instant timestamp =>
    refine invalid_of_deadlineAt ha ?_ h
    rw [hk]
    exact List.mem_singleton_self _

/-- An alarm is one of those of an activity. -/
theorem exists_activity_of_alarm {place : AlarmRef} {alarm : Alarm}
    (h : s.alarm place = .ok alarm) :
    ∃ a body alarms compensation, s.activity place.scope = .ok a ∧
      a.kind = .scope body alarms compensation ∧ alarms[place.index]? = some alarm := by
  obtain ⟨a, ha, h⟩ := exists_of_bind_eq_ok h
  split at h
  · next found hget =>
    cases h
    cases hk : a.kind with
    | scope body alarms compensation =>
      rw [hk] at hget
      exact ⟨a, body, alarms, compensation, ha, hk, hget⟩
    | _ =>
      rw [hk] at hget
      cases hget
  · cases h

/-- The expressions of an alarm are expressions of its scope. -/
theorem expressions_of_alarm {place : AlarmRef} {alarm : Alarm} (h : s.alarm place = .ok alarm) :
    ∃ a, s.activity place.scope = .ok a ∧
      (∀ x, alarm.delay = some x ∨ alarm.repetition = some x → x ∈ a.kind.durations) ∧
      ∀ x, alarm.instant = some x → x ∈ a.kind.timestamps := by
  obtain ⟨a, body, alarms, compensation, ha, hk, hget⟩ := exists_activity_of_alarm h
  have hmem := List.mem_of_getElem? hget
  refine ⟨a, ha, ?_, ?_⟩
  · intro x hx
    rw [hk]
    exact List.mem_flatMap.2 ⟨alarm, hmem, by simpa using hx⟩
  · intro x hx
    rw [hk]
    exact List.mem_flatMap.2 ⟨alarm, hmem, by simpa using hx⟩

/-- A deadline that is looked up behind `some` fails as it fails itself. -/
theorem error_of_optional {r : Except RunError (Except Fault Instant)}
    (h : (do pure ((← r).map some) : Except RunError (Except Fault (Option Instant))) = .error e) :
    r = .error e := by
  cases r with
  | error e' =>
    cases h
    rfl
  | ok value => cases h

/-- An alarm whose first deadline has no value. -/
theorem invalid_of_firstDeadline {place : AlarmRef} {alarm : Alarm}
    (ha : s.alarm place = .ok alarm)
    (h : s.firstDeadline ⟨now, place.scope⟩ alarm = .error e) :
    ∃ x, e = .invalidProcess x ∧ s.Invalid now x := by
  obtain ⟨a, ha, hdurations, htimestamps⟩ := expressions_of_alarm ha
  unfold firstDeadline at h
  split at h
  · next hd => exact invalid_of_deadlineAfter ha (hdurations _ (.inl hd)) (error_of_optional h)
  · next hi => exact invalid_of_deadlineAt ha (htimestamps _ hi) (error_of_optional h)
  · next hr => exact invalid_of_deadlineAfter ha (hdurations _ (.inr hr)) (error_of_optional h)
  · cases h

/-- An alarm whose next deadline has no value. -/
theorem invalid_of_nextDeadline {place : AlarmRef} {alarm : Alarm}
    (ha : s.alarm place = .ok alarm)
    (h : s.nextDeadline ⟨now, place.scope⟩ alarm = .error e) :
    ∃ x, e = .invalidProcess x ∧ s.Invalid now x := by
  obtain ⟨a, ha, hdurations, -⟩ := expressions_of_alarm ha
  unfold nextDeadline at h
  split at h
  · next hr => exact invalid_of_deadlineAfter ha (hdurations _ (.inr hr)) (error_of_optional h)
  · cases h

end Script

/-! ### Valid definitions -/

namespace Script

variable {s : Script} (hv : s.definition.validate = .ok ())

theorem exists_activity_of_resolve {id : ActivityId} (h : s.definition.resolve id = .ok ()) :
    ∃ a, s.activity id = .ok a := by
  unfold Definition.resolve at h
  split at h
  · next hlt => exact ⟨_, activity_eq_ok_iff.2 (List.getElem?_eq_getElem hlt)⟩
  · cases h

include hv

/-- The parts of a validation. -/
theorem checks_of_validate : s.definition.resolve s.definition.root = .ok () ∧
    ∀ a ∈ s.definition.activities, s.definition.checkActivity a = .ok () := by
  obtain ⟨_, -, hv⟩ := exists_of_bind_eq_ok hv
  obtain ⟨_, hroot, hall⟩ := exists_of_bind_eq_ok hv
  exact ⟨hroot, forM_eq_ok hall⟩

/-- The root of a valid definition is there. -/
theorem exists_root : ∃ a, s.activity s.definition.root = .ok a :=
  exists_activity_of_resolve (checks_of_validate hv).1

/-- What an activity of a valid definition refers to is there. -/
theorem exists_reference {id : ActivityId} {a : Activity} (ha : s.activity id = .ok a)
    {r : ActivityId} (hr : r ∈ a.kind.references) : ∃ b, s.activity r = .ok b := by
  have hmem : a ∈ s.definition.activities := List.mem_of_getElem? (activity_eq_ok_iff.1 ha)
  have hcheck := (checks_of_validate hv).2 a hmem
  unfold Definition.checkActivity at hcheck
  cases href : a.kind.references.forM s.definition.resolve with
  | error e =>
    rw [href] at hcheck
    cases hcheck
  | ok u => exact exists_activity_of_resolve (forM_eq_ok href r hr)

end Script

/-! ### Known parts -/

/-- The activity that a run is about to start, or the alarm that is under way, is in the
definition. -/
def Part.Known (s : Script) : Part → Prop
  | .ready (.activity run) => ∃ a, s.activity run.activity = .ok a
  | .ready (.alarmStart alarm) | .ready (.alarmWait alarm _) | .ready (.alarmFire alarm)
  | .ready (.alarmActive alarm _ _) | .waiting (.alarmWaiting alarm _)
  | .waiting (.alarmActive alarm _ _) => ∃ a, s.alarm alarm.alarm = .ok a
  | _ => True

namespace Yields

variable {s : Script} {now : Instant} {n k : Nat} {P : Part} {taken : Option (Channel × Message)}
  {p : Products}

/-- What goes on is known. -/
theorem known_heir (h : Yields s now n k P taken p) (hP : P.Known s) {Q : Part}
    (hQ : p.heir = some Q) : Q.Known s := by
  cases h <;> cases hQ
  case alarmTimed ha _ | firingAgain ha _ => exact ⟨_, ha⟩
  case alarmRests | alarmPassed | alarmArmed | alarmDue | alarmFired | firingWatched | firingTold |
      firingStopped | firingAsked => exact hP
  all_goals exact True.intro

/-- What is started is known. -/
theorem known_kid (h : Yields s now n k P taken p) (hv : s.definition.validate = .ok ())
    {t : Task} (ht : t ∈ p.kids) : (Part.ready t).Known s := by
  cases h <;> simp only [List.not_mem_nil, List.mem_cons, List.mem_map, or_false] at ht
  case scopeStarted run body alarms hp =>
    obtain ⟨a, compensation, ha, hk⟩ := Script.kind_of_scopeParts hp
    rcases ht with rfl | ⟨alarm, halarm, rfl⟩
    · exact Script.exists_reference hv ha (hk ▸ List.mem_cons_self)
    · -- an alarm of a new scope is numbered by its place in the scope
      obtain ⟨i, hi, rfl⟩ := List.mem_map.1 halarm
      have hlt : i < alarms.length := List.mem_range.1 hi
      refine ⟨alarms[i], ?_⟩
      show s.alarm ⟨run.activity, i⟩ = _
      unfold Script.alarm
      simp [ha, hk, ActivityKind.alarms, hlt]
      rfl
  case childStarted sequence children next hc hn ht' =>
    subst ht
    obtain ⟨a, ha, hk⟩ := Script.kind_of_children hc
    refine Script.exists_reference hv ha ?_
    rw [hk]
    exact List.mem_of_getElem? hn
  case alarmFired alarm a ha =>
    subst ht
    -- the activity of an alarm is a reference of the scope that has the alarm
    obtain ⟨b, body, alarms, compensation, hb, hk, hget⟩ := Script.exists_activity_of_alarm ha
    refine Script.exists_reference hv hb ?_
    have hmem := List.mem_of_getElem? hget
    simp only [hk, ActivityKind.references, List.cons_append, List.mem_cons, List.mem_append,
      List.mem_map]
    exact .inr (.inl ⟨a, hmem, rfl⟩)

end Yields

/-! ### Reactions that fail -/

/-- A receiver understands what is meant for it. -/
theorem Delivery.not_refused {q : Receiver} {c : Channel} {m : Message} {consumed : List Link}
    (hd : Delivery (.waiting q) (some (c, m)) consumed) : ¬ q.Refuses c m := by
  intro hr
  -- by what is delivered: a receiver refuses only what is not meant for it
  cases hd with
  | report hu fault cs =>
    cases hr with
    | @stranger scope _ _ _ hb hl =>
      -- a link that a scope awaits is that of its body or of one of its alarms
      rcases ScopeRun.body_or_alarm hu with ⟨body, hbody, hc⟩ | ⟨-, l, marked, hmarked⟩
      · rw [hbody, Option.filter_some, if_pos (by simp [hc])] at hb
        cases hb
      · rw [hmarked] at hl
        cases hl
    | wait | alarmWaiting => cases hu
    | sequence hm | scope hm => rcases hm with hm | hm | hm <;> cases hm
    | alarmActive hm => rcases hm with hm | hm <;> cases hm
  | event hc hm =>
    cases hr with
    | wait ht hcancelled => exact hm.elim ht hcancelled
    | alarmWaiting hr => rcases hm with rfl | rfl <;> rcases hr with hr | ⟨_, _, hr⟩ <;> cases hr
    | sequence | scope | astray | stranger | alarmActive => cases hc
  | stop hc =>
    cases hr with
    | alarmWaiting hr => rcases hr with hr | ⟨_, _, hr⟩ <;> cases hr
    | alarmActive hm => rcases hm with hm | hm <;> cases hm
    | wait | sequence | scope | stranger => cases hc
  | terminate hc =>
    cases hr with
    | astray hne => exact hne hc
    | wait _ _ ho => exact ho rfl
    | sequence hm | scope hm => rcases hm with hm | hm | hm <;> cases hm
    | stranger hm => cases hm
    | alarmWaiting hr => rcases hr with hr | ⟨_, _, hr⟩ <;> cases hr
    | alarmActive hm => rcases hm with hm | hm <;> cases hm

/-- A known part that takes what is meant for it fails only where an expression has no value. -/
theorem Fails.invalid {s : Script} {now : Instant} {P : Part} {taken : Option (Channel × Message)}
    {e : RunError} {consumed : List Link} (h : Fails s now P taken e)
    (hd : Delivery P taken consumed) (hk : P.Known s) (hs : P.Sound s) :
    ∃ x, e = .invalidProcess x ∧ s.Invalid now x := by
  cases h with
  | waitInvalid ha hkind hd => exact Script.invalid_of_deadline ha hkind hd
  | alarmInvalid ha hd => exact Script.invalid_of_firstDeadline ha hd
  | firingInvalid _ ha hd => exact Script.invalid_of_nextDeadline ha hd
  | activityMissing ha | alarmMissing ha | firedMissing ha | firingMissing _ ha =>
    obtain ⟨a, hfound⟩ := hk
    rw [hfound] at ha
    cases ha
  | childrenMissing hc =>
    obtain ⟨children, hfound⟩ := hs
    rw [hfound] at hc
    cases hc
  | scopeMissing hf hl =>
    obtain ⟨left, hfound⟩ := ScopeRun.Sound.exists_leftBehind hs
    have hfound : s.leftBehind _ = .ok left := hfound s.evaluator
    rw [hfound] at hl
    cases hl
  | refused hr => exact absurd hr hd.not_refused

/-! ### Executions that fail -/

namespace Script

variable {s : Script} {now : Instant}

/-- A reduction of a family of known parts fails only where an expression has no value. -/
theorem invalid_of_reduction? {root : Link} {soup : InstanceSoup} (hf : Family s root soup)
    (hk : ∀ P ∈ soup.parts, P.Known s) {e : RunError} (h : s.reduction? now soup = .error e) :
    ∃ x, e = .invalidProcess x ∧ s.Invalid now x := by
  unfold reduction? at h
  cases hp : soup.pick? with
  | none =>
    rw [hp] at h
    cases h
  | some found =>
    obtain ⟨P, taken, rest⟩ := found
    simp only [hp] at h
    have hg := Soup.gives_of_pick? hf.regular hp
    have hP : P ∈ soup.parts := hg.parts.mem_iff.2 List.mem_cons_self
    obtain ⟨consumed, hd, -⟩ := hf.delivery hg
    rcases P.yields_or_fails s now rest.nextChannel rest.nextMonotonic hg.takes with
      ⟨p, hy⟩ | ⟨x, hx⟩
    · rw [hy.react_eq rfl rfl] at h
      cases h
    · rw [hx.react_eq] at h
      cases h
      exact hx.invalid hd (hk P hP) (hf.sound P hP)

/-- Reductions within a limit fail where one of them fails, or at the limit. -/
theorem exists_of_reduce_eq_error {limit more done : Nat} {c : Course} {e : ReductionError RunError}
    (h : s.program.reduce now limit more done c.soup = .error e) : e = .limitExceeded limit ∨
      ∃ n x, s.reduction? now (s.advance now n c).soup = .error x ∧ e = .process x := by
  cases hr : s.reduction? now c.soup with
  | error x =>
    rw [reduce_of_error hr] at h
    cases h
    exact .inr ⟨0, x, hr, rfl⟩
  | ok r =>
    cases r with
    | none =>
      rw [reduce_of_none hr] at h
      cases h
    | some r =>
      cases more with
      | zero =>
        -- the last reduction that the limit allows succeeded, so the error is the limit
        rw [reduce_zero hr] at h
        split at h
        · cases h
          exact .inl rfl
        · cases h
      | succ more =>
        rw [reduce_succ hr] at h
        refine (exists_of_reduce_eq_error (c := c.extend r) h).imp_right ?_
        rintro ⟨n, x, hx, he⟩
        refine ⟨n + 1, x, ?_, he⟩
        rw [advance_of_reduction? hr]
        exact hx

/-! ### Driven courses -/

theorem Driven.valid {c : Course} (h : s.Driven c) : s.definition.validate = .ok () := by
  induction h with
  | start hv => exact hv
  | inject _ _ ih | reduce _ _ ih | drain _ ih => exact ih

/-- All parts of a driven course are known. -/
theorem Driven.known {c : Course} (h : s.Driven c) : ∀ P ∈ c.soup.parts, P.Known s :=
  h.forall_parts (exists_root h.valid) (fun hy hP hQ => hy.known_heir hP hQ)
    fun hy _ ht => hy.known_kid h.valid ht

/-- **A valid definition never breaks its instances by itself.**  An execution in a well-driven
course ends well, or it meets its limit, or an expression of the definition has no value at the
time.  No task or receiver fails for another reason: nobody refers to an activity or an alarm that
is not there, or takes a message that it does not understand. -/
theorem WellDriven.never_breaks {c : Course} (h : s.WellDriven c) {ms : List (Channel × Message)}
    (hms : ∀ e ∈ ms, c.Admits e.1 e.2) {limit : Nat} {e : ReductionError RunError}
    (he : s.program.execute now limit (c.inject ms).soup = .error e) :
    e = .limitExceeded limit ∨ ∃ x, e = .process (.invalidProcess x) ∧ s.Invalid now x := by
  refine (exists_of_reduce_eq_error he).imp_right ?_
  rintro ⟨n, x, hx, rfl⟩
  have hd := (h.driven.injectEach ms hms).advance now n
  obtain ⟨y, rfl, hy⟩ := invalid_of_reduction? hd.orderly.family hd.known hx
  exact ⟨y, rfl, hy⟩

/-- With an evaluator that knows no days, the root scope of a vigil starts, but the wait inside it
does not. -/
theorem never_breaks_vigil :
    let s := vigil.withEvaluator fun _ => .literal
    let x : InvalidExpression := ⟨"day", .duration .noStart⟩
    s.program.execute ⟨0, 0⟩ 100 s.newSoup = .error (.process (.invalidProcess x)) ∧
      s.Invalid ⟨0, 0⟩ x := by
  have he : (vigil.withEvaluator fun _ => .literal).program.execute ⟨0, 0⟩ 100
      (Course.inject { soup := vigil.newSoup } []).soup =
        .error (.process (.invalidProcess ⟨"day", .duration .noStart⟩)) := by decide +kernel
  refine ⟨he, ?_⟩
  rcases WellDriven.never_breaks (.start rfl) (fun _ h => absurd h List.not_mem_nil) he with
    hlimit | ⟨x, hx, hinvalid⟩
  · cases hlimit
  · cases hx
    exact hinvalid

end Script

end Perdure
