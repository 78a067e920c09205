import Perdure.Proofs.Instance.Yields

/-!
# Reactions follow the rules

The reaction of a part is a turn of the machine.  It succeeds exactly by one of the rules of
`Yields`, and then adds to the soup what the rule says; and it fails exactly by one of the rules of
`Fails`.  So nothing after this module looks into the reactions themselves.

## Main definitions

* `Script.react` — the reaction of a part.
* `Part.takes` — what a part reacts to.

## Main results

* `Yields.react_eq` — a part that yields something adds it to the soup.
* `Fails.react_eq` — a part that fails does so whatever the soup.
* `Part.yields_or_fails`, `Yields.unique` — every part yields one thing or fails.
* `exists_yields_of_react_eq` — a reaction that succeeds is one of the rules.
-/

namespace Perdure

/-! ### Running turns -/

namespace Turn

variable {γ π η μ ε α β : Type}

@[simp] theorem ok_bind (a : α) (f : α → Except ε β) : (Except.ok a >>= f) = f a := rfl

@[simp] theorem map_ok (a : α) (f : α → β) : (f <$> (Except.ok a : Except ε α)) = .ok (f a) := rfl

@[simp] theorem error_bind (e : ε) (f : α → Except ε β) :
    (Except.error e >>= f) = .error e := rfl

@[simp] theorem run_update (f : Soup γ π η μ → Soup γ π η μ) (s : Soup γ π η μ) :
    (update f : Turn γ π η μ ε Unit).run s = .ok ((), f s) := rfl

@[simp] theorem run_spawn (p : π) (s : Soup γ π η μ) :
    (spawn p : Turn γ π η μ ε Unit).run s = .ok ((), s.spawn p) := rfl

@[simp] theorem run_listen (arms : List (Arm η)) (s : Soup γ π η μ) :
    (listen arms : Turn γ π η μ ε Unit).run s = .ok ((), s.object ⟨arms⟩) := rfl

@[simp] theorem run_send (c : Channel) (m : μ) (s : Soup γ π η μ) :
    (send c m : Turn γ π η μ ε Unit).run s = .ok ((), s.send c m) := rfl

@[simp] theorem run_sendAll (cs : List Channel) (m : μ) (s : Soup γ π η μ) :
    (sendAll cs m : Turn γ π η μ ε Unit).run s = .ok ((), s.sendEach (cs.map (·, m))) := by
  simp [sendAll, Soup.sendEach, List.foldl_map]

@[simp] theorem run_close (c : Channel) (s : Soup γ π η μ) :
    (close c : Turn γ π η μ ε Unit).run s = .ok ((), s.close c) := rfl

@[simp] theorem run_registerTimer (c : Channel) (t : Instant) (s : Soup γ π η μ) :
    (registerTimer c t : Turn γ π η μ ε Unit).run s = .ok ((), s.registerTimer c t) := rfl

@[simp] theorem run_cancelTimer (c : Channel) (s : Soup γ π η μ) :
    (cancelTimer c : Turn γ π η μ ε Unit).run s = .ok ((), s.cancelTimer c) := rfl

@[simp] theorem run_newChannel (s : Soup γ π η μ) :
    (newChannel : Turn γ π η μ ε Channel).run s = .ok s.newChannel := rfl

@[simp] theorem run_genMonotonic (s : Soup γ π η μ) :
    (genMonotonic : Turn γ π η μ ε Nat).run s = .ok s.genMonotonic := rfl

@[simp] theorem run_fail (e : ε) (s : Soup γ π η μ) :
    (fail e : Turn γ π η μ ε α).run s = .error e := rfl

@[simp] theorem run_ofExcept_ok (a : α) (s : Soup γ π η μ) :
    (ofExcept (.ok a) : Turn γ π η μ ε α).run s = .ok (a, s) := rfl

@[simp] theorem run_ofExcept_error (e : ε) (s : Soup γ π η μ) :
    (ofExcept (.error e) : Turn γ π η μ ε α).run s = .error e := rfl

end Turn

namespace Soup

variable {γ π η μ : Type}

@[simp] theorem sendEach_append (s : Soup γ π η μ) (ms ns : List (Channel × μ)) :
    (s.sendEach ms).sendEach ns = s.sendEach (ms ++ ns) := by
  simp [sendEach, List.foldl_append]

end Soup

/-! ### Running the pieces of reactions -/

@[simp] theorem Reaction.run_complete (c : Channel) (fault : Option Fault) (cs : Compensations)
    (s : InstanceSoup) :
    (Reaction.complete c fault cs).run s = .ok ((), s.send c (.completed fault cs)) := rfl

@[simp] theorem Reaction.run_refuse (state : String) (c : Channel) (m : Message)
    (s : InstanceSoup) :
    (Reaction.refuse state c m).run s = .error (.unexpectedMessage state c m.shape) := rfl

@[simp] theorem Reaction.run_newRun (activity : ActivityId) (s : InstanceSoup) :
    (Reaction.newRun activity).run s = .ok (Run.fresh activity s.nextMonotonic s.nextChannel,
      { s with nextChannel := s.nextChannel + 2, nextMonotonic := s.nextMonotonic + 1 }) := rfl

namespace ScopeRun

@[simp] theorem run_terminateAll (scope : ScopeRun) (s : InstanceSoup) :
    scope.terminateAll.run s = .ok ({ scope with terminating := true }, s.sendEach scope.orders) := by
  obtain ⟨run, body, handlers, compensations, fault, terminating⟩ := scope
  cases terminating
  · simp [terminateAll, orders, awaits, Function.comp_def, Run.link, AlarmLink.link]
  · simp [terminateAll, orders, Soup.sendEach]
    rfl

@[simp] theorem run_bodyDone_faulted (scope : ScopeRun) (body : Run) (s : InstanceSoup) :
    (scope.bodyDone body true).run s = .ok ({ scope with body := none, terminating := true },
      (s.close body.termination).sendEach ({ scope with body := none }).orders) := by
  simp [bodyDone]

@[simp] theorem run_bodyDone (scope : ScopeRun) (body : Run) (s : InstanceSoup) :
    (scope.bodyDone body false).run s = .ok ({ scope with body := none },
      (s.close body.termination).sendEach scope.softOrders) := by
  cases h : scope.terminating <;> simp [bodyDone, softOrders, pending, h, Function.comp_def]
  all_goals rfl

@[simp] theorem run_alarmDone_faulted (scope : ScopeRun) (link : AlarmLink)
    (handlers : List AlarmLink) (s : InstanceSoup) :
    (scope.alarmDone link handlers true).run s = .ok ({ scope with handlers, terminating := true },
      ((s.close link.termination).close link.control).sendEach
        ({ scope with handlers }).orders) := by
  simp [alarmDone]

@[simp] theorem run_alarmDone (scope : ScopeRun) (link : AlarmLink)
    (handlers : List AlarmLink) (s : InstanceSoup) :
    (scope.alarmDone link handlers false).run s = .ok ({ scope with handlers },
      (s.close link.termination).close link.control) := by
  simp [alarmDone]

end ScopeRun

theorem run_startAlarm (run : Run) (index : Nat) (s : InstanceSoup) :
    (Script.startAlarm run index).run s = .ok (AlarmLink.fresh s.nextChannel,
      { s with
        nextChannel := s.nextChannel + 3
        runnables := s.runnables ++ [.alarmStart (AlarmRun.fresh run index s.nextChannel)] }) := rfl

/-- Alarms are started in order, each with the next three channels. -/
theorem run_mapM_startAlarm (run : Run) (n m i : Nat) (s : InstanceSoup)
    (h : s.nextChannel = alarmChannel n i) :
    ((List.range' i m).mapM (Script.startAlarm run)).run s =
      .ok ((List.range' i m).map fun j => AlarmLink.fresh (alarmChannel n j),
        { s with
          nextChannel := alarmChannel n (i + m)
          runnables := s.runnables ++ (List.range' i m).map fun j =>
            .alarmStart (AlarmRun.fresh run j (alarmChannel n j)) }) := by
  induction m generalizing i s with
  | zero => simp [← h]; rfl
  | succ m ih =>
    have hn : s.nextChannel + 3 = alarmChannel n (i + 1) := by
      rw [h]; unfold alarmChannel; omega
    rw [List.range'_succ, List.mapM_cons, StateT.run_bind, run_startAlarm, Turn.ok_bind,
      StateT.run_bind, ih (i + 1) _ hn, h]
    simp [Nat.add_assoc, Nat.add_comm 1]

/-! ### Reactions -/

namespace Script

/-- The reaction of a part; a receiver takes a message, a task takes none. -/
def react (s : Script) (now : Instant) : Part → Option (Channel × Message) → Reaction Unit
  | .ready t, none => s.runTask now t
  | .waiting r, some (c, m) => s.receive now r c m
  | _, _ => pure ()

end Script

/-- Joining no compensations changes nothing. -/
@[simp] theorem union_empty (cs : Compensations) : cs.union ∅ = cs := rfl

namespace ScopeRun

/-- The body reports on its channel. -/
theorem childDone_body {scope : ScopeRun} {body : Run} {c : Channel} (hb : scope.body = some body)
    (hc : body.parent = c) (fault : Option Fault) (cs : Compensations) :
    scope.childDone c fault cs =
      some <$> (scope.absorb fault cs).bodyDone body fault.isSome := by
  subst hc
  simp only [childDone, absorb, hb, Option.filter, beq_self_eq_true, if_true]
  rfl

/-- An alarm reports on its channel, which is not that of the body. -/
theorem childDone_alarm {scope : ScopeRun} {link : AlarmLink} {handlers : List AlarmLink}
    {c : Channel} (hb : scope.body.filter (·.parent == c) = none)
    (hc : markDone c scope.handlers = some (link, handlers)) (fault : Option Fault)
    (cs : Compensations) :
    scope.childDone c fault cs =
      some <$> (scope.absorb fault cs).alarmDone link handlers fault.isSome := by
  simp only [childDone, absorb, hb, hc]
  rfl

end ScopeRun

/-- A part that yields something adds it to the soup. -/
theorem Yields.react_eq {s : Script} {now : Instant} {n k : Nat} {P : Part}
    {taken : Option (Channel × Message)} {p : Products} (h : Yields s now n k P taken p)
    {soup : InstanceSoup} (hn : soup.nextChannel = n) (hk : soup.nextMonotonic = k) :
    (s.react now P taken).run soup = .ok ((), p.addTo soup) := by
  subst hn hk
  cases h with
  | emptyDone ha hk | thrown ha hk | sequenceStarted ha hk =>
    simp [Script.react, Script.runTask, Script.startActivity, ha, hk]
    rfl
  | waitFaulted ha hk hd =>
    simp [Script.react, Script.runTask, Script.startActivity, Script.startWait, ha, hk, hd]
    rfl
  | waitPassed ha hk hd ht | waitArmed ha hk hd ht =>
    simp [Script.react, Script.runTask, Script.startActivity, Script.startWait, ha, hk, hd, ht]
    rfl
  -- a scope takes a block of channels: two for the body, then three for each alarm
  | @scopeStarted run body alarms hp =>
    obtain ⟨a, comp, ha, hk⟩ := Script.kind_of_scopeParts hp
    have hn : soup.nextChannel + 2 = alarmChannel soup.nextChannel 0 := rfl
    simp only [Script.react, Script.runTask, Script.startActivity, Script.startScope, ha, hp, hk,
      StateT.run_bind, Turn.run_ofExcept_ok, Turn.ok_bind, Reaction.run_newRun, Turn.run_spawn,
      List.range_eq_range']
    rw [run_mapM_startAlarm run soup.nextChannel _ _ _ hn]
    simp [Products.addTo, Products.populate, Products.tasks, Products.receivers,
      Products.foldl_spawn, Soup.spawn, ScopeRun.fresh,
      AlarmRun.freshAll, alarmChannel, List.range_eq_range', Function.comp_def, Products.arm,
      Products.takeNames, Products.disarm, Soup.closeEach, Soup.sendEach, Nat.add_assoc]
  | childStarted hc hn ht =>
    simp [Script.react, Script.runTask, Script.stepSequence, Script.listenSequence, hc, hn, ht]
    rfl
  | @sequenceDone sequence children hc hn =>
    simp only [Script.react, Script.runTask, Script.stepSequence, hc,
      StateT.run_bind, Turn.run_ofExcept_ok, Turn.ok_bind]
    -- there is no next child, or there is one and the sequence was told to stop
    rcases hn with hn | hn
    · rw [hn]; rfl
    · rw [hn]; cases children[sequence.position]? <;> rfl
  | sequenceFaulted hm =>
    rw [Message.report?_eq_some_some] at hm
    subst hm
    simp [Script.react, Script.receive, Script.receiveSequence]
    rfl
  | sequenceNext hm =>
    -- three messages report an end without a fault: completion, a cancellation and a failure
    obtain rfl | ⟨rfl, rfl | ⟨reason, rfl⟩⟩ := Message.report?_eq_some_none.1 hm <;>
      simp [Script.react, Script.receive, Script.receiveSequence] <;> rfl
  | sequenceTold | sequenceAsked =>
    simp [Script.react, Script.receive, Script.receiveSequence, Script.listenSequence]
    rfl
  | waitOver hm =>
    rcases hm with rfl | rfl | rfl <;>
      simp [Script.react, Script.receive, Script.receiveWait] <;> rfl
  | scopeDone hf hl =>
    simp [Script.react, Script.runTask, Script.activateScope, Script.completeScope, hf, hl]
    rfl
  | @scopeWaits scope hf =>
    -- the arms that it listens on are those of the receiver that the soup will hold
    have harms : (Receiver.scopeWaiting scope).choice.arms =
        (scope.body.toList.map (·.parent) ++ scope.pending.map (·.parent)
          ++ [scope.run.termination]).map fun c => ⟨c, .scopeWaiting scope⟩ := by
      simp [Receiver.choice, Receiver.channels, Receiver.timer, Receiver.awaits, Receiver.link,
        ScopeRun.awaits, Function.comp_def, Run.link, AlarmLink.link]
    simp only [Script.react, Script.runTask, Script.activateScope, hf, Bool.false_eq_true, if_false,
      Turn.run_listen, ← harms]
    rfl
  | scopeTold hc =>
    simp [Script.react, Script.receive, Script.receiveScope, hc]
    rfl
  | bodyFaulted hb hc hm =>
    rw [Message.report?_eq_some_some] at hm
    subst hm
    simp [Script.react, Script.receive, Script.receiveScope, Script.scopeChildDone,
      ScopeRun.childDone_body hb hc]
    rfl
  | bodyDone hb hc hm =>
    obtain rfl | ⟨rfl, rfl | ⟨reason, rfl⟩⟩ := Message.report?_eq_some_none.1 hm <;>
      simp [Script.react, Script.receive, Script.receiveScope, Script.scopeChildDone,
        ScopeRun.childDone_body hb hc] <;> rfl
  | alarmFaulted hb hc hm =>
    rw [Message.report?_eq_some_some] at hm
    subst hm
    simp [Script.react, Script.receive, Script.receiveScope, Script.scopeChildDone,
      ScopeRun.childDone_alarm hb hc]
    rfl
  | alarmDone hb hc hm =>
    obtain rfl | ⟨rfl, rfl | ⟨reason, rfl⟩⟩ := Message.report?_eq_some_none.1 hm <;>
      simp [Script.react, Script.receive, Script.receiveScope, Script.scopeChildDone,
        ScopeRun.childDone_alarm hb hc] <;> rfl
  | scopeAsked =>
    simp [Script.react, Script.receive, Script.receiveScope]
    rfl
  | alarmUntimed ha hd | alarmTimed ha hd =>
    simp [Script.react, Script.runTask, Script.startAlarmRun, Script.awaitDeadline,
      Script.completeAlarm, ha, hd]
    rfl
  | alarmRests =>
    simp [Script.react, Script.runTask, Script.waitAlarm, Script.listenAlarm]
    rfl
  | alarmPassed ht | alarmArmed ht =>
    simp [Script.react, Script.runTask, Script.waitAlarm, Script.listenAlarm, ht]
    rfl
  | @alarmDue alarm timer c =>
    cases timer <;> simp [Script.react, Script.receive, Script.receiveAlarmWaiting] <;> rfl
  | @alarmOver alarm timer c m hm =>
    rcases hm with rfl | rfl | rfl <;> cases timer <;>
      simp [Script.react, Script.receive, Script.receiveAlarmWaiting, Script.completeAlarm] <;> rfl
  | alarmFired ha =>
    simp [Script.react, Script.runTask, Script.fireAlarm, ha]
    rfl
  | firingWatched =>
    simp [Script.react, Script.runTask, Script.activateAlarm, Script.listenAlarm]
    rfl
  | firingFaulted hm =>
    rw [Message.report?_eq_some_some] at hm
    subst hm
    simp [Script.react, Script.receive, Script.receiveAlarmActive, Script.firingDone,
      Script.completeAlarm]
    rfl
  | firingLast hm =>
    obtain rfl | ⟨rfl, rfl | ⟨reason, rfl⟩⟩ := Message.report?_eq_some_none.1 hm <;>
      simp [Script.react, Script.receive, Script.receiveAlarmActive, Script.firingDone,
        Script.completeAlarm] <;> rfl
  | firingUntimed hm ha hd | firingAgain hm ha hd =>
    obtain rfl | ⟨rfl, rfl | ⟨reason, rfl⟩⟩ := Message.report?_eq_some_none.1 hm <;>
      simp [Script.react, Script.receive, Script.receiveAlarmActive, Script.firingDone,
        Script.completeAlarm, Script.awaitDeadline, ha, hd] <;> rfl
  | firingTold | firingStopped | firingAsked =>
    simp [Script.react, Script.receive, Script.receiveAlarmActive]
    rfl

/-- A part reacts to something: a task by itself, a receiver to a message. -/
def Part.takes : Part → Option (Channel × Message) → Prop
  | .ready _, taken => taken = none
  | .waiting _, taken => taken.isSome

/-- A receiver that does not understand a message refuses it. -/
theorem Receiver.Refuses.receive_eq {s : Script} {now : Instant} {q : Receiver} {c : Channel}
    {m : Message} (h : q.Refuses c m) (soup : InstanceSoup) :
    (s.receive now q c m).run soup = .error (.unexpectedMessage q.state c m.shape) := by
  cases h with
  | wait ht hc ho => cases m <;> first | rfl | contradiction
  | sequence hm => rcases hm with rfl | rfl | rfl <;> rfl
  | scope hm => rcases hm with rfl | rfl | rfl <;> rfl
  | astray hc =>
    simp [Script.receive, Script.receiveScope, hc]
    rfl
  | @stranger scope c m hm hb hl =>
    have hnone (fault : Option Fault) (cs : Compensations) :
        scope.childDone c fault cs = pure none := by
      simp only [ScopeRun.childDone, ScopeRun.absorb, hb, hl]
    cases m with
    | completed | cancelled | failure =>
      simp [Script.receive, Script.receiveScope, Script.scopeChildDone, hnone]
      rfl
    | stop | terminate | timeout | timerCancelled | compensate => cases hm
  | alarmWaiting hm =>
    rcases hm with hm | ⟨scope, reply, rfl⟩
    · cases m <;> first | rfl | cases hm
    · rfl
  | alarmActive hm => rcases hm with rfl | rfl <;> rfl

/-- A part that fails does so whatever the soup. -/
theorem Fails.react_eq {s : Script} {now : Instant} {P : Part} {taken : Option (Channel × Message)}
    {e : RunError} (h : Fails s now P taken e) (soup : InstanceSoup) :
    (s.react now P taken).run soup = .error e := by
  cases h with
  | activityMissing ha => simp [Script.react, Script.runTask, Script.startActivity, ha]
  | waitInvalid ha hk hd =>
    simp [Script.react, Script.runTask, Script.startActivity, Script.startWait, ha, hk, hd]
  | childrenMissing hc => simp [Script.react, Script.runTask, Script.stepSequence, hc]
  | scopeMissing hf hl =>
    simp [Script.react, Script.runTask, Script.activateScope, Script.completeScope, hf, hl]
  | alarmMissing ha => simp [Script.react, Script.runTask, Script.startAlarmRun, ha]
  | alarmInvalid ha hd => simp [Script.react, Script.runTask, Script.startAlarmRun, ha, hd]
  | firedMissing ha => simp [Script.react, Script.runTask, Script.fireAlarm, ha]
  | firingMissing hm ha =>
    obtain rfl | ⟨rfl, rfl | ⟨reason, rfl⟩⟩ := Message.report?_eq_some_none.1 hm <;>
      simp [Script.react, Script.receive, Script.receiveAlarmActive, Script.firingDone, ha]
  | firingInvalid hm ha hd =>
    obtain rfl | ⟨rfl, rfl | ⟨reason, rfl⟩⟩ := Message.report?_eq_some_none.1 hm <;>
      simp [Script.react, Script.receive, Script.receiveAlarmActive, Script.firingDone, ha, hd]
  | refused hr => exact hr.receive_eq soup

section Cases

variable (s : Script) (now : Instant) (n k : Nat)

/-- The start of an activity yields something or fails. -/
theorem Run.yields_or_fails (run : Run) :
    (∃ p, Yields s now n k (.ready (.activity run)) none p) ∨
      ∃ e, Fails s now (.ready (.activity run)) none e := by
  cases ha : s.activity run.activity with
  | error e => exact .inr ⟨e, .activityMissing ha⟩
  | ok a =>
    cases hk : a.kind with
    | empty => exact .inl ⟨_, .emptyDone ha hk⟩
    | throw fault => exact .inl ⟨_, .thrown ha hk⟩
    | sequence children => exact .inl ⟨_, .sequenceStarted ha hk⟩
    | scope body alarms compensation =>
      have hp : s.scopeParts run.activity = .ok (body, alarms) := by
        simp only [Script.scopeParts, ha, Turn.ok_bind, hk]
        rfl
      exact .inl ⟨_, .scopeStarted hp⟩
    | wait deadline =>
      cases hd : s.deadline ⟨now, run.activity⟩ deadline with
      | error e => exact .inr ⟨e, .waitInvalid ha hk hd⟩
      | ok value =>
        cases value with
        | error fault => exact .inl ⟨_, .waitFaulted ha hk hd⟩
        | ok t =>
          cases ht : t.isAtMost now with
          | true => exact .inl ⟨_, .waitPassed ha hk hd ht⟩
          | false => exact .inl ⟨_, .waitArmed ha hk hd ht⟩

/-- Every task yields something or fails. -/
theorem Task.yields_or_fails (t : Task) :
    (∃ p, Yields s now n k (.ready t) none p) ∨ ∃ e, Fails s now (.ready t) none e := by
  cases t with
  | activity run => exact run.yields_or_fails s now n k
  | sequenceStep sequence =>
    cases hc : s.children sequence.run.activity with
    | error e => exact .inr ⟨e, .childrenMissing hc⟩
    | ok children =>
      cases hn : children[sequence.position]? with
      | none => exact .inl ⟨_, .sequenceDone hc (.inl hn)⟩
      | some next =>
        cases ht : sequence.terminated with
        | true => exact .inl ⟨_, .sequenceDone hc (.inr ht)⟩
        | false => exact .inl ⟨_, .childStarted hc hn ht⟩
  | scopeActive scope =>
    cases hf : scope.isFinished with
    | false => exact .inl ⟨_, .scopeWaits hf⟩
    | true =>
      cases hl : s.leftBehind scope with
      | error e => exact .inr ⟨e, .scopeMissing hf hl⟩
      | ok left => exact .inl ⟨_, .scopeDone hf hl⟩
  | alarmStart alarm =>
    cases ha : s.alarm alarm.alarm with
    | error e => exact .inr ⟨e, .alarmMissing ha⟩
    | ok a =>
      cases hd : s.firstDeadline ⟨now, alarm.alarm.scope⟩ a with
      | error e => exact .inr ⟨e, .alarmInvalid ha hd⟩
      | ok value =>
        cases value with
        | error fault => exact .inl ⟨_, .alarmUntimed ha hd⟩
        | ok deadline => exact .inl ⟨_, .alarmTimed ha hd⟩
  | alarmWait alarm deadline =>
    cases deadline with
    | none => exact .inl ⟨_, .alarmRests⟩
    | some t =>
      cases ht : t.isAtMost now with
      | true => exact .inl ⟨_, .alarmPassed ht⟩
      | false => exact .inl ⟨_, .alarmArmed ht⟩
  | alarmFire alarm =>
    cases ha : s.alarm alarm.alarm with
    | error e => exact .inr ⟨e, .firedMissing ha⟩
    | ok a => exact .inl ⟨_, .alarmFired ha⟩
  | alarmActive alarm child stopped => exact .inl ⟨_, .firingWatched⟩

/-- A receiver that hears that something is done yields something or fails. -/
theorem Receiver.yields_or_fails_of_report (q : Receiver) (c : Channel) {m : Message}
    {fault : Option Fault} {cs : Compensations} (hm : m.report? = some (fault, cs)) :
    (∃ p, Yields s now n k (.waiting q) (some (c, m)) p) ∨
      ∃ e, Fails s now (.waiting q) (some (c, m)) e := by
  have hsome : m.report?.isSome := by rw [hm]; rfl
  cases q with
  | waitActivity =>
    refine .inr ⟨_, .refused (.wait ?_ ?_ ?_)⟩ <;>
    · rintro rfl
      cases hm
  | sequenceWaiting =>
    cases fault with
    | none => exact .inl ⟨_, .sequenceNext hm⟩
    | some fault => exact .inl ⟨_, .sequenceFaulted hm⟩
  | scopeWaiting scope =>
    -- the report is the body's, an alarm's, or comes from a link that the scope does not await
    cases hb : scope.body.filter (·.parent == c) with
    | some body =>
      obtain ⟨hb, hc⟩ := Option.filter_eq_some_iff.1 hb
      have hc : body.parent = c := by simpa using hc
      cases fault with
      | none => exact .inl ⟨_, .bodyDone hb hc hm⟩
      | some fault => exact .inl ⟨_, .bodyFaulted hb hc hm⟩
    | none =>
      cases hl : ScopeRun.markDone c scope.handlers with
      | none => exact .inr ⟨_, .refused (.stranger hsome hb hl)⟩
      | some found =>
        cases fault with
        | none => exact .inl ⟨_, .alarmDone hb hl hm⟩
        | some fault => exact .inl ⟨_, .alarmFaulted hb hl hm⟩
  | alarmWaiting => exact .inr ⟨_, .refused (.alarmWaiting (.inl hsome))⟩
  | alarmActive alarm child stopped =>
    cases fault with
    | some fault => exact .inl ⟨_, .firingFaulted hm⟩
    | none =>
      cases stopped with
      | true => exact .inl ⟨_, .firingLast hm⟩
      | false =>
        cases ha : s.alarm alarm.alarm with
        | error e => exact .inr ⟨e, .firingMissing hm ha⟩
        | ok a =>
          -- an alarm that was not stopped looks for its next deadline before it goes on
          cases hd : s.nextDeadline ⟨now, alarm.alarm.scope⟩ a with
          | error e => exact .inr ⟨e, .firingInvalid hm ha hd⟩
          | ok value =>
            cases value with
            | error fault => exact .inl ⟨_, .firingUntimed hm ha hd⟩
            | ok deadline => exact .inl ⟨_, .firingAgain hm ha hd⟩

/-- A receiver that hears anything else yields something, or does not understand it. -/
theorem Receiver.yields_or_refuses (q : Receiver) (c : Channel) {m : Message}
    (hm : m.report? = none) :
    (∃ p, Yields s now n k (.waiting q) (some (c, m)) p) ∨ q.Refuses c m := by
  cases q with
  | waitActivity run timer =>
    cases m with
    | timeout | timerCancelled | terminate => exact .inl ⟨_, .waitOver (by simp)⟩
    | stop | compensate => exact .inr (.wait nofun nofun nofun)
    | completed | cancelled | failure => cases hm
  | sequenceWaiting sequence child =>
    cases m with
    | terminate => exact .inl ⟨_, .sequenceTold⟩
    | compensate => exact .inl ⟨_, .sequenceAsked⟩
    | stop | timeout | timerCancelled => exact .inr (.sequence (by simp))
    | completed | cancelled | failure => cases hm
  | scopeWaiting scope =>
    cases m with
    | terminate =>
      -- of the channels that a scope awaits only its own carries the order to stop
      by_cases hc : c = scope.run.termination
      · exact .inl ⟨_, .scopeTold hc⟩
      · exact .inr (.astray hc)
    | compensate => exact .inl ⟨_, .scopeAsked⟩
    | stop | timeout | timerCancelled => exact .inr (.scope (by simp))
    | completed | cancelled | failure => cases hm
  | alarmWaiting alarm timer =>
    cases m with
    | timeout => exact .inl ⟨_, .alarmDue⟩
    | stop | terminate | timerCancelled => exact .inl ⟨_, .alarmOver (by simp)⟩
    | compensate => exact .inr (.alarmWaiting (.inr ⟨_, _, rfl⟩))
    | completed | cancelled | failure => cases hm
  | alarmActive alarm child stopped =>
    cases m with
    | compensate => exact .inl ⟨_, .firingAsked⟩
    | stop => exact .inl ⟨_, .firingStopped⟩
    | terminate => exact .inl ⟨_, .firingTold⟩
    | timeout | timerCancelled => exact .inr (.alarmActive (by simp))
    | completed | cancelled | failure => cases hm

/-- Every part that reacts yields something or fails. -/
theorem Part.yields_or_fails {P : Part} {taken : Option (Channel × Message)} (ht : P.takes taken) :
    (∃ p, Yields s now n k P taken p) ∨ ∃ e, Fails s now P taken e := by
  cases P with
  | ready t =>
    cases ht
    exact t.yields_or_fails s now n k
  | waiting q =>
    obtain ⟨⟨c, m⟩, rfl⟩ := Option.isSome_iff_exists.1 ht
    cases hm : m.report? with
    | none => exact (q.yields_or_refuses s now n k c hm).imp_right fun hr => ⟨_, .refused hr⟩
    | some report => exact q.yields_or_fails_of_report s now n k c hm

end Cases

/-- The rules exclude each other: a part yields one thing only. -/
theorem Yields.unique {s : Script} {now : Instant} {n k : Nat} {P : Part}
    {taken : Option (Channel × Message)} {p q : Products} (h : Yields s now n k P taken p)
    (h' : Yields s now n k P taken q) : p = q := by
  cases h <;> cases h'
  all_goals first | rfl | simp_all [Message.report?]
  -- what is left is the start of a scope, whose kind the other rule gives otherwise
  all_goals
    obtain ⟨a, compensation, ha, hk⟩ := Script.kind_of_scopeParts ‹_›
    simp_all

theorem Yields.takes {s : Script} {now : Instant} {n k : Nat} {P : Part}
    {taken : Option (Channel × Message)} {p : Products} (h : Yields s now n k P taken p) :
    P.takes taken := by
  cases h <;> rfl

/-- A reaction that succeeds adds what one of the rules says. -/
theorem exists_yields_of_react_eq {s : Script} {now : Instant} {P : Part}
    {taken : Option (Channel × Message)} {soup : InstanceSoup} {r : Unit × InstanceSoup}
    (ht : P.takes taken) (h : (s.react now P taken).run soup = .ok r) :
    ∃ p, Yields s now soup.nextChannel soup.nextMonotonic P taken p ∧ r.2 = p.addTo soup := by
  rcases Part.yields_or_fails s now soup.nextChannel soup.nextMonotonic ht with ⟨p, hp⟩ | ⟨e, he⟩
  · rw [hp.react_eq rfl rfl] at h
    cases h
    exact ⟨p, hp, rfl⟩
  · rw [he.react_eq] at h
    cases h

end Perdure
