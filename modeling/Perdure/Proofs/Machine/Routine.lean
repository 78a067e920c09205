import Perdure.Instance.Program

/-!
# Routines

A process or handler reaches the soup only through a few doors: it reads the clock and the shared
data, asks for new channels and numbers, and does one deed after another.  A routine is such a way
through the doors.  It is written down as it is, so that what was sent, closed and listened on can
be told from it, and not only the soup that comes of it.

## Main definitions

* `Deed` — a change that a process or handler makes to the soup.
* `Routine`, `Routine.turn` — deeds in turn, and what they come to.
* `Routines`, `Routines.program` — a routine for every process and handler, and their program.

## Main results

* `Script.exists_routines` — the program of every script is one of routines.
-/

namespace Perdure

/-- A change that a process or handler makes to the soup. -/
inductive Deed (γ π η μ : Type) where
  | setGlobal (g : γ)
  | spawn (p : π)
  | object (choice : Choice η)
  | send (c : Channel) (m : μ)
  | close (c : Channel)
  | registerTimer (c : Channel) (deadline : Instant)
  | cancelTimer (c : Channel)

/-- The soup after a deed. -/
def Deed.apply {γ π η μ : Type} (s : Soup γ π η μ) : Deed γ π η μ → Soup γ π η μ
  | setGlobal g => { s with global := g }
  | spawn p => s.spawn p
  | object choice => s.object choice
  | send c m => s.send c m
  | close c => s.close c
  | registerTimer c deadline => s.registerTimer c deadline
  | cancelTimer c => s.cancelTimer c

/-- Deeds in turn.  What comes next may depend on what was handed out or read. -/
inductive Routine (γ π η μ ε : Type) where
  | done
  | fail (e : ε)
  | deed (d : Deed γ π η μ) (rest : Routine γ π η μ ε)
  | newChannel (rest : Channel → Routine γ π η μ ε)
  | genMonotonic (rest : Nat → Routine γ π η μ ε)
  | global (rest : γ → Routine γ π η μ ε)
  | now (rest : Instant → Routine γ π η μ ε)

/-- What a routine does to the soup, at an instant. -/
def Routine.turn {γ π η μ ε : Type} (t : Instant) :
    Routine γ π η μ ε → Turn γ π η μ ε Unit
  | done => pure ()
  | fail e => Turn.fail e
  | deed d rest => do
    Turn.update (Deed.apply · d)
    rest.turn t
  | newChannel rest => do (rest (← Turn.newChannel)).turn t
  | genMonotonic rest => do (rest (← Turn.genMonotonic)).turn t
  | global rest => do (rest (← get).global).turn t
  | now rest => (rest t).turn t

/-- A routine for every process and every handler. -/
structure Routines (γ π η μ ε : Type) where
  run : π → Routine γ π η μ ε
  receive : η → Channel → μ → Routine γ π η μ ε

/-- The program of routines. -/
def Routines.program {γ π η μ ε : Type} (R : Routines γ π η μ ε) : Program γ π η μ ε where
  run now p := (R.run p).turn now
  receive now handler c m := (R.receive handler c m).turn now

/-! ### What routines can do -/

namespace Turn

variable {γ π η μ ε α β : Type} {now : Instant}

/-- Whatever a routine does afterwards, the two together are a routine. -/
structure Played (now : Instant) (t : Turn γ π η μ ε α) : Prop where
  exists_routine : ∀ next : α → Routine γ π η μ ε, ∃ r : Routine γ π η μ ε,
    r.turn now = t >>= fun a => (next a).turn now

theorem played_pure (a : α) : (pure a : Turn γ π η μ ε α).Played now :=
  ⟨fun next => ⟨next a, rfl⟩⟩

theorem Played.bind {t : Turn γ π η μ ε α} {f : α → Turn γ π η μ ε β} (ht : t.Played now)
    (hf : ∀ a, (f a).Played now) : (t >>= f).Played now := by
  refine ⟨fun next => ?_⟩
  obtain ⟨rest, hrest⟩ := Classical.skolem.1 fun a => (hf a).exists_routine next
  obtain ⟨r, hr⟩ := ht.exists_routine rest
  refine ⟨r, ?_⟩
  rw [hr, bind_assoc]
  exact congrArg (t >>= ·) (funext hrest)

theorem played_fail (e : ε) : (fail e : Turn γ π η μ ε α).Played now :=
  ⟨fun _ => ⟨.fail e, rfl⟩⟩

theorem played_ofExcept (r : Except ε α) : (ofExcept r : Turn γ π η μ ε α).Played now :=
  match r with
  | .ok a => played_pure a
  | .error e => played_fail e

theorem played_deed (d : Deed γ π η μ) :
    (update (Deed.apply · d) : Turn γ π η μ ε Unit).Played now :=
  ⟨fun next => ⟨.deed d (next ()), rfl⟩⟩

theorem played_newChannel : (newChannel : Turn γ π η μ ε Channel).Played now :=
  ⟨fun next => ⟨.newChannel next, rfl⟩⟩

theorem played_genMonotonic : (genMonotonic : Turn γ π η μ ε Nat).Played now :=
  ⟨fun next => ⟨.genMonotonic next, rfl⟩⟩

theorem played_sendAll (cs : List Channel) (m : μ) :
    (sendAll cs m : Turn γ π η μ ε Unit).Played now := by
  induction cs with
  | nil => exact played_pure ()
  | cons c cs ih => exact (played_deed (.send c m)).bind fun _ => ih

theorem played_mapM {f : α → Turn γ π η μ ε β} (hf : ∀ a, (f a).Played now) (l : List α) :
    (l.mapM f).Played now := by
  induction l with
  | nil => exact played_pure []
  | cons a l ih =>
    rw [List.mapM_cons]
    exact (hf a).bind fun b => ih.bind fun bs => played_pure _

theorem played_forM {f : α → Turn γ π η μ ε Unit} (hf : ∀ a, (f a).Played now) (o : Option α) :
    (o.forM f).Played now :=
  match o with
  | none => played_pure ()
  | some a => hf a

end Turn

/-! ### The program of a script -/

namespace Script

open Turn

variable {now : Instant}

theorem played_spawn (t : Task) : (spawn t : Reaction Unit).Played now := played_deed (.spawn t)

theorem played_listen (arms : List (Arm Receiver)) : (listen arms : Reaction Unit).Played now :=
  played_deed (.object ⟨arms⟩)

theorem played_send (c : Channel) (m : Message) : (send c m : Reaction Unit).Played now :=
  played_deed (.send c m)

theorem played_close (c : Channel) : (close c : Reaction Unit).Played now := played_deed (.close c)

theorem played_registerTimer (c : Channel) (deadline : Instant) :
    (registerTimer c deadline : Reaction Unit).Played now := played_deed (.registerTimer c deadline)

theorem played_cancelTimer (c : Channel) : (cancelTimer c : Reaction Unit).Played now :=
  played_deed (.cancelTimer c)

theorem played_complete (parent : Channel) (fault : Option Fault) (cs : Compensations) :
    (Reaction.complete parent fault cs).Played now := played_send ..

theorem played_refuse (state : String) (c : Channel) (m : Message) :
    (Reaction.refuse state c m).Played now := played_fail _

theorem played_newRun (activity : ActivityId) : (Reaction.newRun activity).Played now :=
  played_genMonotonic.bind fun _ => played_newChannel.bind fun _ => played_newChannel.bind fun _ =>
    played_pure _

theorem played_startWait (s : Script) (run : Run) (deadline : Deadline) :
    (s.startWait now run deadline).Played now := by
  unfold startWait
  refine (played_ofExcept _).bind fun timed => ?_
  cases timed with
  | error fault => exact played_complete ..
  | ok deadline =>
    dsimp only
    split
    · exact played_complete ..
    · exact played_newChannel.bind fun timer =>
        (played_registerTimer ..).bind fun _ => played_listen _

theorem played_startScope (s : Script) (run : Run) : (s.startScope run).Played now := by
  have hstart (index : Nat) : (startAlarm run index).Played now :=
    played_newChannel.bind fun _ => played_newChannel.bind fun _ => played_newChannel.bind fun _ =>
      (played_spawn _).bind fun _ => played_pure _
  exact (played_ofExcept _).bind fun parts => (played_newRun _).bind fun body =>
    (played_spawn _).bind fun _ => (played_mapM hstart _).bind fun _ => played_spawn _

theorem played_startActivity (s : Script) (run : Run) : (s.startActivity now run).Played now := by
  unfold startActivity
  refine (played_ofExcept _).bind fun a => ?_
  cases a.kind with
  | empty | throw => exact played_complete ..
  | wait deadline => exact played_startWait s run deadline
  | sequence => exact played_spawn _
  | scope => exact played_startScope s run

theorem played_stepSequence (s : Script) (sequence : SequenceRun) :
    (s.stepSequence sequence).Played now := by
  unfold stepSequence
  refine (played_ofExcept _).bind fun children => ?_
  split
  · exact (played_newRun _).bind fun child => (played_spawn _).bind fun _ => played_listen _
  · exact played_complete ..

theorem played_activateScope (s : Script) (scope : ScopeRun) :
    (s.activateScope scope).Played now := by
  unfold activateScope
  split
  · exact (played_ofExcept _).bind fun left => played_complete ..
  · exact played_listen _

theorem played_awaitDeadline (alarm : AlarmRun) (timed : Except Fault (Option Instant)) :
    (awaitDeadline alarm timed).Played now := by
  cases timed with
  | ok deadline => exact played_spawn _
  | error fault => exact played_complete ..

theorem played_waitAlarm (alarm : AlarmRun) (deadline : Option Instant) :
    (waitAlarm now alarm deadline).Played now := by
  cases deadline with
  | none => exact played_listen _
  | some deadline =>
    unfold waitAlarm
    dsimp only
    split
    · exact played_spawn _
    · exact played_newChannel.bind fun timer =>
        (played_registerTimer ..).bind fun _ => played_listen _

theorem played_runTask (s : Script) (task : Task) : (s.runTask now task).Played now := by
  cases task with
  | activity run => exact played_startActivity s run
  | sequenceStep sequence => exact played_stepSequence s sequence
  | scopeActive scope => exact played_activateScope s scope
  | alarmStart alarm =>
    exact (played_ofExcept _).bind fun timed => played_awaitDeadline alarm timed
  | alarmWait alarm deadline => exact played_waitAlarm alarm deadline
  | alarmFire alarm =>
    exact (played_ofExcept _).bind fun a => (played_newRun _).bind fun child =>
      (played_spawn _).bind fun _ => played_spawn _
  | alarmActive alarm child stopped => exact played_listen _

theorem played_receiveWait (run : Run) (timer c : Channel) (m : Message) :
    (receiveWait run timer c m).Played now := by
  cases m
  case timeout | timerCancelled | terminate =>
    exact (played_cancelTimer _).bind fun _ => (played_close _).bind fun _ => played_complete ..
  all_goals exact played_refuse ..

theorem played_receiveSequence (sequence : SequenceRun) (child : Run) (c : Channel)
    (m : Message) : (receiveSequence sequence child c m).Played now := by
  cases m
  case completed fault cs =>
    unfold receiveSequence
    dsimp only
    split
    · exact played_complete ..
    · exact played_spawn _
  case cancelled | failure => exact played_spawn _
  case terminate | compensate => exact (played_send ..).bind fun _ => played_listen _
  all_goals exact played_refuse ..

theorem played_terminateAll (scope : ScopeRun) : scope.terminateAll.Played now := by
  unfold ScopeRun.terminateAll
  split
  · exact played_pure _
  · exact (played_sendAll ..).bind fun _ => (played_sendAll ..).bind fun _ => played_pure _

theorem played_childDone (scope : ScopeRun) (c : Channel) (fault : Option Fault)
    (cs : Compensations) : (scope.childDone c fault cs).Played now := by
  unfold ScopeRun.childDone
  dsimp only
  split
  · refine Played.bind ?_ fun _ => played_pure _
    refine (played_close _).bind fun _ => ?_
    split
    · exact played_terminateAll _
    · split
      · exact (played_sendAll ..).bind fun _ => played_pure _
      · exact played_pure _
  · split
    · refine Played.bind ?_ fun _ => played_pure _
      refine (played_close _).bind fun _ => (played_close _).bind fun _ => ?_
      split
      · exact played_terminateAll _
      · exact played_pure _
    · exact played_pure _

theorem played_scopeChildDone (scope : ScopeRun) (c : Channel) (fault : Option Fault)
    (cs : Compensations) (m : Message) : (scopeChildDone scope c fault cs m).Played now := by
  refine (played_childDone ..).bind fun scope => ?_
  cases scope with
  | some scope => exact played_spawn _
  | none => exact played_refuse ..

theorem played_receiveScope (scope : ScopeRun) (c : Channel) (m : Message) :
    (receiveScope scope c m).Played now := by
  cases m
  case terminate =>
    unfold receiveScope
    dsimp only
    split
    · exact (played_terminateAll _).bind fun _ => played_spawn _
    · exact played_refuse ..
  case completed | cancelled | failure => exact played_scopeChildDone ..
  case compensate => exact (played_send ..).bind fun _ => played_spawn _
  all_goals exact played_refuse ..

theorem played_receiveAlarmWaiting (alarm : AlarmRun) (timer : Option Channel) (c : Channel)
    (m : Message) : (receiveAlarmWaiting alarm timer c m).Played now := by
  cases m
  case timeout => exact (played_forM played_close _).bind fun _ => played_spawn _
  case stop | terminate | timerCancelled =>
    exact (played_forM (fun t => (played_cancelTimer t).bind fun _ => played_close t) _).bind
      fun _ => played_complete ..
  all_goals exact played_refuse ..

theorem played_firingDone (s : Script) (alarm : AlarmRun) (fault : Option Fault)
    (stopped : Bool) : (s.firingDone now alarm fault stopped).Played now := by
  unfold firingDone
  split
  · exact played_complete ..
  · split
    · exact played_complete ..
    · exact (played_ofExcept _).bind fun timed => played_awaitDeadline alarm timed

theorem played_receiveAlarmActive (s : Script) (alarm : AlarmRun) (child : Run)
    (stopped : Bool) (c : Channel) (m : Message) :
    (s.receiveAlarmActive now alarm child stopped c m).Played now := by
  cases m
  case completed | cancelled | failure => exact played_firingDone ..
  case compensate | terminate => exact (played_send ..).bind fun _ => played_spawn _
  case stop => exact played_spawn _
  all_goals exact played_refuse ..

theorem played_receive (s : Script) (r : Receiver) (c : Channel) (m : Message) :
    (s.receive now r c m).Played now := by
  cases r with
  | waitActivity run timer => exact played_receiveWait run timer c m
  | sequenceWaiting sequence child => exact played_receiveSequence sequence child c m
  | scopeWaiting scope => exact played_receiveScope scope c m
  | alarmWaiting alarm timer => exact played_receiveAlarmWaiting alarm timer c m
  | alarmActive alarm child stopped => exact played_receiveAlarmActive s alarm child stopped c m

/-- **Every script does its work by routines.** -/
theorem exists_routines (s : Script) :
    ∃ R : Routines Shared Task Receiver Message RunError, R.program = s.program := by
  have hrun (now : Instant) (task : Task) : ∃ r : Routine _ _ _ _ _,
      r.turn now = s.runTask now task :=
    ((played_runTask s task).exists_routine fun _ => .done).imp fun r hr => hr.trans (bind_pure _)
  have hreceive (now : Instant) (r : Receiver) (c : Channel) (m : Message) :
      ∃ q : Routine _ _ _ _ _, q.turn now = s.receive now r c m :=
    ((played_receive s r c m).exists_routine fun _ => .done).imp fun r hr => hr.trans (bind_pure _)
  refine ⟨{ run := fun task => .now fun now => (hrun now task).choose
            receive := fun r c m => .now fun now => (hreceive now r c m).choose }, ?_⟩
  unfold Routines.program program
  congr 1
  · funext now task
    exact (hrun now task).choose_spec
  · funext now r c m
    exact (hreceive now r c m).choose_spec

end Script

end Perdure
