import Perdure.Instance.Script

/-!
# Alarms

An alarm waits for its deadline, runs its activity, and waits again if it repeats.  Told to stop,
it finishes a firing under way and completes; told to terminate, it also stops the firing.  An
alarm without a deadline only waits to be stopped.

## Main definitions

* `Script.startAlarmRun`, `Script.waitAlarm`, `Script.fireAlarm`, `Script.activateAlarm` — the
  stages of an alarm.
* `Script.receiveAlarmWaiting`, `Script.receiveAlarmActive` — an alarm takes a message.
-/

namespace Perdure

namespace Script

/-- Complete an alarm. -/
def completeAlarm (alarm : AlarmRun) (fault : Option Fault) : Reaction Unit :=
  Reaction.complete alarm.parent fault alarm.compensations

/-- The first deadline of an alarm, if it has one. -/
def firstDeadline (s : Script) (o : Occasion) (alarm : Alarm) :
    Except RunError (Except Fault (Option Instant)) :=
  match alarm.delay, alarm.instant, alarm.repetition with
  | some duration, _, _ => do pure ((← s.deadlineAfter o duration).map some)
  | none, some timestamp, _ => do pure ((← s.deadlineAt o timestamp).map some)
  | none, none, some duration => do pure ((← s.deadlineAfter o duration).map some)
  | none, none, none => .ok (.ok none)

/-- The next deadline of an alarm, if it repeats. -/
def nextDeadline (s : Script) (o : Occasion) (alarm : Alarm) :
    Except RunError (Except Fault (Option Instant)) :=
  match alarm.repetition with
  | some duration => do pure ((← s.deadlineAfter o duration).map some)
  | none => .ok (.ok none)

/-- Wait for a deadline, or report the fault that it raised. -/
def awaitDeadline (alarm : AlarmRun) : Except Fault (Option Instant) → Reaction Unit
  | .ok deadline => Turn.spawn (.alarmWait alarm deadline)
  | .error fault => completeAlarm alarm (some fault)

/-- Time the first firing of an alarm. -/
def startAlarmRun (s : Script) (now : Instant) (alarm : AlarmRun) : Reaction Unit := do
  let timed ← Turn.ofExcept do s.firstDeadline ⟨now, alarm.alarm.scope⟩ (← s.alarm alarm.alarm)
  awaitDeadline alarm timed

/-- Wait for the channels of an alarm, beside the given ones. -/
def listenAlarm (alarm : AlarmRun) (others : List Channel) (receiver : Receiver) :
    Reaction Unit :=
  Turn.listen ((others ++ [alarm.control, alarm.termination]).map fun c => ⟨c, receiver⟩)

/-- Wait for a firing.  A deadline that has passed fires at once. -/
def waitAlarm (now : Instant) (alarm : AlarmRun) : Option Instant → Reaction Unit
  | none => listenAlarm alarm [] (.alarmWaiting alarm none)
  | some deadline => do
    if deadline.isAtMost now then Turn.spawn (.alarmFire alarm)
    else
      let timer ← Turn.newChannel
      Turn.registerTimer timer deadline
      listenAlarm alarm [timer] (.alarmWaiting alarm (some timer))

/-- Take a message for an alarm that waits. -/
def receiveAlarmWaiting (alarm : AlarmRun) (timer : Option Channel) (channel : Channel) :
    Message → Reaction Unit
  | .timeout => do
    timer.forM Turn.close
    Turn.spawn (.alarmFire alarm)
  | .stop | .terminate | .timerCancelled => do
    timer.forM fun t => do
      Turn.cancelTimer t
      Turn.close t
    completeAlarm alarm none
  | m => Reaction.refuse "alarm-wait" channel m

/-- Run the activity of an alarm. -/
def fireAlarm (s : Script) (alarm : AlarmRun) : Reaction Unit := do
  let a ← Turn.ofExcept (s.alarm alarm.alarm)
  let child ← Reaction.newRun a.activity
  Turn.spawn (.activity child)
  Turn.spawn (.alarmActive alarm child false)

/-- Wait for the activity of an alarm. -/
def activateAlarm (alarm : AlarmRun) (child : Run) (stopped : Bool) : Reaction Unit :=
  listenAlarm alarm [child.parent] (.alarmActive alarm child stopped)

/-- A firing is done: report its fault, complete if stopped, or wait for the next firing. -/
def firingDone (s : Script) (now : Instant) (alarm : AlarmRun) (fault : Option Fault)
    (stopped : Bool) : Reaction Unit := do
  if fault.isSome then completeAlarm alarm fault
  else if stopped then completeAlarm alarm none
  else
    let timed ← Turn.ofExcept do s.nextDeadline ⟨now, alarm.alarm.scope⟩ (← s.alarm alarm.alarm)
    awaitDeadline alarm timed

/-- Take a message for an alarm whose activity runs. -/
def receiveAlarmActive (s : Script) (now : Instant) (alarm : AlarmRun) (child : Run)
    (stopped : Bool) (channel : Channel) : Message → Reaction Unit
  | .completed fault compensations =>
    s.firingDone now { alarm with compensations := alarm.compensations.union compensations }
      fault stopped
  | .cancelled | .failure _ => s.firingDone now alarm none stopped
  | .compensate scope reply => do
    Turn.send alarm.parent (.compensate scope reply)
    Turn.spawn (.alarmActive alarm child stopped)
  | .stop => Turn.spawn (.alarmActive alarm child true)
  | .terminate => do
    Turn.send child.termination .terminate
    Turn.spawn (.alarmActive alarm child true)
  | m => Reaction.refuse "alarm-active" channel m

end Script

end Perdure
