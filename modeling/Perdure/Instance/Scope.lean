import Perdure.Instance.Script

/-!
# Scopes

A scope runs its body beside its alarms and completes when all of them are done.  The first fault
of any of them stops the others and is reported upwards; a scope without fault leaves its
compensation behind.

## Main definitions

* `Script.startScope` — start the body and the alarms.
* `ScopeRun.childDone` — one part of a scope is done.
* `Script.activateScope`, `Script.receiveScope` — a scope under way.
-/

namespace Perdure

namespace ScopeRun

/-- Are the body and all alarms done? -/
def isFinished (s : ScopeRun) : Bool := s.body.isNone && s.handlers.all (·.done)

/-- The alarms that are not done. -/
def pending (s : ScopeRun) : List AlarmLink := s.handlers.filter (!·.done)

/-- Tell everything that is not done to stop at once, but only the first time. -/
def terminateAll (s : ScopeRun) : Reaction ScopeRun := do
  if s.terminating then pure s
  else
    Turn.sendAll (s.body.toList.map (·.termination)) .terminate
    Turn.sendAll (s.pending.map (·.termination)) .terminate
    pure { s with terminating := true }

/-- The alarms with the first of those that report on a channel marked as done. -/
def markDone (channel : Channel) : List AlarmLink → Option (AlarmLink × List AlarmLink)
  | [] => none
  | l :: rest =>
    if l.parent = channel then some (l, { l with done := true } :: rest)
    else (markDone channel rest).map fun (found, rest) => (found, l :: rest)

/-- Take in what a part of the scope reports; the first fault stays. -/
def absorb (s : ScopeRun) (fault : Option Fault) (compensations : Compensations) : ScopeRun :=
  { s with
    compensations := s.compensations.union compensations
    fault := s.fault.or fault }

/-- The body is done: stop the alarms, at once after a fault. -/
def bodyDone (s : ScopeRun) (body : Run) (faulted : Bool) : Reaction ScopeRun := do
  let s := { s with body := none }
  Turn.close body.termination
  if faulted then s.terminateAll
  else
    if !s.terminating then Turn.sendAll (s.pending.map (·.control)) .stop
    pure s

/-- An alarm is done: its channels close, and a fault stops everything else. -/
def alarmDone (s : ScopeRun) (link : AlarmLink) (handlers : List AlarmLink) (faulted : Bool) :
    Reaction ScopeRun := do
  let s := { s with handlers }
  Turn.close link.termination
  Turn.close link.control
  if faulted then s.terminateAll else pure s

/-- A part of the scope reports on a channel that it is done; `none` if no part reports there. -/
def childDone (s : ScopeRun) (channel : Channel) (fault : Option Fault)
    (compensations : Compensations) : Reaction (Option ScopeRun) := do
  let s := s.absorb fault compensations
  match s.body.filter (·.parent == channel) with
  | some body => pure (some (← s.bodyDone body fault.isSome))
  | none => match markDone channel s.handlers with
    | some (link, handlers) => pure (some (← s.alarmDone link handlers fault.isSome))
    | none => pure none

end ScopeRun

namespace Script

/-- The body and the alarms of a scope. -/
def scopeParts (s : Script) (id : ActivityId) : Except RunError (ActivityId × List Alarm) := do
  match (← s.activity id).kind with
  | .scope body alarms _ => pure (body, alarms)
  | _ => throw (s.unknown id)

/-- Start one alarm of a scope. -/
def startAlarm (run : Run) (index : Nat) : Reaction AlarmLink := do
  let parent ← Turn.newChannel
  let termination ← Turn.newChannel
  let control ← Turn.newChannel
  Turn.spawn (.alarmStart
    { alarm := ⟨run.activity, index⟩, scopeInstance := run.id, parent, termination, control })
  pure { parent, termination, control }

/-- Start a scope: its body, then its alarms in order. -/
def startScope (s : Script) (run : Run) : Reaction Unit := do
  let (body, alarms) ← Turn.ofExcept (s.scopeParts run.activity)
  let body ← Reaction.newRun body
  Turn.spawn (.activity body)
  let handlers ← (List.range alarms.length).mapM (startAlarm run)
  Turn.spawn (.scopeActive { run, body := some body, handlers })

/-- The compensation that a scope leaves behind. -/
def leftBehind (s : Script) (scope : ScopeRun) : Except RunError (Option Compensation) := do
  if scope.fault.isSome then pure none
  else match (← s.activity scope.run.activity).kind with
    | .scope _ _ (some activity) =>
      pure (some ⟨scope.run.id, scope.run.activity, activity⟩)
    | _ => pure none

/-- Complete a scope. -/
def completeScope (s : Script) (scope : ScopeRun) : Reaction Unit := do
  let left ← Turn.ofExcept (s.leftBehind scope)
  Reaction.complete scope.run.parent scope.fault
    (left.elim scope.compensations scope.compensations.add)

/-- Wait for the parts of a scope, or complete it. -/
def activateScope (s : Script) (scope : ScopeRun) : Reaction Unit :=
  if scope.isFinished then s.completeScope scope
  else
    let channels := scope.body.toList.map (·.parent) ++ scope.pending.map (·.parent)
      ++ [scope.run.termination]
    Turn.listen (channels.map fun c => ⟨c, .scopeWaiting scope⟩)

/-- A part of a scope reports that it is done. -/
def scopeChildDone (scope : ScopeRun) (channel : Channel) (fault : Option Fault)
    (compensations : Compensations) (m : Message) : Reaction Unit := do
  match ← scope.childDone channel fault compensations with
  | some scope => Turn.spawn (.scopeActive scope)
  | none => Reaction.refuse "scope" channel m

/-- Take a message for a scope. -/
def receiveScope (scope : ScopeRun) (channel : Channel) (m : Message) : Reaction Unit :=
  match m with
  | .terminate => do
    if channel = scope.run.termination then
      Turn.spawn (.scopeActive (← scope.terminateAll))
    else Reaction.refuse "scope" channel m
  | .completed fault compensations => scopeChildDone scope channel fault compensations m
  | .cancelled | .failure _ => scopeChildDone scope channel none ∅ m
  | .compensate target reply => do
    Turn.send scope.run.parent (.compensate target reply)
    Turn.spawn (.scopeActive scope)
  | m => Reaction.refuse "scope" channel m

end Script

end Perdure
