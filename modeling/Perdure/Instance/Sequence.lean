import Perdure.Instance.Script

/-!
# Waits and sequences

A wait arms a timer and completes when it goes off or the wait is told to stop.  A sequence runs
its children one after another and collects what they leave to compensate; a fault of a child ends
it.

## Main definitions

* `Script.startWait`, `Script.receiveWait` — a wait.
* `Script.stepSequence`, `Script.receiveSequence` — a sequence.
-/

namespace Perdure

namespace Script

/-! ### Waits -/

/-- Start a wait.  A deadline that has passed completes it at once. -/
def startWait (s : Script) (now : Instant) (run : Run) (deadline : Deadline) :
    Reaction Unit := do
  match ← Turn.ofExcept (s.deadline ⟨now, run.activity⟩ deadline) with
  | .error fault => Reaction.complete run.parent (some fault) ∅
  | .ok deadline =>
    if deadline.isAtMost now then Reaction.complete run.parent none ∅
    else
      let timer ← Turn.newChannel
      Turn.registerTimer timer deadline
      Turn.listen [⟨timer, .waitActivity run timer⟩, ⟨run.termination, .waitActivity run timer⟩]

/-- End a wait. -/
def receiveWait (run : Run) (timer : Channel) (channel : Channel) : Message → Reaction Unit
  | .timeout | .timerCancelled | .terminate => do
    Turn.cancelTimer timer
    Turn.close timer
    Reaction.complete run.parent none ∅
  | m => Reaction.refuse "wait" channel m

/-! ### Sequences -/

/-- The children of a sequence. -/
def children (s : Script) (id : ActivityId) : Except RunError (List ActivityId) := do
  match (← s.activity id).kind with
  | .sequence children => pure children
  | _ => throw (s.unknown id)

/-- Wait for the child of a sequence, or for its termination. -/
def listenSequence (sequence : SequenceRun) (child : Run) : Reaction Unit :=
  Turn.listen [⟨child.parent, .sequenceWaiting sequence child⟩,
    ⟨sequence.run.termination, .sequenceWaiting sequence child⟩]

/-- Start the next child of a sequence, or complete the sequence. -/
def stepSequence (s : Script) (sequence : SequenceRun) : Reaction Unit := do
  let children ← Turn.ofExcept (s.children sequence.run.activity)
  match children[sequence.position]?, sequence.terminated with
  | some next, false =>
    let child ← Reaction.newRun next
    Turn.spawn (.activity child)
    listenSequence sequence child
  | _, _ => Reaction.complete sequence.run.parent none sequence.compensations

/-- Take a message for a sequence. -/
def receiveSequence (sequence : SequenceRun) (child : Run) (channel : Channel) :
    Message → Reaction Unit
  | .completed fault compensations =>
    let sequence := { sequence with compensations := sequence.compensations.union compensations }
    if fault.isSome then Reaction.complete sequence.run.parent fault sequence.compensations
    else Turn.spawn (.sequenceStep { sequence with position := sequence.position + 1 })
  | .cancelled | .failure _ =>
    Turn.spawn (.sequenceStep { sequence with position := sequence.position + 1 })
  | .terminate => do
    Turn.send child.termination .terminate
    listenSequence { sequence with terminated := true } child
  | .compensate scope reply => do
    Turn.send sequence.run.parent (.compensate scope reply)
    listenSequence sequence child
  | m => Reaction.refuse "sequence" channel m

end Script

end Perdure
