import Perdure.Instance.Alarm
import Perdure.Instance.Scope
import Perdure.Instance.Sequence

/-!
# The program of a script

What the tasks and receivers of a process instance do, and the soup that an instance starts with.

## Main definitions

* `Script.program` — tasks and receivers as a program.
* `Script.newSoup` — the soup of a new instance.
-/

namespace Perdure

namespace Script

/-- Start an activity. -/
def startActivity (s : Script) (now : Instant) (run : Run) : Reaction Unit := do
  let a ← Turn.ofExcept (s.activity run.activity)
  match a.kind with
  | .empty => Reaction.complete run.parent none ∅
  | .throw fault => Reaction.complete run.parent (some { name := fault }) ∅
  | .wait deadline => s.startWait now run deadline
  | .sequence _ => Turn.spawn (.sequenceStep { run, position := 0 })
  | .scope .. => s.startScope run

/-- What a task does. -/
def runTask (s : Script) (now : Instant) : Task → Reaction Unit
  | .activity run => s.startActivity now run
  | .sequenceStep sequence => s.stepSequence sequence
  | .scopeActive scope => s.activateScope scope
  | .alarmStart alarm => s.startAlarmRun now alarm
  | .alarmWait alarm deadline => waitAlarm now alarm deadline
  | .alarmFire alarm => s.fireAlarm alarm
  | .alarmActive alarm child stopped => activateAlarm alarm child stopped

/-- What a receiver does with a message. -/
def receive (s : Script) (now : Instant) (r : Receiver) (channel : Channel) (m : Message) :
    Reaction Unit :=
  match r with
  | .waitActivity run timer => receiveWait run timer channel m
  | .sequenceWaiting sequence child => receiveSequence sequence child channel m
  | .scopeWaiting scope => receiveScope scope channel m
  | .alarmWaiting alarm timer => receiveAlarmWaiting alarm timer channel m
  | .alarmActive alarm child stopped => s.receiveAlarmActive now alarm child stopped channel m

/-- The program of a script. -/
def program (s : Script) : Program Shared Task Receiver Message RunError where
  run := s.runTask
  receive := s.receive

/-- The soup of a new instance: its root activity is ready to start. -/
def newSoup (s : Script) : InstanceSoup :=
  let soup : InstanceSoup := { global := {} }
  let (id, soup) := soup.genMonotonic
  let (termination, soup) := soup.newChannel
  let (parent, soup) := soup.newChannel
  { soup with global := { soup.global with root := some ⟨termination, parent⟩ } }.spawn
    (.activity { id, activity := s.definition.root, termination, parent })

end Script

end Perdure
