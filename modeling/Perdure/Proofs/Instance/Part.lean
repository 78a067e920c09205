import Perdure.Instance.Program

/-!
# The parts of an instance

A soup holds tasks that are ready and receivers that wait.  Either is a *part* of the activity or
alarm that it works for, and both know each other by channels: a part reports on the `parent`
channel of its `Link`, and a part that has started others awaits a report on the `parent` channel
of each of their links.  The links that parts await and the links that parts have are what holds
an instance together.

## Main definitions

* `Link` — the channels between a part and whoever started it.
* `Part` — a ready task or a waiting receiver.
* `Part.link`, `Part.awaits` — the link of a part, and the links of those it has started.
* `Receiver.choice` — the choice that a receiver waits in.
* `Soup.parts` — all parts of an instance.
-/

namespace Perdure

/-! ### Links -/

/-- The channels between a part and whoever started it. -/
structure Link where
  /-- Where completion is reported. -/
  parent : Channel
  /-- Where to be told to stop at once. -/
  termination : Channel
  /-- Where an alarm is told to fire no more. -/
  control : Option Channel := none
deriving DecidableEq, Repr

/-- The channels of a link. -/
def Link.channels (l : Link) : List Channel := l.parent :: l.termination :: l.control.toList

@[simp] theorem Link.mem_channels {l : Link} {c : Channel} :
    c ∈ l.channels ↔ c = l.parent ∨ c = l.termination ∨ l.control = some c := by
  simp [Link.channels]

/-- The link of a run. -/
def Run.link (r : Run) : Link := { parent := r.parent, termination := r.termination }

/-- The link of an alarm, as its scope knows it. -/
def AlarmLink.link (l : AlarmLink) : Link :=
  { parent := l.parent, termination := l.termination, control := some l.control }

/-- The link of an alarm. -/
def AlarmRun.link (a : AlarmRun) : Link :=
  { parent := a.parent, termination := a.termination, control := some a.control }

/-- The links of the body and the alarms that a scope waits for. -/
def ScopeRun.awaits (s : ScopeRun) : List Link :=
  s.body.toList.map Run.link ++ s.pending.map AlarmLink.link

/-! ### Receivers -/

namespace Receiver

/-- The link of a receiver. -/
def link : Receiver → Link
  | .waitActivity run _ => run.link
  | .sequenceWaiting sequence _ => sequence.run.link
  | .scopeWaiting scope => scope.run.link
  | .alarmWaiting alarm _ => alarm.link
  | .alarmActive alarm _ _ => alarm.link

/-- The links whose reports a receiver waits for. -/
def awaits : Receiver → List Link
  | .sequenceWaiting _ child => [child.link]
  | .scopeWaiting scope => scope.awaits
  | .alarmActive _ child _ => [child.link]
  | .waitActivity .. | .alarmWaiting .. => []

/-- The timer that a receiver waits for. -/
def timer : Receiver → Option Channel
  | .waitActivity _ timer => some timer
  | .alarmWaiting _ timer => timer
  | _ => none

/-- The channels that a receiver listens on, most urgent first. -/
def channels (r : Receiver) : List Channel :=
  r.timer.toList ++ r.awaits.map Link.parent ++ r.link.control.toList ++ [r.link.termination]

/-- The choice that a receiver waits in. -/
def choice (r : Receiver) : Choice Receiver := ⟨r.channels.map fun c => ⟨c, r⟩⟩

@[simp] theorem mem_channels {r : Receiver} {c : Channel} :
    c ∈ r.channels ↔ r.timer = some c ∨ c ∈ r.awaits.map Link.parent ∨ r.link.control = some c ∨
      c = r.link.termination := by
  simp [channels]

theorem channels_ne_nil (r : Receiver) : r.channels ≠ [] := by simp [channels]

@[simp] theorem mem_arms_choice {r : Receiver} {a : Arm Receiver} :
    a ∈ r.choice.arms ↔ a.channel ∈ r.channels ∧ a.handler = r := by
  constructor
  · intro h
    obtain ⟨c, hc, rfl⟩ := List.mem_map.1 h
    exact ⟨hc, rfl⟩
  · rintro ⟨hc, rfl⟩
    exact List.mem_map.2 ⟨a.channel, hc, rfl⟩

end Receiver

/-- The receiver of a choice, which is the same in all of its arms. -/
def Choice.receiver? (c : Choice Receiver) : Option Receiver := c.arms.head?.map Arm.handler

@[simp] theorem Receiver.receiver?_choice (r : Receiver) : r.choice.receiver? = some r := by
  obtain ⟨c, cs, h⟩ := List.exists_cons_of_ne_nil r.channels_ne_nil
  simp [choice, Choice.receiver?, h]

/-! ### Tasks -/

namespace Task

/-- The link of a task. -/
def link : Task → Link
  | .activity run => run.link
  | .sequenceStep sequence => sequence.run.link
  | .scopeActive scope => scope.run.link
  | .alarmStart alarm | .alarmWait alarm _ | .alarmFire alarm | .alarmActive alarm _ _ =>
    alarm.link

/-- The links whose reports a task is about to wait for. -/
def awaits : Task → List Link
  | .scopeActive scope => scope.awaits
  | .alarmActive _ child _ => [child.link]
  | _ => []

end Task

/-! ### Parts -/

/-- A part of an instance: a task that is ready, or a receiver that waits. -/
inductive Part where
  | ready (task : Task)
  | waiting (receiver : Receiver)
deriving DecidableEq, Repr

namespace Part

/-- The link of a part. -/
def link : Part → Link
  | .ready t => t.link
  | .waiting r => r.link

/-- The links of what a part has started and not yet heard of. -/
def awaits : Part → List Link
  | .ready t => t.awaits
  | .waiting r => r.awaits

/-- The timer that a part waits for. -/
def timer : Part → Option Channel
  | .ready _ => none
  | .waiting r => r.timer

/-- The channel on which the activity or alarm reports that the part works for. -/
abbrev home (p : Part) : Channel := p.link.parent

end Part

/-! ### The parts of a soup -/

namespace Soup

/-- The receivers that wait, oldest first. -/
def receivers (s : InstanceSoup) : List Receiver := s.choices.filterMap Choice.receiver?

/-- All parts of an instance: what is ready, then what waits. -/
def parts (s : InstanceSoup) : List Part :=
  s.runnables.map .ready ++ s.receivers.map .waiting

/-- The links of the parts. -/
def links (s : InstanceSoup) : List Link := s.parts.map Part.link

/-- The links that parts await. -/
def awaited (s : InstanceSoup) : List Link := s.parts.flatMap Part.awaits

/-- The timers that parts wait for. -/
def awaitedTimers (s : InstanceSoup) : List Channel := s.parts.filterMap Part.timer

end Soup

/-- The receivers of choices that were made from receivers. -/
theorem filterMap_receiver?_choice (rs : List Receiver) :
    (rs.map Receiver.choice).filterMap Choice.receiver? = rs := by
  induction rs with
  | nil => rfl
  | cons r rs ih => simp [ih]

end Perdure
