import Perdure.Instance.Json
import Perdure.Proofs.Json.Shapes
import Perdure.Proofs.Text.Digits

/-!
# The shapes of a stored instance

The written form of a soup names its cases: those of messages, tasks and receivers, and the form of
its requests.  It names no others, whatever the soup holds, as there is no place for a name of
anyone else's choice under the key of a shape.

## Main definitions

* `InstanceSoup.shapes` — the shapes that a written soup can have.

## Main results

* `Json.Shaped.instanceSoup` — a written soup has these shapes only.
-/

namespace Perdure

/-- The shapes of messages, as far as they are stored. -/
def Message.shapes : List String :=
  ["stop", "terminate", "timeout", "timer-cancelled", "completed", "cancelled", "failure",
    "compensate"]

/-- The shapes of tasks. -/
def Task.shapes : List String :=
  ["activity", "sequence-step", "scope-active", "alarm-start", "alarm-wait", "alarm-fire",
    "alarm-active"]

/-- The shapes of receivers. -/
def Receiver.shapes : List String :=
  ["wait-activity", "sequence-waiting", "scope-waiting", "alarm-waiting", "alarm-active"]

/-- The shapes that a written soup can have. -/
def InstanceSoup.shapes : List String :=
  Message.shapes ++ Task.shapes ++ Receiver.shapes ++
    [RequestState.listShape, RequestState.managerShape]

namespace Json.Shaped

variable {P : String → Prop}

/-! ### Without shapes -/

@[simp] theorem instant (t : Instant) : t.toJson.Shaped P := .str t.text

@[simp] theorem fault (f : Fault) : f.toJson.Shaped P := .record (by simp)

@[simp] theorem compensations (cs : Compensations) : cs.toJson.Shaped P :=
  shaped_arr_map fun _ => .record (by simp)

@[simp] theorem run (r : Run) : r.toJson.Shaped P := .record (by simp)

@[simp] theorem sequenceRun (s : SequenceRun) : s.toJson.Shaped P := .record (by simp)

@[simp] theorem alarmLink (l : AlarmLink) : l.toJson.Shaped P := .record (by simp)

@[simp] theorem scopeRun (s : ScopeRun) : s.toJson.Shaped P := .record (by simp)

@[simp] theorem alarmRef (a : AlarmRef) : a.toJson.Shaped P := .record (by simp)

@[simp] theorem alarmRun (a : AlarmRun) : a.toJson.Shaped P := .record (by simp)

@[simp] theorem request (r : Request) : r.toJson.Shaped P := .record (by simp)

@[simp] theorem rootLink (l : RootLink) : l.toJson.Shaped P := .record (by simp)

/-! ### Variants -/

theorem message (h : ∀ s ∈ Message.shapes, P s) (m : Message) : m.toJson.Shaped P := by
  cases m <;> exact .variant (h _ (by simp [Message.shapes, Message.shape])) (by simp)

theorem task (h : ∀ s ∈ Task.shapes, P s) (t : Task) : t.toJson.Shaped P := by
  cases t <;> exact .variant (h _ (by simp [Task.shapes])) (by simp)

theorem receiver (h : ∀ s ∈ Receiver.shapes, P s) (r : Receiver) : r.toJson.Shaped P := by
  cases r <;> exact .variant (h _ (by simp [Receiver.shapes])) (by simp)

theorem requestState (hlist : P RequestState.listShape) (hmanager : P RequestState.managerShape)
    (r : RequestState) : r.toJson.Shaped P := by
  cases r with
  | list => exact .variant hlist (by simp)
  | manager => exact .variant hmanager (by simp)

/-! ### Soups -/

/-- A table of channels has the shapes of its values: no channel is written like the key of a
shape. -/
theorem channelTable {ν : Type} {write : ν → Json} (h : ∀ v, (write v).Shaped P)
    (t : Table Channel ν) : (Channel.tableJson write t).Shaped P := by
  refine .obj ?_ ?_
  · intro m hm
    obtain ⟨e, -, rfl⟩ := List.mem_map.1 hm
    exact h e.2
  · intro s hs
    obtain ⟨e, -, he⟩ := List.mem_map.1 hs
    have hname : toString e.1 = "shape" := (Prod.mk.inj he).1
    have hkey : Nat.toDigits 10 e.1 = "shape".toList := by
      rw [← hname]
      exact Nat.toList_repr.symm
    have hdigits := Text.all_isDigit_toDigits e.1
    rw [hkey] at hdigits
    exact absurd hdigits (by decide)

theorem shared (hlist : P RequestState.listShape) (hmanager : P RequestState.managerShape)
    (g : Shared) : g.toJson.Shaped P :=
  .record (by simp [requestState hlist hmanager])

theorem choice (h : ∀ s ∈ Receiver.shapes, P s) (c : Choice Receiver) :
    (Choice.toJson c).Shaped P := by
  have harm (a : Arm Receiver) : (Arm.toJson a).Shaped P := .record (by simp [receiver h])
  exact .record (by simp [harm])

/-- A written soup has no other shapes than those of its messages, tasks and receivers, and of its
requests. -/
theorem instanceSoup (s : InstanceSoup) :
    (InstanceSoup.toJson s).Shaped (· ∈ InstanceSoup.shapes) := by
  have hmessages := message (P := (· ∈ InstanceSoup.shapes)) fun _ hs => by
    simp [InstanceSoup.shapes, hs]
  have htasks := task (P := (· ∈ InstanceSoup.shapes)) fun _ hs => by
    simp [InstanceSoup.shapes, hs]
  have hchoices := choice (P := (· ∈ InstanceSoup.shapes)) fun _ hs => by
    simp [InstanceSoup.shapes, hs]
  have hshared := shared (P := (· ∈ InstanceSoup.shapes)) (by simp [InstanceSoup.shapes])
    (by simp [InstanceSoup.shapes])
  have hqueues := channelTable fun q => shaped_arr_map (l := q) hmessages
  exact .record (by simp [htasks, hchoices, hshared, hqueues, channelTable])

end Json.Shaped

end Perdure
