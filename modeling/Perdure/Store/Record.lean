import Perdure.Instance.Json
import Perdure.Store.InstanceId

/-!
# Instance records

What a store keeps of an instance.  A record is active until its instance completes, faults or
breaks; the bytes of its state are dropped on completion and kept when it breaks.

## Main definitions

* `Status` — how an instance stands.
* `Record` — what is stored of an instance.
-/

namespace Perdure

/-- How an instance stands. -/
inductive Status where
  | active
  | completed
  | faulted
  /-- It failed outside of fault handling, or stopped without completing. -/
  | broken
deriving DecidableEq, Repr, Inhabited

namespace Status

/-- Is this the end of an instance? -/
def isFinal : Status → Bool
  | .active => false
  | _ => true

/-- The written name. -/
def text : Status → String
  | .active => "active"
  | .completed => "completed"
  | .faulted => "faulted"
  | .broken => "broken"

/-- The name shown to a user. -/
def title : Status → String
  | .active => "Active"
  | .completed => "Completed"
  | .faulted => "Faulted"
  | .broken => "Broken"

/-- The status with the given written name. -/
def ofText? : String → Option Status
  | "active" => some .active
  | "completed" => some .completed
  | "faulted" => some .faulted
  | "broken" => some .broken
  | _ => none

/-- The written form. -/
def toJson (s : Status) : Json := .str s.text

/-- Read a status: its name, or an object that holds nothing under the name. -/
def ofJson? : Json → Option Status
  | .str s => ofText? s
  | .obj [(s, .null)] => ofText? s
  | _ => none

end Status

/-- What is stored of an instance. -/
structure Record where
  instanceId : InstanceId
  processId : String
  status : Status := .active
  /-- The bytes of the instance's soup. -/
  state : Option (List UInt8)
  /-- Why the instance faulted or broke. -/
  fault : Option String := none
  createdAt : Instant
  completedAt : Option Instant := none
deriving DecidableEq, Repr, Inhabited

namespace Record

/-- Is this an active instance of a process? -/
def isActiveOf (r : Record) (processId : String) : Bool :=
  r.processId = processId && r.status = .active

/-- The written form, which leaves the state out. -/
def toJson (r : Record) : Json := Json.record
  [Json.field "instance_id" (.str r.instanceId.text), Json.field "process_id" (.str r.processId),
   Json.field "status" r.status.toJson, Json.field "fault" (.ofOption .str r.fault),
   Json.field "created_at" r.createdAt.toJson,
   Json.field "completed_at" (.ofOption Instant.toJson r.completedAt)]

/-- Read a record, which then holds no state. -/
def ofJson? (v : Json) : Option Record := do
  match ← v.slots? ["instance_id", "process_id", "status", "fault", "created_at",
      "completed_at"] with
  | [instanceId, processId, status, fault, createdAt, completedAt] =>
    pure { instanceId := ← instanceId.required fun v => v.string?.bind InstanceId.ofText?
           processId := ← processId.required Json.string?
           status := ← status.required Status.ofJson?
           state := none
           fault := ← fault.optional Json.string?
           createdAt := ← createdAt.required Instant.ofJson?
           completedAt := ← completedAt.optional Instant.ofJson? }
  | _ => none

end Record

end Perdure
