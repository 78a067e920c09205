import Perdure.Store.Record

/-!
# The store of instances

A store holds one record per instance.  It is changed by four kinds of changes only, each of which
concerns one record.

## Main definitions

* `Store` — the records by the names of their instances.
* `StoreError` — why a store refuses.
* `Change`, `Change.apply` — what can be changed, and how.
* `Store.record`, `Store.active` — what can be asked.

## Main results

* `Store.get?_insert` — an insertion is seen at its own name and nowhere else.
-/

namespace Perdure

/-- Why a store refuses. -/
inductive StoreError where
  | notFound (id : InstanceId)
  | alreadyExists (id : InstanceId)
  /-- The medium failed. -/
  | unavailable
deriving DecidableEq, Repr

/-- The wording of a refusal. -/
def StoreError.message : StoreError → String
  | .notFound id => s!"instance not found: {id.text}"
  | .alreadyExists id => s!"instance already exists: {id.text}"
  | .unavailable => "database error"

/-- The records of all instances. -/
structure Store where
  records : Table InstanceId Record
  /-- Each record stands at the name of its instance. -/
  keyed : ∀ e ∈ records.entries, e.2.instanceId = e.1
deriving DecidableEq

namespace Store

/-- The store without records. -/
def empty : Store := ⟨.empty, fun _ h => by simp [Table.empty] at h⟩

instance : EmptyCollection Store := ⟨empty⟩

instance : Inhabited Store := ⟨empty⟩

/-- The record of an instance. -/
def get? (s : Store) (id : InstanceId) : Option Record := s.records.get? id

/-- All records, in the order of their names. -/
def toList (s : Store) : List Record := s.records.values

/-- A record that is put in at its own name leaves each record at its own name. -/
theorem keyed_insert (s : Store) (r : Record) :
    ∀ e ∈ (s.records.insert r.instanceId r).entries, e.2.instanceId = e.1 := by
  intro e he
  rcases Table.mem_place he with rfl | he
  · rfl
  · exact s.keyed e he

/-- Put in a record, in exchange for the one of the same instance. -/
def insert (s : Store) (r : Record) : Store :=
  ⟨s.records.insert r.instanceId r, s.keyed_insert r⟩

@[simp] theorem get?_empty (id : InstanceId) : empty.get? id = none := rfl

/-- An insertion is seen at its own name and nowhere else. -/
@[simp] theorem get?_insert (s : Store) (r : Record) (id : InstanceId) :
    (s.insert r).get? id = if id = r.instanceId then some r else s.get? id := by
  simp [get?, insert]

/-- The record of an instance, or a refusal. -/
def record (s : Store) (id : InstanceId) : Except StoreError Record :=
  match s.get? id with
  | some r => .ok r
  | none => .error (.notFound id)

/-- The names of the active instances of a process, oldest first; instances of one age are in the
order of their names. -/
def active (s : Store) (processId : String) : List InstanceId :=
  let found := s.toList.filter (·.isActiveOf processId)
  (found.mergeSort fun a b => a.createdAt.isAtMost b.createdAt).map (·.instanceId)

end Store

/-- What can be changed in a store. -/
inductive Change where
  /-- Add the record of a new instance. -/
  | create (r : Record)
  /-- Replace the bytes of the state. -/
  | setState (id : InstanceId) (state : List UInt8)
  /-- Finish an instance: its state is dropped. -/
  | complete (id : InstanceId) (status : Status) (fault : Option String) (at_ : Instant)
  /-- Mark an instance that failed; its state is kept. -/
  | markBroken (id : InstanceId) (reason : String)
deriving DecidableEq, Repr

namespace Change

/-- The instance that a change concerns. -/
def target : Change → InstanceId
  | .create r => r.instanceId
  | .setState id _ | .complete id .. | .markBroken id _ => id

/-- The record after a change of an instance that is there already. -/
def update (r : Record) : Change → Record
  | .create _ => r
  | .setState _ state => { r with state := some state }
  | .complete _ status fault at_ => { r with status, fault, state := none, completedAt := some at_ }
  | .markBroken _ reason => { r with status := .broken, fault := some reason }

/-- The store after a change, or a refusal. -/
def apply (s : Store) (c : Change) : Except StoreError Store :=
  match c with
  | .create r => match s.get? r.instanceId with
    | some _ => .error (.alreadyExists r.instanceId)
    | none => .ok (s.insert r)
  | c => (s.record c.target).map fun r => s.insert (c.update r)

end Change

end Perdure
