import Perdure.Store.Call

/-!
# Ledgers

A store kept as rows of columns: a row is added once, found by its name, changed in place and never
moved.  Times are columns of text, so the age of an instance is told by the order of texts.

## Main definitions

* `Row`, `Ledger` — the rows in the order they were added.
* `Row.ofRecord`, `Row.record?` — what a row holds of a record.
* `Ledger.respond` — the answer to a call, and the ledger after it.
-/

namespace Perdure

/-- An instant as a column: its written form, with the offset as numbers. -/
def Instant.column (t : Instant) : String := String.ofList (t.text.toList.dropLast) ++ "+00:00"

/-- A record as columns. -/
structure Row where
  instanceId : InstanceId
  processId : String
  status : String
  state : Option (List UInt8)
  fault : Option String
  createdAt : String
  completedAt : Option String
deriving DecidableEq, Repr

namespace Row

/-- The columns of a record. -/
def ofRecord (r : Record) : Row where
  instanceId := r.instanceId
  processId := r.processId
  status := r.status.text
  state := r.state
  fault := r.fault
  createdAt := r.createdAt.column
  completedAt := r.completedAt.map Instant.column

/-- The record that columns hold. -/
def record? (row : Row) : Option Record := do
  pure { instanceId := row.instanceId
         processId := row.processId
         status := ← Status.ofText? row.status
         state := row.state
         fault := row.fault
         createdAt := ← Instant.ofStored? row.createdAt
         completedAt := ← row.completedAt.elim (some none) fun t =>
           (Instant.ofStored? t).map some }

/-- The columns after a change of the row's instance. -/
def update (row : Row) : Change → Row
  | .create _ => row
  | .setState _ state => { row with state := some state }
  | .complete _ status fault at_ =>
    { row with status := status.text, fault, state := none, completedAt := some at_.column }
  | .markBroken _ reason => { row with status := Status.broken.text, fault := some reason }

end Row

/-- The rows in the order they were added. -/
structure Ledger where
  rows : List Row
  /-- A name has one row at most. -/
  distinct : (rows.map (·.instanceId)).Nodup
deriving DecidableEq

namespace Ledger

/-- The ledger without rows. -/
def empty : Ledger := ⟨[], .nil⟩

/-- The row of an instance. -/
def row? (l : Ledger) (id : InstanceId) : Option Row := l.rows.find? (·.instanceId = id)

/-- Add a row, unless its name has one already. -/
def add (l : Ledger) (row : Row) : Option Ledger :=
  if h : row.instanceId ∈ l.rows.map (·.instanceId) then none
  else some ⟨l.rows ++ [row], by
    rw [List.map_append]
    exact List.nodup_append.2 ⟨l.distinct, by simp, by simpa using h⟩⟩

/-- Change the row of an instance in place. -/
def modify (l : Ledger) (c : Change) : Ledger :=
  ⟨l.rows.map fun row => if row.instanceId = c.target then row.update c else row, by
    have h : ∀ row : Row, (row.update c).instanceId = row.instanceId := fun row => by
      cases c <;> rfl
    have : (fun row : Row => (if row.instanceId = c.target then row.update c else row).instanceId)
        = (·.instanceId) := funext fun row => by
      split
      · exact h row
      · rfl
    simpa [List.map_map, Function.comp_def, this] using l.distinct⟩

/-- The ledger after a change, or a refusal. -/
def apply (l : Ledger) (c : Change) : Except StoreError Ledger :=
  match c with
  | .create r => match l.add (.ofRecord r) with
    | some l => .ok l
    | none => .error (.alreadyExists r.instanceId)
  | c => if (l.row? c.target).isSome then .ok (l.modify c) else .error (.notFound c.target)

/-- The names of the active instances of a process, in the order of their ages as text. -/
def active (l : Ledger) (processId : String) : List InstanceId :=
  let found := l.rows.filter fun row =>
    row.processId = processId && row.status = Status.active.text
  (found.mergeSort fun a b => (compare a.createdAt b.createdAt).isLE).map (·.instanceId)

/-- The answer to a call, and the ledger after it. -/
def respond (l : Ledger) : StoreCall → StoreAnswer × Ledger
  | .change c => match l.apply c with
    | .ok l => (.done, l)
    | .error e => (.refused e, l)
  | .record id => match l.row? id with
    | none => (.refused (.notFound id), l)
    | some row => match row.record? with
      | some r => (.record r, l)
      | none => (.refused .unavailable, l)
  | .state id => match l.row? id with
    | none => (.refused (.notFound id), l)
    | some row => (.state row.state, l)
  | .active processId => (.active (l.active processId), l)

end Ledger

end Perdure
