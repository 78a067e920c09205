import Perdure.Store.Basic

/-!
# Calls of a store

Every use of a store is a call with an answer, whatever keeps the records.

## Main definitions

* `StoreCall`, `CallKind` — what a store is called for.
* `StoreAnswer` — what comes back.
* `Store.respond` — the answer to a call, and the store after it.
-/

namespace Perdure

/-- What a store is called for. -/
inductive StoreCall where
  | change (c : Change)
  | record (id : InstanceId)
  | state (id : InstanceId)
  | active (processId : String)
deriving DecidableEq, Repr

/-- The kinds of calls. -/
inductive CallKind where
  | create
  | record
  | state
  | setState
  | complete
  | markBroken
  | active
deriving DecidableEq, Repr

/-- The kind of the call that makes a change. -/
def Change.kind : Change → CallKind
  | .create _ => .create
  | .setState .. => .setState
  | .complete .. => .complete
  | .markBroken .. => .markBroken

/-- The kind of a call. -/
def StoreCall.kind : StoreCall → CallKind
  | .change c => c.kind
  | .record _ => .record
  | .state _ => .state
  | .active _ => .active

/-- What comes back from a call. -/
inductive StoreAnswer where
  | done
  | record (r : Record)
  | state (bytes : Option (List UInt8))
  | active (ids : List InstanceId)
  | refused (e : StoreError)
deriving DecidableEq, Repr

/-- The answer to a call, and the store after it. -/
def Store.respond (s : Store) : StoreCall → StoreAnswer × Store
  | .change c => match c.apply s with
    | .ok s => (.done, s)
    | .error e => (.refused e, s)
  | .record id => match s.record id with
    | .ok r => (.record r, s)
    | .error e => (.refused e, s)
  | .state id => match s.record id with
    | .ok r => (.state r.state, s)
    | .error e => (.refused e, s)
  | .active processId => (.active (s.active processId), s)

end Perdure
