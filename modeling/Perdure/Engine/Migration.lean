import Perdure.Checkpoint
import Perdure.Engine.Host

/-!
# Migration of outstanding requests

Older states keep outstanding requests in a list, newer ones in a manager.  A migration renews the
states of all active instances of some processes.  An instance that cannot be renewed stays as it
is and does not stop the others.

## Main definitions

* `Migration.ofInstance` — bring the state of one instance up to date.
* `Migration.run` — the same for all; did every instance go well?
-/

namespace Perdure

/-- Why the state of an instance is not renewed. -/
inductive MigrationError where
  | store (source : StoreError)
  | corruptState (source : CorruptState)
  /-- Two requests of one conversation. -/
  | conflictingRequest (source : ConflictingRequest)
deriving DecidableEq, Repr

namespace Migration

/-- What the migration is called. -/
def name : String := "request-manager"

/-- The bytes of a state after migration; `none` if they are up to date. -/
def renewed? (remap : RemapTable) (bytes : List UInt8) :
    Except MigrationError (Option (List UInt8)) := do
  let soup ← (Checkpoint.read remap bytes).mapError .corruptState
  if soup.global.requests.isCurrent then pure none
  else do
    let requests ← soup.global.requests.convert.mapError .conflictingRequest
    pure (some (Checkpoint.write { soup with global := { soup.global with requests } }))

/-- Bring the state of one instance up to date, if it has a state that is not. -/
def ofInstance (remap : RemapTable) (id : InstanceId) : Access MigrationError Unit := do
  match ← (Access.state id).relabel .store with
  | none => pure ()
  | some bytes => match ← Access.ofExcept (renewed? remap bytes) with
    | none => pure ()
    | some bytes => (Access.change (.setState id bytes)).relabel .store

/-- Did the work come to its end?  What it did stays done in any case. -/
def succeeds {ε α : Type} (work : Access ε α) (h : Host) : Bool × Host :=
  match work.perform h with
  | (.ok _, h) => (true, h)
  | (.error _, h) => (false, h)

/-- Do several pieces of work whatever becomes of each; did all go well? -/
def each {α : Type} (work : α → Host → Bool × Host) : List α → Host → Bool × Host
  | [], h => (true, h)
  | a :: rest, h =>
    let (good, h) := work a h
    let (others, h) := each work rest h
    (good && others, h)

/-- Bring the states of the active instances of one process up to date. -/
def ofProcess (process : String × RemapTable) (h : Host) : Bool × Host :=
  match (Access.active process.1).perform h with
  | (.error _, h) => (false, h)
  | (.ok ids, h) => each (fun id => succeeds (ofInstance process.2 id)) ids h

/-- Bring the states of the active instances of several processes up to date. -/
def run (processes : List (String × RemapTable)) : Host → Bool × Host := each ofProcess processes

end Migration

end Perdure
