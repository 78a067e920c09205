import Perdure.Store.InstanceId
import Perdure.Table

/-!
# Instance locks

Whoever loads, changes and stores the state of an instance holds the lock of the instance all the
while.  The lock of an instance that came to its end is forgotten: those who hold it or wait for it
keep it, and later ones get a new lock.

## Main definitions

* `Locks` — the lock of each instance, and which locks are held.
* `Locks.ticket`, `acquire?`, `release`, `forget` — what is done with locks.
-/

namespace Perdure

/-- A lock. -/
abbrev LockId := Nat

/-- The lock of each instance, and which locks are held. -/
structure Locks where
  /-- The lock that is handed out next. -/
  next : LockId := 0
  /-- The locks of instances that are not forgotten. -/
  entries : Table InstanceId LockId := ∅
  held : KeySet LockId := ∅
deriving DecidableEq, Repr

namespace Locks

/-- The lock of an instance; an instance without one gets a new lock. -/
def ticket (l : Locks) (id : InstanceId) : LockId × Locks :=
  match l.entries.get? id with
  | some lock => (lock, l)
  | none => (l.next, { l with next := l.next + 1, entries := l.entries.insert id l.next })

/-- Take a lock, unless somebody holds it. -/
def acquire? (l : Locks) (lock : LockId) : Option Locks :=
  if l.held.contains lock then none else some { l with held := l.held.add lock }

/-- Give a lock back. -/
def release (l : Locks) (lock : LockId) : Locks := { l with held := l.held.erase lock }

/-- Forget the lock of an instance. -/
def forget (l : Locks) (id : InstanceId) : Locks := { l with entries := l.entries.erase id }

end Locks

end Perdure
