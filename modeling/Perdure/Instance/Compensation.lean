import Perdure.Definition.Activity

/-!
# Compensation handlers

A scope that completes without fault leaves its compensation behind.  The handlers travel upwards
with the completion messages and are kept as a set, in the order of the scope instances.
-/

namespace Perdure

open Std

/-- The compensation that a completed scope leaves behind. -/
structure Compensation where
  /-- Which run of the scope. -/
  scopeInstance : Nat
  scope : ActivityId
  /-- The activity that undoes the scope. -/
  activity : ActivityId
deriving DecidableEq, Repr

namespace Compensation

/-- Handlers in the order of their parts. -/
instance : Ord Compensation :=
  ⟨compareLex (compareOn (·.scopeInstance))
    (compareLex (compareOn (·.scope)) (compareOn (·.activity)))⟩

instance : TransOrd Compensation :=
  inferInstanceAs (TransCmp (compareLex (compareOn Compensation.scopeInstance)
    (compareLex (compareOn Compensation.scope) (compareOn Compensation.activity))))

instance : LawfulEqOrd Compensation where
  eq_of_compare {a b} h := by
    obtain ⟨hi, h⟩ := eq_and_eq_of_compareLex h
    obtain ⟨hs, hx⟩ := eq_and_eq_of_compareLex h
    have hi : a.scopeInstance = b.scopeInstance := eq_of_compare_eq hi
    have hs : a.scope = b.scope := eq_of_compare_eq hs
    have hx : a.activity = b.activity := eq_of_compare_eq hx
    cases a; cases b; simp_all

end Compensation

/-- A set of compensation handlers. -/
abbrev Compensations := KeySet Compensation

end Perdure
