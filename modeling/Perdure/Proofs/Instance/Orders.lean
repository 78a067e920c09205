import Perdure.Proofs.Instance.Kin

/-!
# Orders and faults

How parts pass on the order to stop at once, and what becomes of a fault.  A part that has passed
the order on starts nothing any more.  A fault is reported at once by everything but scopes; a scope
keeps it, tells all that it waits for to stop, and reports the fault in the end.

## Main definitions

* `Part.Halted`, `Part.Stopping` — parts that start nothing any more.
* `Part.Faulty` — scopes with a fault to report.

## Main results

* `Yields.stopping_heir`, `Yields.stopping_told` — who is told to stop goes on stopping.
* `Yields.halted_heir` — the order reaches all that is awaited.
* `Yields.calm_heir`, `Yields.calm_sent` — nobody stops without a reason.
* `Yields.keeps_fault`, `Yields.takes_fault` — no fault is lost.
-/

namespace Perdure

namespace Part

/-- A part that has passed on the order to stop at once. -/
def Halted : Part → Prop
  | .ready (.sequenceStep sequence) | .waiting (.sequenceWaiting sequence _) =>
    sequence.terminated = true
  | .ready (.scopeActive scope) | .waiting (.scopeWaiting scope) => scope.terminating = true
  | _ => False

/-- A part that starts nothing any more: it has passed on the order to stop at once, or it only
waits for the end of a firing. -/
def Stopping : Part → Prop
  | .ready (.alarmActive _ _ stopped) | .waiting (.alarmActive _ _ stopped) => stopped = true
  | P => P.Halted

/-- A scope that has a fault to report. -/
def Faulty : Part → Prop
  | .ready (.scopeActive scope) | .waiting (.scopeWaiting scope) => scope.fault.isSome = true
  | _ => False

end Part

/-- A fault is reported on the channel, or kept by what goes on. -/
def Products.CarriesFault (p : Products) (c : Channel) : Prop :=
  (∃ Q, p.heir = some Q ∧ Q.Faulty) ∨
    p.heir = none ∧ ∃ fault cs, p.sent = [(c, .completed (some fault) cs)]

namespace Yields

variable {s : Script} {now : Instant} {n k : Nat} {P : Part} {taken : Option (Channel × Message)}
  {p : Products} {consumed : List Link}

/-! ### Orders -/

/-- A part that is stopping goes on stopping and starts nothing. -/
theorem stopping_heir (h : Yields s now n k P taken p) (hP : P.Stopping) {Q : Part}
    (hQ : p.heir = some Q) : Q.Stopping ∧ p.kids = [] := by
  cases h <;> cases hQ
  case childStarted ht =>
    have ht' : _ = true := hP
    rw [ht] at ht'
    cases ht'
  case sequenceTold | scopeTold | bodyFaulted | alarmFaulted | firingTold | firingStopped =>
    exact ⟨rfl, rfl⟩
  case sequenceStarted | scopeStarted | alarmFired | firingAgain => cases hP
  -- what goes on in any other way stops as it did, and starts nothing
  all_goals exact ⟨hP, rfl⟩

/-- A part that is told to stop at once stops, and passes the order on unless it has done so. -/
theorem stopping_told (h : Yields s now n k P taken p) {c : Channel}
    (ht : taken = some (c, .terminate)) {Q : Part} (hQ : p.heir = some Q) :
    Q.Stopping ∧ (P.Halted ∨ ∀ u ∈ Q.awaits, (u.termination, .terminate) ∈ p.sent) := by
  cases h <;> cases ht <;> cases hQ
  case sequenceTold | firingTold =>
    refine ⟨rfl, .inr ?_⟩
    intro u hu
    rw [List.mem_singleton.1 hu]
    exact List.mem_singleton_self _
  case scopeTold scope _ =>
    refine ⟨rfl, ?_⟩
    by_cases hh : scope.terminating
    · exact .inl hh
    · exact .inr fun u hu => ScopeRun.orders_complete scope hh hu
  all_goals contradiction

/-- Who has just passed on the order to stop has told all that it waits for. -/
theorem halted_heir (h : Yields s now n k P taken p) {Q : Part} (hQ : p.heir = some Q)
    (hh : Q.Halted) : P.Halted ∨ ∀ u ∈ Q.awaits, (u.termination, .terminate) ∈ p.sent := by
  cases h <;> cases hQ
  case sequenceTold =>
    refine .inr ?_
    intro u hu
    rw [List.mem_singleton.1 hu]
    exact List.mem_singleton_self _
  case scopeTold scope _ _ =>
    by_cases ht : scope.terminating
    · exact .inl ht
    · exact .inr fun u hu => ScopeRun.orders_complete scope ht hu
  case bodyFaulted scope _ _ _ _ _ _ _ _ =>
    by_cases ht : scope.terminating
    · exact .inl ht
    · exact .inr fun u hu => ScopeRun.orders_complete { scope with body := none } ht hu
  case alarmFaulted scope _ marked _ _ _ _ _ _ _ =>
    by_cases ht : scope.terminating
    · exact .inl ht
    · exact .inr fun u hu =>
        ScopeRun.orders_complete { scope with handlers := marked } ht hu
  case sequenceStarted | scopeStarted => cases hh
  -- what goes on in any other way had passed the order on before
  all_goals exact .inl hh

/-- What was just started has passed on nothing. -/
theorem kid_unhalted (h : Yields s now n k P taken p) {t : Task} (ht : t ∈ p.kids) :
    ¬ (Part.ready t).Halted := by
  obtain ⟨_, _, _, rfl⟩ | ⟨_, _, _, rfl⟩ := h.kid_cases ht <;> exact id

/-- Nobody passes on the order to stop without being told or having a fault to report. -/
theorem calm_heir (h : Yields s now n k P taken p) {Q : Part} (hQ : p.heir = some Q)
    (hh : Q.Halted) : P.Halted ∨ (∃ c, taken = some (c, .terminate)) ∨ Q.Faulty := by
  cases h <;> cases hQ
  case sequenceTold | scopeTold => exact .inr (.inl ⟨_, rfl⟩)
  case bodyFaulted | alarmFaulted => exact .inr (.inr (ScopeRun.faulty_absorb (.inr rfl) ∅))
  case sequenceStarted | scopeStarted => cases hh
  all_goals exact .inl hh

/-- Nobody orders others to stop without being told or having a fault to report. -/
theorem calm_sent (h : Yields s now n k P taken p) {c : Channel} (hm : (c, .terminate) ∈ p.sent) :
    (∃ c, taken = some (c, .terminate)) ∨ ∃ Q, p.heir = some Q ∧ Q.Faulty := by
  cases h
  case sequenceTold | firingTold | scopeTold => exact .inl ⟨_, rfl⟩
  case bodyFaulted | alarmFaulted => exact .inr ⟨_, rfl, ScopeRun.faulty_absorb (.inr rfl) ∅⟩
  case bodyDone =>
    obtain ⟨u, -, -, he⟩ := ScopeRun.mem_softOrders hm
    cases he
  -- the one message is a report, or asks for compensation
  case emptyDone | thrown | waitFaulted | waitPassed | waitOver | sequenceDone | sequenceFaulted |
      sequenceAsked | scopeDone | scopeAsked | alarmUntimed | alarmOver | firingFaulted |
      firingLast | firingUntimed | firingAsked => cases List.mem_singleton.1 hm
  -- no message is sent
  all_goals cases hm

/-! ### Faults -/

/-- The fault of a scope is kept until the scope reports it. -/
theorem keeps_fault (h : Yields s now n k P taken p) (hf : P.Faulty) : p.CarriesFault P.home := by
  cases h
  case scopeDone scope left _ _ =>
    obtain ⟨fault, hf⟩ := Option.isSome_iff_exists.1 hf
    unfold Products.CarriesFault
    rw [hf]
    exact .inr ⟨rfl, _, _, rfl⟩
  case scopeWaits | scopeTold | scopeAsked => exact .inl ⟨_, rfl, hf⟩
  case bodyFaulted | bodyDone | alarmFaulted | alarmDone =>
    exact .inl ⟨_, rfl, ScopeRun.faulty_absorb (.inl hf) ∅⟩
  all_goals cases hf

/-- A fault that is taken is reported at once, or kept by a scope. -/
theorem takes_fault (h : Yields s now n k P taken p) {c : Channel} {fault : Fault}
    {cs : Compensations} (ht : taken = some (c, .completed (some fault) cs)) :
    p.CarriesFault P.home := by
  cases h <;> cases ht
  case sequenceFaulted | firingFaulted => exact .inr ⟨rfl, _, _, rfl⟩
  case bodyFaulted | alarmFaulted => exact .inl ⟨_, rfl, ScopeRun.faulty_absorb (.inr rfl) ∅⟩
  case sequenceNext hm | bodyDone hm | alarmDone hm | firingLast hm | firingUntimed hm |
      firingAgain hm => cases hm
  case waitOver hm | alarmOver hm => rcases hm with h | h | h <;> cases h

end Yields

end Perdure
