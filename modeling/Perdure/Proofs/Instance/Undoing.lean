import Perdure.Proofs.Instance.Cargo
import Perdure.Proofs.Instance.Runs
import Perdure.Proofs.Table

/-!
# What is left to compensate

A scope that succeeds leaves a handler behind if its definition names a compensation.  The handlers
travel upwards with the reports, through sequences, scopes and alarms, past faults, orders to stop
and new firings.  None gets lost on the way, and none comes into being elsewhere: when the root has
reported, its report bears the handlers of all scopes that have succeeded, and no others.

## Main definitions

* `Course.Succeeded` — a run has reported that it is complete, without a fault.
* `Script.HandlerOf` — the handler that a run leaves behind when it succeeds.
* `Compensation.cargo` — a handler on its way upwards.

## Main results

* `Yields.passes_on` — a reaction passes on what it gets, and adds the handler of a scope that
  succeeds.
* `Script.Driven.carries_handler_iff` — the handlers that are under way or have arrived.
* `Script.WellDriven.compensates_exactly` — the handlers in the report of the root.
-/

namespace Perdure

/-! ### Handlers -/

/-- The handler that a run leaves behind when it succeeds: its definition is a scope that names a
compensation. -/
def Script.HandlerOf (s : Script) (run : Run) (x : Compensation) : Prop :=
  ∃ a body alarms activity, s.activity run.activity = .ok a ∧
    a.kind = .scope body alarms (some activity) ∧ x = ⟨run.id, run.activity, activity⟩

/-- A run has reported that it is complete, without a fault. -/
def Course.Succeeded (c : Course) (run : Run) : Prop :=
  ∃ r ∈ c.log, r.part.run? = some run ∧ ∃ cs, .completed none cs ∈ r.sentTo run.parent

/-- What a part has gathered so far. -/
def Part.compensations : Part → Compensations
  | .ready (.sequenceStep sequence) | .waiting (.sequenceWaiting sequence _) =>
    sequence.compensations
  | .ready (.scopeActive scope) | .waiting (.scopeWaiting scope) => scope.compensations
  | .ready (.alarmStart alarm) | .ready (.alarmWait alarm _) | .ready (.alarmFire alarm)
  | .ready (.alarmActive alarm _ _) | .waiting (.alarmWaiting alarm _)
  | .waiting (.alarmActive alarm _ _) => alarm.compensations
  | _ => ∅

/-- A handler on its way upwards. -/
def Compensation.cargo (x : Compensation) : Cargo where
  held P := Table.contains P.compensations x = true
  borne m := ∃ fault cs, m = .completed fault cs ∧ Table.contains cs x = true
  isCompleted := by
    rintro _ ⟨fault, cs, rfl, -⟩
    rfl

namespace Compensation

variable (x : Compensation)

theorem not_mem_empty : ¬ Table.contains (∅ : Compensations) x = true := Bool.false_ne_true

@[simp] theorem borne_completed (fault : Option Fault) (cs : Compensations) :
    x.cargo.borne (.completed fault cs) ↔ Table.contains cs x = true := by
  constructor
  · rintro ⟨_, _, he, hx⟩
    cases he
    exact hx
  · exact fun hx => ⟨fault, cs, rfl, hx⟩

/-- A message bears what it reports. -/
theorem borne_iff_of_report {m : Message} {fault : Option Fault} {cs : Compensations}
    (hm : m.report? = some (fault, cs)) : x.cargo.borne m ↔ Table.contains cs x = true := by
  cases m <;> cases hm
  · exact x.borne_completed _ _
  all_goals
    refine iff_of_false ?_ x.not_mem_empty
    rintro ⟨_, _, he, -⟩
    cases he

/-- A part that takes a report adds what the report bears to what it has gathered. -/
theorem in_report {P : Part} {c : Channel} {m : Message} {fault : Option Fault}
    {cs : Compensations} (hm : m.report? = some (fault, cs)) :
    x.cargo.In P (some (c, m)) ↔ Table.contains (P.compensations.union cs) x = true := by
  rw [Cargo.in_some, x.borne_iff_of_report hm, KeySet.contains_union]
  exact Iff.rfl

end Compensation

/-! ### What a reaction passes on -/

/-- The reaction is the report that a run is complete, without a fault, and the run leaves a
handler behind. -/
def Products.Leaves (s : Script) (P : Part) (p : Products) (x : Compensation) : Prop :=
  p.heir = none ∧ (∃ cs, p.sent = [(P.home, .completed none cs)]) ∧
    ∃ run, P.run? = some run ∧ s.HandlerOf run x

/-- The handler that a scope leaves behind when it reports. -/
theorem Script.leftBehind_eq_some_iff {s : Script} {scope : ScopeRun} {left : Option Compensation}
    (h : s.leftBehind scope = .ok left) (x : Compensation) :
    left = some x ↔ scope.fault = none ∧ s.HandlerOf scope.run x := by
  unfold leftBehind at h
  split at h
  · -- a scope with a fault leaves nothing behind
    next hf =>
    cases h
    refine iff_of_false nofun ?_
    rintro ⟨hnone, -⟩
    rw [hnone] at hf
    cases hf
  next hf =>
  have hnone : scope.fault = none := by simpa using hf
  rw [and_iff_right hnone]
  cases ha : s.activity scope.run.activity with
  | error e =>
    rw [ha] at h
    cases h
  | ok a =>
    rw [ha, Turn.ok_bind] at h
    split at h
    · next body alarms activity hk =>
      cases h
      -- the script has one activity of that number, so both readings of its kind agree
      constructor
      · rintro ⟨⟩
        exact ⟨a, body, alarms, activity, ha, hk, rfl⟩
      · rintro ⟨a', _, _, _, ha', hk', rfl⟩
        rw [ha] at ha'
        cases ha'
        rw [hk] at hk'
        cases hk'
        rfl
    · next hk =>
      cases h
      refine iff_of_false nofun ?_
      rintro ⟨a', body, alarms, activity, ha', hk', -⟩
      rw [ha] at ha'
      cases ha'
      exact hk body alarms activity hk'

/-- Only a scope has a handler. -/
theorem Script.HandlerOf.exists_scope {s : Script} {run : Run} {x : Compensation}
    (h : s.HandlerOf run x) {a : Activity} (ha : s.activity run.activity = .ok a) :
    ∃ body alarms activity, a.kind = .scope body alarms (some activity) := by
  obtain ⟨b, body, alarms, activity, hb, hk, -⟩ := h
  rw [ha] at hb
  cases hb
  exact ⟨body, alarms, activity, hk⟩

namespace Yields

variable {s : Script} {now : Instant} {n k : Nat} {P : Part} {taken : Option (Channel × Message)}
  {p : Products}

/-- Only a scope leaves a handler behind. -/
theorem exists_scope_of_leaves (h : Yields s now n k P taken p) (hP : P.Apt s) {x : Compensation}
    (hx : p.Leaves s P x) : ∃ scope, P = .ready (.scopeActive scope) := by
  obtain ⟨hn, -, run, hrun, hx⟩ := hx
  -- whatever else reports is complete has a definition that is no scope
  have hkind : (∃ scope, P = .ready (.scopeActive scope)) ∨ ∃ a, s.activity run.activity = .ok a ∧
      ∀ body alarms compensation, a.kind ≠ .scope body alarms compensation := by
    cases h <;> cases hn <;> cases hrun
    case emptyDone hk ha | thrown hk ha | waitFaulted ha hk _ | waitPassed ha hk _ =>
      exact .inr ⟨_, ‹_›, by rw [‹Activity.kind _ = _›]; nofun⟩
    case waitOver | sequenceDone | sequenceFaulted =>
      obtain ⟨a, _, ha, hk⟩ := hP
      exact .inr ⟨a, ha, by rw [hk]; nofun⟩
    case scopeDone scope _ _ _ => exact .inl ⟨scope, rfl⟩
  apply hkind.resolve_right
  rintro ⟨a, ha, hne⟩
  obtain ⟨body, alarms, activity, hk⟩ := hx.exists_scope ha
  exact hne body alarms _ hk

/-- What was just started has gathered nothing. -/
theorem compensations_kid (h : Yields s now n k P taken p) {t : Task} (ht : t ∈ p.kids) :
    (Part.ready t).compensations = ∅ := by
  obtain ⟨_, _, _, rfl⟩ | ⟨_, _, _, rfl⟩ := h.kid_cases ht <;> rfl

/-- What goes on has gathered what the part had, and what it took. -/
theorem gathers (h : Yields s now n k P taken p) {Q : Part} (hQ : p.heir = some Q)
    (x : Compensation) :
    x.cargo.In P taken ↔ Table.contains Q.compensations x = true := by
  cases h <;> cases hQ
  case sequenceNext hm | bodyFaulted hm | bodyDone hm | alarmFaulted hm | alarmDone hm |
      firingAgain hm _ _ => exact x.in_report hm
  case sequenceTold | sequenceAsked | scopeTold | scopeAsked | alarmDue | firingTold |
      firingStopped | firingAsked => exact Cargo.in_of_not_completed rfl
  all_goals exact Cargo.in_none

/-- A scope that reports adds its handler, if it succeeds. -/
theorem contains_left_iff {scope : ScopeRun} {left : Option Compensation}
    (hl : s.leftBehind scope = .ok left) (x : Compensation) :
    Table.contains (left.elim scope.compensations scope.compensations.add) x = true ↔
      Table.contains scope.compensations x = true ∨
        scope.fault = none ∧ s.HandlerOf scope.run x := by
  rw [← Script.leftBehind_eq_some_iff hl x]
  cases left with
  | none => simp
  | some y =>
    rw [Option.elim_some, KeySet.contains_add, Bool.or_eq_true, decide_eq_true_eq,
      Option.some.injEq, or_comm, eq_comm (a := x)]

/-- A scope that reports leaves its handler behind if it succeeds. -/
theorem leaves_scopeActive_iff {scope : ScopeRun} {cs : Compensations} (hn : p.heir = none)
    (hs : p.sent = [(scope.run.parent, .completed scope.fault cs)]) (x : Compensation) :
    p.Leaves s (.ready (.scopeActive scope)) x ↔
      scope.fault = none ∧ s.HandlerOf scope.run x := by
  unfold Products.Leaves
  rw [hs]
  constructor
  · rintro ⟨-, ⟨_, he⟩, run, hrun, hx⟩
    cases hrun
    simp only [List.cons.injEq, Prod.mk.injEq, Message.completed.injEq] at he
    exact ⟨he.1.2.1, hx⟩
  · rintro ⟨hnone, hx⟩
    exact ⟨hn, ⟨cs, by rw [hnone]; rfl⟩, scope.run, rfl, hx⟩

/-- What is reported is what the part has gathered, and what it took, and the handler of a scope
that succeeds. -/
theorem reports (h : Yields s now n k P taken p) (hP : P.Apt s) (hn : p.heir = none)
    {fault : Option Fault} {cs : Compensations} (hs : p.sent = [(P.home, .completed fault cs)])
    (x : Compensation) :
    x.cargo.In P taken ∨ p.Leaves s P x ↔ Table.contains cs x = true := by
  have hother (hne : ¬ ∃ scope, P = .ready (.scopeActive scope)) :
      x.cargo.In P taken ∨ p.Leaves s P x ↔ x.cargo.In P taken :=
    or_iff_left fun hx => hne (h.exists_scope_of_leaves hP hx)
  cases h <;> cases hn <;> cases hs
  case scopeDone scope left _ hl =>
    rw [contains_left_iff hl x, Cargo.in_none, leaves_scopeActive_iff rfl rfl x]
    exact Iff.rfl
  all_goals rw [hother (by rintro ⟨scope, ⟨⟩⟩)]
  case sequenceFaulted hm | firingFaulted hm | firingLast hm | firingUntimed hm _ _ =>
    exact x.in_report hm
  case waitOver hm | alarmOver hm =>
    rcases hm with rfl | rfl | rfl <;> exact Cargo.in_of_not_completed rfl
  all_goals exact Cargo.in_none

/-- **A reaction passes on what it gets, and adds the handler of a scope that succeeds.** -/
theorem passes_on (h : Yields s now n k P taken p) (hP : P.Apt s) (x : Compensation) :
    x.cargo.Out p P.home ↔ x.cargo.In P taken ∨ p.Leaves s P x := by
  cases hQ : p.heir with
  | none =>
    obtain ⟨-, -, fault, cs, hs⟩ := h.sent_of_heir_eq_none hQ
    rw [h.reports hP hQ hs x, h.out_of_done x.cargo hQ hs, x.borne_completed]
  | some Q =>
    have hleaves : ¬ p.Leaves s P x := by
      rintro ⟨hn, -⟩
      rw [hQ] at hn
      cases hn
    rw [or_iff_left hleaves, h.gathers hQ x]
    refine h.out_of_heir x.cargo ?_ hQ
    intro t ht hx
    have hx : Table.contains (Part.ready t).compensations x = true := hx
    rw [h.compensations_kid ht] at hx
    exact x.not_mem_empty hx

end Yields

/-! ### Courses -/

namespace Move

variable {s : Script} {now : Instant} {c : Course} {r : Reduction} {p : Products}
  {consumed : List Link} (m : Move s now .root c.soup r p consumed)

include m

/-- The log knows who leaves a handler behind. -/
theorem leaves_iff {x : Compensation} : p.Leaves s r.part x ↔
    ∃ run, (r.part.run? = some run ∧ ∃ cs, .completed none cs ∈ r.sentTo run.parent) ∧
      s.HandlerOf run x := by
  constructor
  · rintro ⟨-, ⟨cs, hs⟩, run, hrun, hx⟩
    refine ⟨run, ⟨hrun, cs, ?_⟩, hx⟩
    rw [m.sentTo_eq, Soup.mem_addressed, hs, Part.home_of_run? hrun]
    exact List.mem_singleton_self _
  · rintro ⟨run, ⟨hrun, cs, hcs⟩, hx⟩
    obtain ⟨hn, -, hs⟩ := m.report_of_mem_sentTo hcs
    exact ⟨hn, ⟨cs, hs⟩, run, hrun, hx⟩

/-- What has succeeded after a reduction. -/
theorem succeeded_extend {run : Run} : (c.extend r).Succeeded run ↔
    c.Succeeded run ∨ r.part.run? = some run ∧ ∃ cs, .completed none cs ∈ r.sentTo run.parent := by
  unfold Course.Succeeded
  constructor
  · rintro ⟨q, hq, hrun⟩
    rcases List.mem_append.1 hq with hq | hq
    · exact .inl ⟨q, hq, hrun⟩
    · obtain rfl := List.mem_singleton.1 hq
      exact .inr hrun
  · rintro (⟨q, hq, hrun⟩ | hrun)
    · exact ⟨q, List.mem_append_left _ hq, hrun⟩
    · exact ⟨r, List.mem_append_right _ (List.mem_singleton_self r), hrun⟩

end Move

namespace Script

variable {s : Script} {c : Course}

/-- The handlers that parts have gathered or that wait in reports are those of the runs that have
succeeded so far. -/
theorem Driven.carries_handler_iff (h : s.Driven c) (x : Compensation) :
    c.soup.Carries .root x.cargo ↔ ∃ run, c.Succeeded run ∧ s.HandlerOf run x := by
  induction h with
  | start _ =>
    rw [carries_newSoup]
    refine iff_of_false x.not_mem_empty ?_
    rintro ⟨run, ⟨r, hr, -⟩, -⟩
    cases hr
  | inject h ha ih =>
    have hsend := h.orderly.family.carries_send (h.orderly.accepts ha) x.cargo
    exact hsend.trans ih
  | @reduce c now r h hr ih =>
    obtain ⟨p, consumed, m⟩ := h.orderly.family.exists_move hr
    -- what is aside stays aside, and what comes in goes out, with the handler that is left behind
    rw [Course.soup_extend, m.carries_after_iff, m.yields.passes_on (h.apt _ m.part_mem), ← or_assoc,
      ← m.carries_iff, ih, m.leaves_iff]
    simp only [m.succeeded_extend, or_and_right, exists_or]
  | drain _ ih => exact ih

/-- A run that has succeeded has started. -/
theorem Driven.mem_starts_of_succeeded (h : s.Driven c) {run : Run} (hrun : c.Succeeded run) :
    run ∈ c.starts := by
  obtain ⟨r, hr, hrun, -⟩ := hrun
  exact h.numbered.logged r hr run hrun

/-- Different runs leave different handlers behind, for a handler names the number of its run. -/
theorem Driven.handlers_distinct (h : s.Driven c) :
    c.starts.Pairwise fun a b => ∀ x, s.HandlerOf a x → ¬ s.HandlerOf b x := by
  have hids := (List.nodup_append.1 (List.map_append ▸ h.numbered.nodup)).1
  refine (List.pairwise_map.1 hids).imp fun {a b} hne x ha hb => ?_
  obtain ⟨_, _, _, _, -, -, rfl⟩ := ha
  obtain ⟨_, _, _, _, -, -, he⟩ := hb
  exact hne (congrArg Compensation.scopeInstance he)

/-- **Nothing that is to be undone is lost, and nothing is invented.**  When the root has reported,
at whatever moment of a round and however it has ended, its report bears exactly the handlers of
the scopes, of those that have been started at any depth and in any firing of an alarm, that have
reported success themselves and whose definition names a compensation.  No two of them leave the
same handler behind. -/
theorem WellDriven.compensates_exactly (h : s.WellDriven c) {ms : List (Channel × Message)}
    (hms : ∀ e ∈ ms, c.Admits e.1 e.2) (now : Instant) (n : Nat) :
    let d := s.advance now n (c.inject ms)
    d.starts.Pairwise (fun a b => ∀ x, s.HandlerOf a x → ¬ s.HandlerOf b x) ∧
    ∃ root, c.soup.global.root = some root ∧
      ∀ fault cs, .completed fault cs ∈ d.reports root.parent →
        ∀ x, Table.contains cs x = true ↔
          ∃ run ∈ d.starts, d.Succeeded run ∧ s.HandlerOf run x := by
  have hd := (h.driven.injectEach ms hms).advance now n
  refine ⟨hd.handlers_distinct, ⟨1, 2⟩, h.driven.orderly.root, fun fault cs hm x => ?_⟩
  rw [← x.borne_completed fault cs, ← hd.orderly.carries_of_report hm,
    hd.carries_handler_iff]
  constructor
  · rintro ⟨run, hrun, hx⟩
    exact ⟨run, hd.mem_starts_of_succeeded hrun, hrun, hx⟩
  · rintro ⟨run, -, hrun, hx⟩
    exact ⟨run, hrun, hx⟩

/-- An order and its payment, each with what undoes it, and then a fault. -/
def order : Script where
  definition :=
    { processId := "order", name := "order", root := 0
      activities :=
        [{ id := 0, name := none, kind := .sequence [1, 5] },
         { id := 1, name := none, kind := .scope 2 [] (some 4) },
         { id := 2, name := none, kind := .scope 3 [] (some 4) },
         { id := 3, name := none, kind := .empty },
         { id := 4, name := none, kind := .empty },
         { id := 5, name := none, kind := .throw "unpaid" }] }
  evaluator _ := .literal

/-- When an order fails in the end, the report tells that the order itself is to be undone. -/
theorem compensates_exactly_order :
    let d := order.advance ⟨0, 0⟩ 20 (Course.inject { soup := order.newSoup } [])
    ∃ fault cs, .completed fault cs ∈ d.reports 2 ∧ ∃ run ∈ d.starts,
      d.Succeeded run ∧ order.HandlerOf run ⟨2, 1, 4⟩ := by
  have hsent : .completed (some ⟨"unpaid", none⟩)
      (KeySet.ofMembers [(⟨2, 1, 4⟩ : Compensation), ⟨3, 2, 4⟩]) ∈
        (order.advance ⟨0, 0⟩ 20 (Course.inject { soup := order.newSoup } [])).reports 2 := by
    decide +kernel
  obtain ⟨-, root, hroot, hall⟩ := WellDriven.compensates_exactly (s := order) (.start rfl)
    (fun _ he => absurd he List.not_mem_nil) ⟨0, 0⟩ 20
  cases hroot
  exact ⟨_, _, hsent, (hall _ _ hsent _).1 (by decide +kernel)⟩

end Script

end Perdure
