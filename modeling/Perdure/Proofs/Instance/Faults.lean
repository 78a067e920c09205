import Perdure.Proofs.Instance.Cargo
import Perdure.Proofs.Instance.Clock
import Perdure.Proofs.Instance.Runs

/-!
# What becomes of faults

A fault is raised by an activity that throws it, or by the expression of a wait or an alarm.  It is
reported at once by everything but scopes; a scope keeps the first fault that it is told of, waits
for whatever else is under way, and reports that fault unchanged.  So no fault gets lost on the way
upwards, although of several faults only one arrives, and none comes into being elsewhere.

## Main definitions

* `Part.Evaluates` — the expression that a reaction evaluates.
* `Script.Raises`, `Tick.Raises` — a reaction raises a fault.
* `Course.received` — the messages that the parts of a run have taken.

## Main results

* `Yields.fault_heir`, `Yields.fault_report`, `Yields.report_of_raises` — what a reaction does with
  a fault.
* `Script.Ticked.faults_raised`, `Script.Ticked.faults_carried` — no fault is invented or lost.
* `Script.Ticked.heeds` — a scope keeps the first fault that it is told of.
* `Script.Timed.first_fault_wins` — the fault that the root reports, and that of every scope.
-/

namespace Perdure

/-! ### Raised faults -/

/-- The expression of a deadline. -/
def Deadline.expression : Deadline → String
  | .delay duration => duration
  | .instant timestamp => timestamp

/-- The expression of a deadline raises a business fault. -/
def Evaluator.Raises (ev : Evaluator) (name : String) : Deadline → Prop
  | .delay duration => ev.duration duration = .error (.fault name)
  | .instant timestamp => ev.deadline timestamp = .error (.fault name)

namespace Alarm

/-- What times the first firing of an alarm. -/
def first (a : Alarm) : Option Deadline :=
  (a.delay.map .delay).or ((a.instant.map .instant).or (a.repetition.map .delay))

/-- What times every other firing of an alarm. -/
def next (a : Alarm) : Option Deadline := a.repetition.map .delay

end Alarm

/-- The deadline that a part works out in its reaction, and the activity that it belongs to: that of
a wait when it starts, that of an alarm when it starts and when a firing has ended well. -/
inductive Part.Evaluates (s : Script) :
    Part → Option (Channel × Message) → ActivityId → Deadline → Prop
  | wait {run : Run} {a : Activity} {d : Deadline} (ha : s.activity run.activity = .ok a)
      (hk : a.kind = .wait d) : Evaluates s (.ready (.activity run)) none run.activity d
  | first {alarm : AlarmRun} {a : Alarm} {d : Deadline} (ha : s.alarm alarm.alarm = .ok a)
      (hd : a.first = some d) : Evaluates s (.ready (.alarmStart alarm)) none alarm.alarm.scope d
  | next {alarm : AlarmRun} {child : Run} {c : Channel} {m : Message} {cs : Compensations}
      {a : Alarm} {d : Deadline} (hm : m.report? = some (none, cs))
      (ha : s.alarm alarm.alarm = .ok a) (hd : a.next = some d) :
      Evaluates s (.waiting (.alarmActive alarm child false)) (some (c, m)) alarm.alarm.scope d

/-- A reaction raises a fault: it starts an activity that throws it, or it evaluates an expression
that raises it, which then explains the fault. -/
inductive Script.Raises (s : Script) (now : Instant) (P : Part)
    (taken : Option (Channel × Message)) : Fault → Prop
  | thrown {run : Run} {a : Activity} {name : String} (hP : P = .ready (.activity run))
      (ha : s.activity run.activity = .ok a) (hk : a.kind = .throw name) :
      Raises s now P taken ⟨name, none⟩
  | evaluated {place : ActivityId} {d : Deadline} {name : String}
      (he : P.Evaluates s taken place d) (hr : (s.evaluator ⟨now, place⟩).Raises name d) :
      Raises s now P taken ⟨name, some d.expression⟩

/-- A fault was raised in a reduction on record. -/
def Tick.Raises (s : Script) (t : Tick) (f : Fault) : Prop :=
  s.Raises t.now t.reduction.part t.reduction.taken f

/-- A duration that raises a fault raises it before the deadline is worked out. -/
theorem Evaluator.deadlineAfter_eq_fault_iff {ev : Evaluator} {now : Instant}
    {expression name : String} : ev.deadlineAfter now expression = .error (.fault name) ↔
      ev.duration expression = .error (.fault name) := by
  unfold Evaluator.deadlineAfter
  rcases ev.duration expression with e | nanos
  · simp [bind, Except.bind]
  · rw [Turn.ok_bind]
    split <;> simp [pure, Except.pure, throw, throwThe, MonadExceptOf.throw]

namespace Script

variable {s : Script} {o : Occasion} {f : Fault}

theorem settle_eq_fault_iff {α : Type} {expression : String} {r : Except EvaluationFailure α} :
    settle expression r = .ok (.error f) ↔
      ∃ name, r = .error (.fault name) ∧ f = ⟨name, some expression⟩ := by
  unfold settle
  split <;> simp [eq_comm]

/-- A deadline gives a fault exactly when its expression raises it. -/
theorem deadline_eq_fault_iff {d : Deadline} : s.deadline o d = .ok (.error f) ↔
    ∃ name, (s.evaluator o).Raises name d ∧ f = ⟨name, some d.expression⟩ := by
  cases d with
  | delay duration =>
    unfold deadline deadlineAfter
    rw [settle_eq_fault_iff]
    simp only [Evaluator.deadlineAfter_eq_fault_iff]
    exact Iff.rfl
  | instant timestamp => exact settle_eq_fault_iff

/-- A fault passes through the choice of a deadline. -/
theorem optional_eq_fault_iff {r : Except RunError (Except Fault Instant)} :
    (do pure ((← r).map some) : Except RunError (Except Fault (Option Instant))) = .ok (.error f) ↔
      r = .ok (.error f) := by
  rcases r with e | (g | t) <;> simp [bind, Except.bind, pure, Except.pure, Except.map]

theorem firstDeadline_eq_fault_iff {a : Alarm} : s.firstDeadline o a = .ok (.error f) ↔
    ∃ d, a.first = some d ∧ s.deadline o d = .ok (.error f) := by
  obtain ⟨delay, instant, repetition, activity⟩ := a
  rcases delay with _ | duration
  · rcases instant with _ | timestamp
    · rcases repetition with _ | duration
      · simp [firstDeadline, Alarm.first]
      · exact optional_eq_fault_iff.trans (by simp [Alarm.first, deadline])
    · exact optional_eq_fault_iff.trans (by simp [Alarm.first, deadline])
  · exact optional_eq_fault_iff.trans (by simp [Alarm.first, deadline])

theorem nextDeadline_eq_fault_iff {a : Alarm} : s.nextDeadline o a = .ok (.error f) ↔
    ∃ d, a.next = some d ∧ s.deadline o d = .ok (.error f) := by
  obtain ⟨delay, instant, repetition, activity⟩ := a
  rcases repetition with _ | duration
  · simp [nextDeadline, Alarm.next]
  · exact optional_eq_fault_iff.trans (by simp [Alarm.next, deadline])

end Script

/-! ### What a reaction does with a fault -/

/-- The fault that a scope has been told of. -/
def Part.fault : Part → Option Fault
  | .ready (.scopeActive scope) | .waiting (.scopeWaiting scope) => scope.fault
  | _ => none

/-- The fault of a report. -/
def Message.fault : Message → Option Fault
  | .completed fault _ => fault
  | _ => none

/-- The fault that a part knows of when it reacts: its own, or else that of the report it takes. -/
def Part.knows (P : Part) (taken : Option (Channel × Message)) : Option Fault :=
  P.fault.or (taken.bind fun e => e.2.fault)

theorem Message.fault_of_report {m : Message} {fault : Option Fault} {cs : Compensations}
    (hm : m.report? = some (fault, cs)) : m.fault = fault := by
  cases m <;> cases hm <;> rfl

namespace Yields

variable {s : Script} {now : Instant} {n k : Nat} {P : Part} {taken : Option (Channel × Message)}
  {p : Products}

/-- What goes on keeps the fault that the part knows of: only a scope goes on after a fault. -/
theorem fault_heir (h : Yields s now n k P taken p) {Q : Part} (hQ : p.heir = some Q) :
    Q.fault = P.knows taken := by
  cases h <;> cases hQ
  case sequenceNext hm | firingAgain hm _ _ => exact (Message.fault_of_report hm).symm
  case bodyFaulted scope _ _ _ _ _ _ _ hm | bodyDone scope _ _ _ _ _ _ hm |
      alarmFaulted scope _ _ _ _ _ _ _ _ hm | alarmDone scope _ _ _ _ _ _ _ hm =>
    exact congrArg scope.fault.or (Message.fault_of_report hm).symm
  case scopeWaits scope _ | scopeTold scope _ _ | scopeAsked scope _ _ _ =>
    exact Option.or_none.symm
  all_goals rfl

/-- A fault that is reported is known, or the reaction raises it. -/
theorem fault_report (h : Yields s now n k P taken p) (hn : p.heir = none) {fault : Option Fault}
    {cs : Compensations} (hs : p.sent = [(P.home, .completed fault cs)]) :
    fault = P.knows taken ∨ ∃ f, fault = some f ∧ s.Raises now P taken f := by
  cases h <;> cases hn <;> cases hs
  case thrown ha hk => exact .inr ⟨_, rfl, .thrown rfl ha hk⟩
  case waitFaulted ha hk hd =>
    obtain ⟨name, hr, rfl⟩ := Script.deadline_eq_fault_iff.1 hd
    exact .inr ⟨_, rfl, .evaluated (.wait ha hk) hr⟩
  case alarmUntimed ha hd =>
    obtain ⟨d, hfirst, hd⟩ := Script.firstDeadline_eq_fault_iff.1 hd
    obtain ⟨name, hr, rfl⟩ := Script.deadline_eq_fault_iff.1 hd
    exact .inr ⟨_, rfl, .evaluated (.first ha hfirst) hr⟩
  case firingUntimed hm ha hd =>
    obtain ⟨d, hnext, hd⟩ := Script.nextDeadline_eq_fault_iff.1 hd
    obtain ⟨name, hr, rfl⟩ := Script.deadline_eq_fault_iff.1 hd
    exact .inr ⟨_, rfl, .evaluated (.next hm ha hnext) hr⟩
  case sequenceFaulted hm | firingFaulted hm | firingLast hm =>
    exact .inl (Message.fault_of_report hm).symm
  case waitOver hm | alarmOver hm => rcases hm with rfl | rfl | rfl <;> exact .inl rfl
  case scopeDone => exact .inl Option.or_none.symm
  all_goals exact .inl rfl

/-- A fault that is raised is reported at once. -/
theorem report_of_raises (h : Yields s now n k P taken p) {f : Fault}
    (hf : s.Raises now P taken f) :
    p.heir = none ∧ ∃ cs, p.sent = [(P.home, .completed (some f) cs)] := by
  cases hf with
  | thrown hP ha hk =>
    subst hP
    obtain rfl : taken = none := h.takes
    obtain rfl := h.unique (.thrown ha hk)
    exact ⟨rfl, _, rfl⟩
  | @evaluated place d name he hr =>
    have hd := Script.deadline_eq_fault_iff.2 ⟨name, hr, rfl⟩
    cases he with
    | wait ha hk =>
      obtain rfl := h.unique (.waitFaulted ha hk hd)
      exact ⟨rfl, _, rfl⟩
    | first ha hfirst =>
      have hd := Script.firstDeadline_eq_fault_iff.2 ⟨d, hfirst, hd⟩
      obtain rfl := h.unique (.alarmUntimed ha hd)
      exact ⟨rfl, _, rfl⟩
    | next hm ha hnext =>
      have hd := Script.nextDeadline_eq_fault_iff.2 ⟨d, hnext, hd⟩
      obtain rfl := h.unique (.firingUntimed hm ha hd)
      exact ⟨rfl, _, rfl⟩

/-- What was just started knows of no fault. -/
theorem fault_kid (h : Yields s now n k P taken p) {t : Task} (ht : t ∈ p.kids) :
    (Part.ready t).fault = none := by
  obtain ⟨_, _, _, rfl⟩ | ⟨_, _, _, rfl⟩ := h.kid_cases ht <;> rfl

end Yields

/-! ### Faults on their way upwards -/

/-- A fault of a kind on its way upwards. -/
def Fault.cargo (good : Fault → Prop) : Cargo where
  held P := ∃ f, P.fault = some f ∧ good f
  borne m := ∃ f, m.fault = some f ∧ good f
  isCompleted := by
    rintro m ⟨f, hm, -⟩
    cases m <;> cases hm
    rfl

namespace Fault

variable {good : Fault → Prop} {P : Part} {taken : Option (Channel × Message)}

/-- The fault that a part knows of comes in with it. -/
theorem in_of_knows {f : Fault} (h : P.knows taken = some f) (hf : good f) :
    (cargo good).In P taken := by
  unfold Part.knows at h
  rcases Option.or_eq_some_iff.1 h with h | ⟨-, h⟩
  · exact .inl ⟨f, h, hf⟩
  · obtain ⟨⟨c, m⟩, rfl, hm⟩ := Option.bind_eq_some_iff.1 h
    exact .inr ⟨c, m, rfl, f, hm, hf⟩

/-- A part knows of a fault when one comes in. -/
theorem knows_of_in (h : (cargo good).In P taken) : (P.knows taken).isSome = true := by
  unfold Part.knows
  rcases h with ⟨f, hP, -⟩ | ⟨c, m, rfl, f, hm, -⟩
  · simp [hP]
  · simp [hm]

end Fault

namespace Yields

variable {s : Script} {now : Instant} {n k : Nat} {P : Part} {taken : Option (Channel × Message)}
  {p : Products} {good : Fault → Prop}

theorem fault_out_of_heir (h : Yields s now n k P taken p) {Q : Part} (hQ : p.heir = some Q) :
    (Fault.cargo good).Out p P.home ↔ (Fault.cargo good).held Q := by
  refine h.out_of_heir _ ?_ hQ
  intro t ht hx
  obtain ⟨f, hf, -⟩ := hx
  rw [h.fault_kid ht] at hf
  cases hf

/-- A fault that goes out came in, or is raised. -/
theorem fault_in_of_out (h : Yields s now n k P taken p)
    (ho : (Fault.cargo good).Out p P.home) :
    (Fault.cargo good).In P taken ∨ ∃ f, s.Raises now P taken f ∧ good f := by
  cases hQ : p.heir with
  | none =>
    obtain ⟨-, -, fault, cs, hs⟩ := h.sent_of_heir_eq_none hQ
    rw [h.out_of_done _ hQ hs] at ho
    obtain ⟨f, hf, hgood⟩ := ho
    obtain rfl : fault = some f := hf
    rcases h.fault_report hQ hs with hknows | ⟨g, hg, hraises⟩
    · exact .inl (Fault.in_of_knows hknows.symm hgood)
    · cases hg
      exact .inr ⟨f, hraises, hgood⟩
  | some Q =>
    rw [h.fault_out_of_heir hQ] at ho
    obtain ⟨f, hf, hgood⟩ := ho
    rw [h.fault_heir hQ] at hf
    exact .inl (Fault.in_of_knows hf hgood)

/-- When a fault comes in or is raised, some fault goes out. -/
theorem fault_out (h : Yields s now n k P taken p)
    (hi : (Fault.cargo fun _ => True).In P taken ∨ ∃ f, s.Raises now P taken f) :
    (Fault.cargo fun _ => True).Out p P.home := by
  rcases hi with hi | ⟨f, hf⟩
  · obtain ⟨f, hf⟩ := Option.isSome_iff_exists.1 (Fault.knows_of_in hi)
    cases hQ : p.heir with
    | none =>
      obtain ⟨-, -, fault, cs, hs⟩ := h.sent_of_heir_eq_none hQ
      rw [h.out_of_done _ hQ hs]
      rcases h.fault_report hQ hs with hknows | ⟨g, hg, -⟩
      · exact ⟨f, hknows.trans hf, trivial⟩
      · exact ⟨g, hg, trivial⟩
    | some Q =>
      rw [h.fault_out_of_heir hQ]
      exact ⟨f, (h.fault_heir hQ).trans hf, trivial⟩
  · obtain ⟨hn, cs, hs⟩ := h.report_of_raises hf
    rw [h.out_of_done _ hn hs]
    exact ⟨f, rfl, trivial⟩

end Yields

/-! ### What a scope is told -/

/-- The messages that the parts of a run have taken, first to last. -/
def Course.received (c : Course) (run : Run) : List Message :=
  c.log.filterMap fun r => if r.part.run? = some run then r.taken.map Prod.snd else none

/-- The activity is a scope. -/
def Script.IsScope (s : Script) (id : ActivityId) : Prop :=
  ∃ a body alarms compensation, s.activity id = .ok a ∧ a.kind = .scope body alarms compensation

/-- A scope raises nothing itself. -/
theorem Script.IsScope.not_raises {s : Script} {run : Run} (h : s.IsScope run.activity)
    {now : Instant} {P : Part} {taken : Option (Channel × Message)} (hP : P.run? = some run)
    (f : Fault) : ¬ s.Raises now P taken f := by
  obtain ⟨a, body, alarms, compensation, ha, hk⟩ := h
  rintro (⟨rfl, ha', hk'⟩ | ⟨⟨ha', hk'⟩ | _ | _, -⟩)
  · cases hP
    rw [ha] at ha'
    cases ha'
    rw [hk] at hk'
    cases hk'
  · cases hP
    rw [ha] at ha'
    cases ha'
    rw [hk] at hk'
    cases hk'
  · cases hP
  · cases hP

namespace Course

/-- Every scope keeps the first fault that it is told of, and reports that one. -/
structure Heeds (s : Script) (c : Course) : Prop where
  kept : ∀ P ∈ c.soup.parts, ∀ run, P.run? = some run → s.IsScope run.activity →
    P.fault = (c.received run).findSome? Message.fault
  reported : ∀ r ∈ c.log, ∀ run, r.part.run? = some run → s.IsScope run.activity →
    ∀ fault cs, .completed fault cs ∈ r.sentTo run.parent →
      fault = (c.received run).findSome? Message.fault

variable {s : Script} {c : Course}

theorem received_extend (c : Course) (r : Reduction) (run : Run) : (c.extend r).received run =
    c.received run ++ if r.part.run? = some run then (r.taken.map Prod.snd).toList else [] := by
  rw [received, log_extend, List.filterMap_append]
  by_cases hr : r.part.run? = some run
  · cases ht : r.taken <;> simp [received, hr, ht]
  · simp [received, hr]

/-- What other parts take, a run does not receive. -/
theorem received_extend_of_ne {r : Reduction} {run : Run} (h : r.part.run? ≠ some run) :
    (c.extend r).received run = c.received run := by
  rw [received_extend, if_neg h, List.append_nil]

/-- A part that knows the first fault that its run was told of still does after its reaction. -/
theorem knows_extend {r : Reduction} {run : Run} (hrun : r.part.run? = some run)
    (h : r.part.fault = (c.received run).findSome? Message.fault) :
    r.part.knows r.taken = ((c.extend r).received run).findSome? Message.fault := by
  rw [received_extend, if_pos hrun, List.findSome?_append, ← h, Part.knows]
  cases r.taken <;> simp

theorem Heeds.start (s : Script) : Heeds s { soup := s.newSoup } where
  kept P hP run _ _ := by
    obtain rfl := Script.mem_parts_newSoup.1 hP
    rfl
  reported r hr := absurd hr List.not_mem_nil

section Move

variable {now : Instant} {r : Reduction} {p : Products} {consumed : List Link}
  (m : Move s now .root c.soup r p consumed)

include m

/-- A run that was just started has received nothing. -/
theorem received_of_kid (hn : c.Numbered) {t : Task} (ht : t ∈ p.kids) {run : Run}
    (hrun : (Part.ready t).run? = some run) : (c.extend r).received run = [] :=
  List.filterMap_eq_nil_iff.2 fun _ hq => if_neg (hn.run?_ne_of_kid m ht hrun hq)

theorem Heeds.extend (h : c.Heeds s) (hn : c.Numbered) (ho : c.Orderly s) :
    (c.extend r).Heeds s where
  kept P hP run hrun hs := by
    rcases m.mem_after.1 hP with hQ | ⟨t, ht, rfl⟩ | hb
    · -- the heir knows what the part knew
      rw [m.yields.run?_heir hQ] at hrun
      rw [m.yields.fault_heir hQ, knows_extend hrun (h.kept _ m.part_mem run hrun hs)]
    · rw [received_of_kid m hn ht hrun, m.yields.fault_kid ht]
      rfl
    · rw [received_extend_of_ne (run?_ne_of_before m hb hrun)]
      exact h.kept P (m.mem_of_before hb) run hrun hs
  reported q hq run hrun hs fault cs hsent := by
    rcases List.mem_append.1 hq with hq | hq
    · -- a run that has reported has no part any more
      have hreport : c.reports run.parent ≠ [] := List.ne_nil_of_mem
        (List.mem_flatMap.2 ⟨q, hq, List.mem_filter.2 ⟨hsent, rfl⟩⟩)
      have hne : r.part.run? ≠ some run := fun hr =>
        ho.reported_gone _ hreport _ m.part_mem (Part.home_of_run? hr)
      rw [received_extend_of_ne hne]
      exact h.reported q hq run hrun hs fault cs hsent
    · obtain rfl := List.mem_singleton.1 hq
      obtain ⟨hheir, -, hsent⟩ := m.report_of_mem_sentTo hsent
      rw [← knows_extend hrun (h.kept _ m.part_mem run hrun hs)]
      refine (m.yields.fault_report hheir hsent).resolve_right ?_
      rintro ⟨f, -, hraises⟩
      exact hs.not_raises hrun f hraises

end Move

end Course

namespace Script

variable {s : Script} {ts : List Tick} {c : Course}

/-- Every scope of a course keeps the first fault that it is told of. -/
theorem Driven.heeds (h : s.Driven c) : c.Heeds s := by
  induction h with
  | start _ => exact .start s
  | @inject c ch msg _ _ ih => exact ⟨c.soup.parts_send ch msg ▸ ih.kept, ih.reported⟩
  | reduce h hr ih =>
    obtain ⟨p, consumed, m⟩ := h.orderly.family.exists_move hr
    exact ih.extend m h.numbered h.orderly
  | drain _ ih => exact ⟨ih.kept, ih.reported⟩

/-! ### Faults of a course -/

namespace Ticked

/-- A fault that is under way or has arrived was raised. -/
theorem faults_raised (h : s.Ticked ts c) {good : Fault → Prop}
    (hc : c.soup.Carries .root (Fault.cargo good)) : ∃ t ∈ ts, ∃ f, t.Raises s f ∧ good f := by
  induction h with
  | start _ =>
    rw [carries_newSoup] at hc
    obtain ⟨f, hf, -⟩ := hc
    cases hf
  | inject h ha ih =>
    have ho := h.driven.orderly
    exact ih ((ho.family.carries_send (ho.accepts ha) _).1 hc)
  | @reduce ts c now r h hr ih =>
    obtain ⟨p, consumed, m⟩ := h.driven.orderly.family.exists_move hr
    have hold (hc : c.soup.Carries .root (Fault.cargo good)) :
        ∃ t ∈ ts ++ [⟨now, r⟩], ∃ f, t.Raises s f ∧ good f := by
      obtain ⟨t, ht, hf⟩ := ih hc
      exact ⟨t, List.mem_append_left _ ht, hf⟩
    rw [Course.soup_extend, m.carries_after_iff] at hc
    rcases hc with ha | hout
    · exact hold ((m.carries_iff _).2 (.inl ha))
    · rcases m.yields.fault_in_of_out hout with hi | hf
      · exact hold ((m.carries_iff _).2 (.inr hi))
      · exact ⟨⟨now, r⟩, List.mem_append_right _ (List.mem_singleton_self _), hf⟩
  | drain _ ih => exact ih hc

/-- Once a fault has been raised, some fault is under way or has arrived. -/
theorem faults_carried (h : s.Ticked ts c) {t : Tick} (ht : t ∈ ts) {f : Fault}
    (hf : t.Raises s f) : c.soup.Carries .root (Fault.cargo fun _ => True) := by
  induction h with
  | start _ => cases ht
  | inject h ha ih =>
    have ho := h.driven.orderly
    exact (ho.family.carries_send (ho.accepts ha) _).2 (ih ht)
  | reduce h hr ih =>
    obtain ⟨p, consumed, m⟩ := h.driven.orderly.family.exists_move hr
    rw [Course.soup_extend, m.carries_after_iff]
    rcases List.mem_append.1 ht with ht | ht
    · exact ((m.carries_iff _).1 (ih ht)).imp_right fun hi => m.yields.fault_out (.inl hi)
    · obtain rfl := List.mem_singleton.1 ht
      exact .inr (m.yields.fault_out (.inr ⟨f, hf⟩))
  | drain _ ih => exact ih ht

end Ticked

/-- **Faults are neither lost nor invented, and at every scope the first one wins.**  When the root
has reported, at whatever moment of a round, it reports a fault exactly if one was raised by then,
and what it reports is one of those that were raised, as it was raised.  Every scope that has
reported has reported the first fault among the messages that it received, in their order, or none
if there was none. -/
theorem Timed.first_fault_wins (h : s.Timed ts c) {ms : List (Channel × Message)}
    (hms : ∀ e ∈ ms, c.Admits e.1 e.2) (now : Instant) (n : Nat) :
    let d := s.advance now n (c.inject ms)
    let ticks := ts ++ d.since c now
    (∃ root, c.soup.global.root = some root ∧
      ∀ fault cs, .completed fault cs ∈ d.reports root.parent →
        (fault.isSome = true ↔ ∃ t ∈ ticks, ∃ f, t.Raises s f) ∧
        ∀ f, fault = some f → ∃ t ∈ ticks, t.Raises s f) ∧
    ∀ r ∈ d.log, ∀ run, r.part.run? = some run → s.IsScope run.activity →
      ∀ fault cs, .completed fault cs ∈ r.sentTo run.parent →
        fault = (d.received run).findSome? Message.fault := by
  have hd := h.ticked.further hms now n
  refine ⟨⟨⟨1, 2⟩, h.ticked.driven.orderly.root, fun fault cs hm => ?_⟩, hd.driven.heeds.reported⟩
  -- once the root has reported, what is carried is what it reports
  have hcarries (good : Fault → Prop) := hd.driven.orderly.carries_of_report hm (Fault.cargo good)
  refine ⟨⟨fun hf => ?_, ?_⟩, ?_⟩
  · obtain ⟨f, hf⟩ := Option.isSome_iff_exists.1 hf
    obtain ⟨t, ht, g, hg, -⟩ := hd.faults_raised ((hcarries fun _ => True).2 ⟨f, hf, trivial⟩)
    exact ⟨t, ht, g, hg⟩
  · rintro ⟨t, ht, f, hf⟩
    obtain ⟨g, hg, -⟩ := (hcarries fun _ => True).1 (hd.faults_carried ht hf)
    exact Option.isSome_iff_exists.2 ⟨g, hg⟩
  · intro f hf
    obtain ⟨t, ht, g, hg, rfl⟩ := hd.faults_raised ((hcarries (· = f)).2 ⟨f, hf, rfl⟩)
    exact ⟨t, ht, hg⟩

/-- A scope whose body throws, beside an alarm whose expression raises a fault. -/
def quarrel : Script where
  definition :=
    { processId := "quarrel", name := "quarrel", root := 0
      activities :=
        [{ id := 0, name := none, kind := .scope 1 [⟨some "fault:late", none, none, 2⟩] none },
         { id := 1, name := none, kind := .throw "first" },
         { id := 2, name := none, kind := .empty }] }
  evaluator _ := .raising .literal

/-- In a quarrel the root reports a fault that was raised, the first of the two that it was told
of. -/
theorem first_fault_wins_quarrel :
    let d := quarrel.advance ⟨0, 0⟩ 20 (Course.inject { soup := quarrel.newSoup } [])
    .completed (some ⟨"first", none⟩) ∅ ∈ d.reports 2 ∧
      d.received quarrel.rootRun =
        [.completed (some ⟨"first", none⟩) ∅, .completed (some ⟨"late", some "fault:late"⟩) ∅] ∧
      ∃ t ∈ d.since { soup := quarrel.newSoup } ⟨0, 0⟩, t.Raises quarrel ⟨"first", none⟩ := by
  have hsent : .completed (some ⟨"first", none⟩) ∅ ∈
      (quarrel.advance ⟨0, 0⟩ 20 (Course.inject { soup := quarrel.newSoup } [])).reports 2 := by
    decide +kernel
  obtain ⟨⟨root, hroot, hall⟩, -⟩ := Timed.first_fault_wins (s := quarrel) (.start rfl)
    (fun _ he => absurd he List.not_mem_nil) ⟨0, 0⟩ 20
  cases hroot
  have hraised := (hall _ _ hsent).2 _ rfl
  rw [List.nil_append] at hraised
  exact ⟨hsent, by decide +kernel, hraised⟩

end Script

end Perdure
