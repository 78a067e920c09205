import Mathlib.Algebra.BigOperators.Ring.List
import Mathlib.Algebra.Order.BigOperators.Group.List
import Mathlib.Tactic.Ring
import Perdure.Proofs.Instance.Schedule
import Perdure.Proofs.Instance.Stations
import Perdure.Proofs.Time.Order

/-!
# What is left to do

How many reductions an instance can still make at one time, if nobody injects anything, is bounded
by what its parts have to do and by the messages that wait for them.  The bound is a price list.
An activity costs what it takes to start it and all that it starts; whoever starts others pays for
them, for the reports that it will get, and for the orders that it may still give.  An order costs
what it takes to pass it on downwards, and the event of a timer what it takes to fire the alarm.

Every rule of `Yields` leaves less than it found, save one: an alarm that repeats at once.

## Main definitions

* `Script.outlay`, `Script.Costs` — the costs of activities.
* `Script.fee` — the most that an order to somebody below costs.
* `Part.weight` — what a part has to do.
* `Script.RepeatsLater` — no alarm repeats at once.

## Main results

* `Script.exists_costs` — activities that do not go in circles have costs.
* `Yields.weight_lt` — every reaction leaves less to do.
-/

namespace Perdure

/-! ### Costs -/

namespace Script

variable (s : Script) (cost : ActivityId → Nat)

/-- What all that an activity starts costs, with the reports on it. -/
def outlay (id : ActivityId) : Nat := ((s.starts id).map fun b => cost b + 2).sum

/-- The costs of the activities that are reached.  The factor is due to scopes: all that a scope
starts may be timed by an alarm, told to fire no more, and told to stop. -/
def Costs : Prop :=
  ∀ id, s.Reaches id → cost id = (3 * (s.starts id).length + 1) * (s.outlay cost id + 8)

/-- The most that an order to somebody below costs. -/
def fee : Station → Nat
  | .activity id => s.outlay cost id + 6
  | .alarms id => s.outlay cost id + 4

variable {s cost} {id : ActivityId}

/-- Activities that do not go in circles have costs. -/
theorem exists_costs (hv : s.definition.validate = .ok ()) (h : s.Acyclic) :
    ∃ cost, s.Costs cost := by
  classical
  let price (a : { id // s.Reaches id })
      (below : ∀ b : { id // s.Reaches id }, s.Starts a b → Nat) : Nat :=
    (3 * (s.starts a).length + 1) *
      (((s.starts a).attach.map fun b => below ⟨b.1, a.2.tail b.2⟩ b.2 + 2).sum + 8)
  let reached : { id // s.Reaches id } → Nat := (starts_wellFounded hv h).fix price
  let cost (id : ActivityId) : Nat := if hid : s.Reaches id then reached ⟨id, hid⟩ else 0
  refine ⟨cost, fun id hid => ?_⟩
  have hcost {b : ActivityId} (hb : s.Reaches b) : cost b = reached ⟨b, hb⟩ := dif_pos hb
  have houtlay : ((s.starts id).attach.map fun b => reached ⟨b.1, hid.tail b.2⟩ + 2).sum =
      s.outlay cost id := by
    rw [outlay, ← List.attach_map_val (l := s.starts id) (f := fun b => cost b + 2)]
    congr 1
    apply List.map_congr_left
    intro b _
    exact congrArg (· + 2) (hcost (hid.tail b.2)).symm
  rw [hcost hid, ← houtlay]
  exact (starts_wellFounded hv h).fix_eq price ⟨id, hid⟩

/-- The reports apart. -/
theorem outlay_eq : s.outlay cost id =
    ((s.starts id).map cost).sum + 2 * (s.starts id).length := by
  rw [outlay, List.sum_map_add, List.map_const', List.sum_replicate_nat, Nat.mul_comm]

/-- What is started costs no more than all that is started. -/
theorem cost_le_outlay {a b : ActivityId} (h : s.Starts a b) : cost b + 2 ≤ s.outlay cost a :=
  List.le_sum_of_mem (List.mem_map_of_mem h)

/-- An activity costs more than all that it starts. -/
theorem Costs.outlay_lt (hc : s.Costs cost) (h : s.Reaches id) :
    s.outlay cost id + 8 ≤ cost id := by
  rw [hc id h]
  exact Nat.le_mul_of_pos_left _ (Nat.succ_pos _)

/-- Whoever works below pays less for orders. -/
theorem Opens.fee_le (hc : s.Costs cost) {x y : Station} (hx : s.Reaches x.id) (h : s.Opens x y) :
    s.fee cost y + 2 ≤ s.fee cost x := by
  cases h with
  | alarm => exact Nat.le_refl _
  | child hstart | fired hstart =>
    have hle := @cost_le_outlay s cost _ _ hstart
    have hlt := hc.outlay_lt (hx.tail hstart)
    simp only [fee]
    omega

/-! ### Repetitions -/

/-- No alarm that is reached repeats at once: its repetition, evaluated now, is a positive time. -/
def RepeatsLater (s : Script) (now : Instant) : Prop :=
  ∀ (place : AlarmRef) (alarm : Alarm), s.Reaches place.scope → s.alarm place = .ok alarm →
    ∀ expression, alarm.repetition = some expression →
      ∀ nanos, (s.evaluator ⟨now, place.scope⟩).duration expression = .ok nanos → 0 < nanos

/-- An alarm that repeats, repeats later. -/
theorem RepeatsLater.isAtMost_eq_false {s : Script} {now : Instant} (h : s.RepeatsLater now)
    {place : AlarmRef} {alarm : Alarm} (hp : s.Reaches place.scope) (ha : s.alarm place = .ok alarm)
    {t : Instant} (hd : s.nextDeadline ⟨now, place.scope⟩ alarm = .ok (.ok (some t))) :
    t.isAtMost now = false := by
  have hsets := nextDeadline_eq_ok_iff.1 hd
  unfold Alarm.next at hsets
  cases hrep : alarm.repetition with
  | none =>
    rw [hrep] at hsets
    cases hsets
  | some expression =>
    rw [hrep] at hsets
    obtain ⟨nanos, hnanos, ht⟩ :
        (s.evaluator ⟨now, place.scope⟩).Sets now (.delay expression) t := by
      cases hsets with
      | some hset => exact hset
    exact Instant.isAtMost_eq_false_of_addNanos? (h place alarm hp ha expression hrep nanos hnanos) ht

end Script

/-! ### What parts have to do -/

section Weight

variable (s : Script) (cost : ActivityId → Nat) (now : Instant)

/-- What the children cost that come next in a sequence. -/
def SequenceRun.weight (sequence : SequenceRun) : Nat :=
  (((s.starts sequence.run.activity).drop sequence.position).map fun b => cost b + 2).sum

/-- What the orders cost that a scope may still give: to its alarms once its body is done, and to
all that it awaits when it has to stop. -/
def ScopeRun.weight (scope : ScopeRun) : Nat :=
  if scope.terminating then 0
  else (if scope.body.isSome then 2 else 1) * scope.awaits.length *
    s.fee cost (.activity scope.run.activity)

/-- What a part has to do, if nobody tells it anything but the reports that it awaits. -/
@[simp] def Part.weight : Part → Nat
  | .ready (.activity run) => cost run.activity
  | .waiting (.waitActivity ..) => 0
  | .ready (.sequenceStep sequence) => sequence.weight s cost + 1
  | .waiting (.sequenceWaiting sequence _) =>
    { sequence with position := sequence.position + 1 }.weight s cost + 2
  | .ready (.scopeActive scope) => scope.weight s cost + 2 * scope.awaits.length + 1
  | .waiting (.scopeWaiting scope) => scope.weight s cost + 2 * scope.awaits.length
  | .ready (.alarmStart alarm) => s.outlay cost alarm.alarm.scope + 6
  | .ready (.alarmWait alarm deadline) =>
    if deadline.any (·.isAtMost now) then s.outlay cost alarm.alarm.scope + 5 else 1
  | .ready (.alarmFire alarm) => s.outlay cost alarm.alarm.scope + 4
  | .waiting (.alarmWaiting ..) => 0
  | .ready (.alarmActive ..) => 3
  | .waiting (.alarmActive ..) => 2

end Weight

/-- How many messages a part takes that are no reports. -/
@[simp] def heeded (taken : Option (Channel × Message)) : Nat :=
  if taken.any fun e => e.2.report?.isNone then 1 else 0

/-- How many orders are given. -/
@[simp] def Products.orders (p : Products) : Nat := p.heir.elim 0 fun _ => p.sent.length

/-- The child that comes next, and the others after it. -/
theorem SequenceRun.weight_of_next (sequence : SequenceRun) (s : Script) (cost : ActivityId → Nat)
    {children : List ActivityId} {next : ActivityId}
    (hc : s.children sequence.run.activity = .ok children)
    (hn : children[sequence.position]? = some next) : sequence.weight s cost =
      cost next + 2 + { sequence with position := sequence.position + 1 }.weight s cost := by
  obtain ⟨hlt, rfl⟩ := List.getElem?_eq_some_iff.1 hn
  unfold weight
  rw [Script.starts_of_children hc, List.drop_eq_getElem_cons hlt, List.map_cons, List.sum_cons]

/-! ### What scopes have to do -/

namespace ScopeRun

variable {scope rest : ScopeRun}

/-- The scope `rest` awaits one link less than the scope before, and is told nothing new. -/
structure Less (scope rest : ScopeRun) : Prop where
  run : rest.run = scope.run
  terminating : rest.terminating = scope.terminating
  body : rest.body = scope.body ∨ rest.body = none
  awaits : scope.awaits.length = rest.awaits.length + 1

theorem less_of_body {body : Run} (hb : scope.body = some body) :
    scope.Less { scope with body := none } where
  run := rfl
  terminating := rfl
  body := .inr rfl
  awaits := congrArg List.length (awaits_of_body hb)

theorem less_of_alarm {c : Channel} {l : AlarmLink} {marked : List AlarmLink}
    (hl : markDone c scope.handlers = some (l, marked)) (hdone : l.done = false) :
    scope.Less { scope with handlers := marked } where
  run := rfl
  terminating := rfl
  body := .inl rfl
  awaits := (awaits_perm_of_markDone hl hdone).length_eq

section Orders

variable (s : Script) (cost : ActivityId → Nat)

/-- The fewer are awaited, the fewer are told. -/
theorem Less.weight_le (h : scope.Less rest) : rest.weight s cost ≤ scope.weight s cost := by
  have hle : rest.awaits.length ≤ scope.awaits.length := h.awaits ▸ Nat.le_succ _
  unfold weight
  rw [h.run, h.terminating]
  split
  · exact Nat.le_refl _
  · refine Nat.mul_le_mul_right _ (Nat.mul_le_mul ?_ hle)
    rcases h.body with hb | hb <;> rw [hb]
    rw [if_neg (by decide)]
    split <;> decide

/-- The orders to stop are paid for. -/
theorem orders_le_weight (scope : ScopeRun) :
    scope.orders.length * s.fee cost (.activity scope.run.activity) ≤ scope.weight s cost := by
  unfold orders weight
  split
  · exact Nat.le_of_eq (Nat.zero_mul _)
  · rw [List.length_map]
    refine Nat.mul_le_mul_right _ (Nat.le_mul_of_pos_left _ ?_)
    split <;> decide

/-- When somebody is done with a fault, the orders to stop are paid for. -/
theorem Less.orders_le_weight (h : scope.Less rest) :
    rest.orders.length * s.fee cost (.activity scope.run.activity) + 0 ≤ scope.weight s cost := by
  rw [← h.run]
  exact (rest.orders_le_weight s cost).trans (h.weight_le s cost)

/-- When the body is done, the orders to fire no more are paid for, and those to stop are left. -/
theorem softOrders_le_weight {body : Run} (hb : scope.body = some body) :
    scope.softOrders.length * s.fee cost (.activity scope.run.activity) +
      { scope with body := none }.weight s cost ≤ scope.weight s cost := by
  have hlength : ({ scope with body := none }).awaits.length = scope.pending.length :=
    List.length_map _
  unfold softOrders weight
  rw [(less_of_body hb).awaits, hlength, hb]
  split
  · exact Nat.le_of_eq (Nat.zero_mul _)
  · rw [List.length_map]
    show scope.pending.length * s.fee cost (.activity scope.run.activity) +
      1 * scope.pending.length * s.fee cost (.activity scope.run.activity) ≤
        2 * (scope.pending.length + 1) * s.fee cost (.activity scope.run.activity)
    rw [← Nat.add_mul]
    exact Nat.mul_le_mul_right _ (by omega)

/-- A scope that heard of the end of a part of it has less to do, even if it gives orders now that
were paid for. -/
theorem Less.weight_lt (h : scope.Less rest) {orders left : Nat}
    (hpaid : orders * s.fee cost (.activity scope.run.activity) + left ≤ scope.weight s cost) :
    left + 2 * rest.awaits.length + 1 + orders * s.fee cost (.activity scope.run.activity) <
      scope.weight s cost + 2 * scope.awaits.length := by
  have hawaits := h.awaits
  omega

end Orders

/-- A scope that starts awaits its body and all of its alarms. -/
theorem length_awaits_fresh (run : Run) (body : ActivityId) (alarms number : Nat)
    (channel : Channel) : (fresh run body alarms number channel).awaits.length = alarms + 1 := by
  simp [awaits, pending, fresh, AlarmLink.fresh, List.filter_map, Function.comp_def]

end ScopeRun

/-- What a scope that starts brings with it costs less than the scope. -/
theorem Script.Costs.scope_lt {s : Script} {cost : ActivityId → Nat} (hc : s.Costs cost) {run : Run}
    (hr : s.Reaches run.activity) {body : ActivityId} {alarms : List Alarm}
    (hp : s.scopeParts run.activity = .ok (body, alarms)) (now : Instant) (number : Nat)
    (channel : Channel) :
    cost body + (((AlarmRun.freshAll run alarms.length channel).map fun a =>
        (Part.ready (.alarmStart a)).weight s cost now).sum +
      (Part.ready (.scopeActive (ScopeRun.fresh run body alarms.length number channel))).weight
        s cost now) < cost run.activity := by
  have hcost := hc run.activity hr
  have houtlay := @outlay_eq s cost run.activity
  rw [starts_of_scopeParts hp] at hcost houtlay
  simp only [List.map_cons, List.sum_cons, List.length_cons, List.length_map] at hcost houtlay
  have halarms : ((AlarmRun.freshAll run alarms.length channel).map fun a =>
      (Part.ready (.alarmStart a)).weight s cost now).sum =
        alarms.length * (s.outlay cost run.activity + 6) := by
    rw [AlarmRun.freshAll, List.map_map]
    show ((List.range alarms.length).map fun _ => s.outlay cost run.activity + 6).sum = _
    rw [List.map_const', List.sum_replicate_nat, List.length_range]
  have hscope : (ScopeRun.fresh run body alarms.length number channel).weight s cost =
      2 * (alarms.length + 1) * (s.outlay cost run.activity + 6) := by
    rw [ScopeRun.weight, ScopeRun.length_awaits_fresh]
    rfl
  -- the price covers what the alarms cost, and two orders to each one that the scope awaits
  have hprice : (3 * (alarms.length + 1) + 1) * (s.outlay cost run.activity + 8) =
      alarms.length * (s.outlay cost run.activity + 6) +
        2 * (alarms.length + 1) * (s.outlay cost run.activity + 6) +
          2 * s.outlay cost run.activity + 6 * alarms.length + 20 := by ring
  rw [halarms, Part.weight, hscope, ScopeRun.length_awaits_fresh]
  omega

/-! ### Reactions -/

namespace Yields

variable {s : Script} {cost : ActivityId → Nat} {now : Instant} {n k : Nat} {P : Part}
  {taken : Option (Channel × Message)} {p : Products} {consumed : List Link}

/-- Every reaction leaves less to do: what it produces and the orders that it gives cost less than
the part and the message that it takes. -/
theorem weight_lt (h : Yields s now n k P taken p) (hd : Delivery P taken consumed)
    (hs : P.Sound s) (hc : s.Costs cost) (hr : s.Reaches P.station.id) (hl : s.RepeatsLater now) :
    (p.parts.map (Part.weight s cost now)).sum + p.orders * s.fee cost P.station <
      P.weight s cost now + heeded taken * (s.fee cost P.station + 2) := by
  have hcost := hc.outlay_lt hr
  cases h
  -- what starts others pays for them
  case sequenceStarted run a children ha hk =>
    have hcost : s.outlay cost run.activity + 8 ≤ cost run.activity := hcost
    have hall : ({ run, position := 0 } : SequenceRun).weight s cost = s.outlay cost run.activity :=
      rfl
    have hlt : ({ run, position := 0 } : SequenceRun).weight s cost + 1 < cost run.activity := by
      omega
    simpa [Products.parts] using hlt
  case scopeStarted run body alarms hp =>
    have hlt := hc.scope_lt hr hp now k n
    simpa [Products.parts, Run.fresh, Function.comp_def] using hlt
  case childStarted sequence children next hch hn ht =>
    have hnext := sequence.weight_of_next s cost hch hn
    have hlt : cost next + ({ sequence with position := sequence.position + 1 }.weight s cost + 2) <
        sequence.weight s cost + 1 := by omega
    simpa [Products.parts, Run.fresh] using hlt
  case alarmFired alarm a ha =>
    have hle : cost a.activity + 2 ≤ s.outlay cost alarm.alarm.scope :=
      Script.cost_le_outlay (Script.starts_of_alarm ha)
    have hlt : cost a.activity + 3 < s.outlay cost alarm.alarm.scope + 4 := by omega
    simpa [Products.parts, Run.fresh] using hlt
  -- a scope has paid for its orders in advance
  case scopeTold scope c hterm =>
    have htold : ({ scope with terminating := true }).weight s cost = 0 := if_pos rfl
    have horders := scope.orders_le_weight s cost
    have hlt : 0 + 2 * scope.awaits.length + 1 +
        scope.orders.length * s.fee cost (.activity scope.run.activity) <
          scope.weight s cost + 2 * scope.awaits.length +
            1 * (s.fee cost (.activity scope.run.activity) + 2) := by omega
    exact hlt
  case bodyFaulted hb hp hm =>
    have hless := ScopeRun.less_of_body hb
    have hlt := hless.weight_lt s cost (hless.orders_le_weight s cost)
    exact Nat.lt_of_lt_of_le hlt (Nat.le_add_right _ _)
  case bodyDone hb hp hm =>
    have hless := ScopeRun.less_of_body hb
    have hlt := hless.weight_lt s cost (ScopeRun.softOrders_le_weight s cost hb)
    exact Nat.lt_of_lt_of_le hlt (Nat.le_add_right _ _)
  case alarmFaulted scope link marked c m fault cs hb hl hm =>
    obtain ⟨u, hu, rfl, -, -⟩ := hd.of_report hm
    have hless := ScopeRun.less_of_alarm hl (hs.1.link_eq_alarm hu hb hl).1
    have hlt := hless.weight_lt s cost (hless.orders_le_weight s cost)
    exact Nat.lt_of_lt_of_le hlt (Nat.le_add_right _ _)
  case alarmDone scope link marked c m cs hb hl hm =>
    obtain ⟨u, hu, rfl, -, -⟩ := hd.of_report hm
    have hless := ScopeRun.less_of_alarm hl (hs.1.link_eq_alarm hu hb hl).1
    have hpaid : 0 * s.fee cost (.activity scope.run.activity) +
        { scope with handlers := marked }.weight s cost ≤ scope.weight s cost := by
      rw [Nat.zero_mul, Nat.zero_add]
      exact hless.weight_le s cost
    have hlt := hless.weight_lt s cost hpaid
    exact Nat.lt_of_lt_of_le hlt (Nat.le_add_right _ _)
  -- an alarm pays for its firing when it is timed, and the event of a timer pays for it again
  case alarmTimed alarm a deadline ha hdl =>
    have hlt : (Part.ready (.alarmWait alarm deadline)).weight s cost now <
        s.outlay cost alarm.alarm.scope + 6 := by
      rw [Part.weight]
      split <;> omega
    simpa [Products.parts] using hlt
  case alarmPassed ht | alarmArmed ht => simp [Products.parts, ht]
  case firingAgain alarm child c m cs a deadline hm ha hdl =>
    have hlater : deadline.any (·.isAtMost now) = false := by
      cases deadline with
      | none => rfl
      | some t => exact hl.isAtMost_eq_false hr ha hdl
    have hwait : (Part.ready (.alarmWait { alarm with
        compensations := alarm.compensations.union cs } deadline)).weight s cost now = 1 := by
      rw [Part.weight, hlater]
      rfl
    simp only [Products.parts, List.map_nil, Option.toList_some, List.nil_append, List.map_cons,
      List.sum_cons, List.sum_nil, hwait]
    exact Nat.lt_of_lt_of_le (by simp) (Nat.le_add_right 2 _)
  case sequenceAsked | scopeAsked | firingAsked =>
    cases hd with
    | event _ hm => rcases hm with hm | hm <;> cases hm
  case emptyDone | thrown | waitFaulted | waitPassed | waitArmed =>
    have hpos := Nat.lt_of_lt_of_le (Nat.succ_pos _) hcost
    simpa [Products.parts, Part.station, Station.id] using hpos
  case waitOver hm | alarmOver hm =>
    rcases hm with rfl | rfl | rfl <;> simp [Products.parts, Message.report?]
  case sequenceNext sequence child c m cs hm =>
    have hlt : { sequence with position := sequence.position + 1 }.weight s cost + 1 +
        0 * s.fee cost (.activity sequence.run.activity) <
          { sequence with position := sequence.position + 1 }.weight s cost + 2 := by omega
    exact Nat.lt_of_lt_of_le hlt (Nat.le_add_right _ _)
  case sequenceTold sequence child c =>
    have hlt : { sequence with position := sequence.position + 1 }.weight s cost + 2 +
        1 * s.fee cost (.activity sequence.run.activity) <
          { sequence with position := sequence.position + 1 }.weight s cost + 2 +
            1 * (s.fee cost (.activity sequence.run.activity) + 2) := by omega
    exact hlt
  case firingTold alarm child stopped c =>
    have hlt : 3 + 1 * s.fee cost (.alarms alarm.alarm.scope) <
        2 + 1 * (s.fee cost (.alarms alarm.alarm.scope) + 2) := by omega
    exact hlt
  case firingStopped alarm child stopped c =>
    have hlt : 3 + 0 * s.fee cost (.alarms alarm.alarm.scope) <
        2 + 1 * (s.outlay cost alarm.alarm.scope + 4 + 2) := by omega
    exact hlt
  case alarmDue => simp [Products.parts, Message.report?, Part.station, Script.fee]
  all_goals simp [Products.parts]

end Yields

end Perdure
