import Mathlib.Data.Fintype.Card
import Mathlib.Data.Set.Finite.Basic
import Mathlib.Logic.Relation
import Mathlib.Order.WellFounded
import Perdure.Proofs.Instance.Progress
import Perdure.Proofs.Instance.Readers

/-!
# Where parts work

Every part works at a station of the definition: at an activity, or at the alarms of a scope.  What
it starts works at a station that its own one opens, so that the parts of an instance, seen from
those that await to those that are awaited, go down the references of the definition.

## Main definitions

* `Script.Starts`, `Script.Reaches` — which activities an activity starts, and which the root does
  in the end.
* `Script.Acyclic` — no activity that is reached starts itself in the end.
* `Station`, `Part.station` — where in a definition parts work.
* `Script.Opens` — what works at one station starts what works at another.
* `Script.Tiered` — who is awaited works at a station that the awaiting part's one opens.

## Main results

* `Script.starts_wellFounded` — without a circle, starting comes to an end.
* `Script.Driven.reaches` — parts work where the root reaches.
* `Script.Driven.tiered` — and stay in tiers.
-/

namespace Perdure

open Relation (ReflTransGen TransGen)

/-! ### What activities start -/

/-- The activities that a kind starts: the children of a sequence, the body of a scope and what its
alarms run.  A compensation is left behind and not started. -/
def ActivityKind.starts : ActivityKind → List ActivityId
  | .sequence children => children
  | .scope body alarms _ => body :: alarms.map (·.activity)
  | .empty | .throw _ | .wait _ => []

theorem ActivityKind.mem_references_of_starts {k : ActivityKind} {id : ActivityId}
    (h : id ∈ k.starts) : id ∈ k.references := by
  cases k with
  | sequence children => exact h
  | scope body alarms compensation => exact List.mem_append_left _ h
  | empty | throw | wait => cases h

namespace Script

/-- The activities that an activity starts. -/
def starts (s : Script) (id : ActivityId) : List ActivityId :=
  (s.definition.activity? id).elim [] (·.kind.starts)

/-- The activity `a` starts the activity `b`, itself or by an alarm. -/
def Starts (s : Script) (a b : ActivityId) : Prop := b ∈ s.starts a

/-- The root starts the activity, directly or through others. -/
def Reaches (s : Script) : ActivityId → Prop := ReflTransGen s.Starts s.definition.root

/-- No activity that the root reaches starts itself, directly or through others. -/
def Acyclic (s : Script) : Prop := ∀ id, s.Reaches id → ¬ TransGen s.Starts id id

variable {s : Script} {id : ActivityId}

theorem starts_of_kind {a : Activity} (ha : s.activity id = .ok a) :
    s.starts id = a.kind.starts := by
  rw [starts, activity_eq_ok_iff.1 ha]
  rfl

/-- The children of a sequence are what it starts. -/
theorem starts_of_children {children : List ActivityId} (h : s.children id = .ok children) :
    s.starts id = children := by
  obtain ⟨a, ha, hk⟩ := kind_of_children h
  rw [starts_of_kind ha, hk]
  rfl

/-- A scope starts its body, and its alarms start their activities. -/
theorem starts_of_scopeParts {body : ActivityId} {alarms : List Alarm}
    (h : s.scopeParts id = .ok (body, alarms)) : s.starts id = body :: alarms.map (·.activity) := by
  obtain ⟨a, compensation, ha, hk⟩ := kind_of_scopeParts h
  rw [starts_of_kind ha, hk]
  rfl

/-- The activity of an alarm is one of those that its scope starts. -/
theorem starts_of_alarm {place : AlarmRef} {alarm : Alarm} (h : s.alarm place = .ok alarm) :
    s.Starts place.scope alarm.activity := by
  obtain ⟨a, body, alarms, compensation, ha, hk, hget⟩ := exists_activity_of_alarm h
  rw [Starts, starts_of_kind ha, hk]
  exact List.mem_cons_of_mem _ (List.mem_map_of_mem (List.mem_of_getElem? hget))

/-- In a valid definition, all that the root reaches is there. -/
theorem Reaches.exists_activity (h : s.Reaches id) (hv : s.definition.validate = .ok ()) :
    ∃ a, s.activity id = .ok a := by
  induction h with
  | refl => exact exists_root hv
  | tail _ hstart ih =>
    obtain ⟨a, ha⟩ := ih
    rw [Starts, starts_of_kind ha] at hstart
    exact exists_reference hv ha (ActivityKind.mem_references_of_starts hstart)

/-- Only finitely many activities are reached. -/
theorem finite_reaches (hv : s.definition.validate = .ok ()) : Finite { id // s.Reaches id } := by
  refine ((Set.finite_lt_nat s.definition.activities.length).subset ?_).to_subtype
  intro id hid
  obtain ⟨a, ha⟩ := Reaches.exists_activity hid hv
  exact (List.getElem?_eq_some_iff.1 (activity_eq_ok_iff.1 ha)).1

/-- Without a circle, starting comes to an end. -/
theorem starts_wellFounded (hv : s.definition.validate = .ok ()) (h : s.Acyclic) :
    WellFounded fun b a : { id // s.Reaches id } => s.Starts a b := by
  have := finite_reaches hv
  let below (b a : { id // s.Reaches id }) : Prop := TransGen s.Starts a b
  have : IsTrans _ below := ⟨fun _ _ _ hba hcb => TransGen.trans hcb hba⟩
  have : Std.Irrefl below := ⟨fun a hcircle => h a a.2 hcircle⟩
  exact (Finite.wellFounded_of_trans_of_irrefl below).mono fun _ _ hstart => TransGen.single hstart

end Script

/-! ### Stations -/

/-- Where in a definition a part works. -/
inductive Station where
  | activity (id : ActivityId)
  /-- At the alarms of a scope. -/
  | alarms (scope : ActivityId)

/-- The activity of a station. -/
def Station.id : Station → ActivityId
  | .activity id | .alarms id => id

/-- Where a part works. -/
def Part.station : Part → Station
  | .ready (.activity run) | .waiting (.waitActivity run _) => .activity run.activity
  | .ready (.sequenceStep sequence) | .waiting (.sequenceWaiting sequence _) =>
    .activity sequence.run.activity
  | .ready (.scopeActive scope) | .waiting (.scopeWaiting scope) => .activity scope.run.activity
  | .ready (.alarmStart alarm) | .ready (.alarmWait alarm _) | .ready (.alarmFire alarm)
  | .ready (.alarmActive alarm _ _) | .waiting (.alarmWaiting alarm _)
  | .waiting (.alarmActive alarm _ _) => .alarms alarm.alarm.scope

/-- What works at one station starts what works at another. -/
inductive Script.Opens (s : Script) : Station → Station → Prop
  | child {a b : ActivityId} (h : s.Starts a b) : Opens s (.activity a) (.activity b)
  | alarm (a : ActivityId) : Opens s (.activity a) (.alarms a)
  | fired {a b : ActivityId} (h : s.Starts a b) : Opens s (.alarms a) (.activity b)

/-- What opens below a station that is reached is reached. -/
theorem Script.Opens.reaches {s : Script} {x y : Station} (h : s.Opens x y)
    (hx : s.Reaches x.id) : s.Reaches y.id := by
  cases h with
  | child hstart | fired hstart => exact hx.tail hstart
  | alarm => exact hx

namespace Yields

variable {s : Script} {now : Instant} {n k : Nat} {P : Part} {taken : Option (Channel × Message)}
  {p : Products} (h : Yields s now n k P taken p)

include h

/-- A part that goes on works where it did. -/
theorem station_heir {Q : Part} (hQ : p.heir = some Q) : Q.station = P.station := by
  cases h <;> cases hQ <;> rfl

/-- What is started works below. -/
theorem station_kid {t : Task} (ht : t ∈ p.kids) : s.Opens P.station (Part.ready t).station := by
  cases h <;> simp only [List.not_mem_nil, List.mem_cons, List.mem_map, or_false] at ht
  case scopeStarted run body alarms hp =>
    rcases ht with rfl | ⟨alarm, halarm, rfl⟩
    · refine .child ?_
      rw [Script.Starts, Script.starts_of_scopeParts hp]
      exact List.mem_cons_self
    · obtain ⟨i, -, rfl⟩ := List.mem_map.1 halarm
      exact .alarm run.activity
  case childStarted sequence children next hc hn ht' =>
    subst ht
    refine .child ?_
    rw [Script.Starts, Script.starts_of_children hc]
    exact List.mem_of_getElem? hn
  case alarmFired alarm a ha =>
    subst ht
    exact .fired (Script.starts_of_alarm ha)

end Yields

/-! ### Courses -/

namespace Script

/-- Who is awaited works at a station that the awaiting part's one opens. -/
def Tiered (s : Script) (soup : InstanceSoup) : Prop :=
  ∀ P ∈ soup.parts, ∀ Q ∈ soup.parts, Q.link ∈ P.awaits → s.Opens P.station Q.station

end Script

namespace Move

variable {s : Script} {now : Instant} {root : Link} {soup : InstanceSoup} {r : Reduction}
  {p : Products} {consumed : List Link} (m : Move s now root soup r p consumed)

include m

/-- What was awaited before is not the link of a part that was just started. -/
theorem kid_link_ne {P : Part} (hP : P ∈ soup.parts) {t : Task} (ht : t ∈ p.kids) :
    t.link ∉ P.awaits := by
  intro hu
  have hold := m.family.below _ (Family.parent_mem_owned (Family.mem_expected_of_awaits root hP hu))
  exact absurd hold (Nat.not_lt.2 (m.home_new_of_kid ht))

theorem tiered_after (h : s.Tiered soup) : s.Tiered r.after := by
  -- what was awaited before: the one who is awaited may have gone on meanwhile
  have hold {P Q : Part} (hP : P ∈ soup.parts) (hQ : Q ∈ r.after.parts) (hu : Q.link ∈ P.awaits) :
      s.Opens P.station Q.station := by
    rcases m.mem_after.1 hQ with hheir | ⟨t, ht, rfl⟩ | hb
    · rw [m.yields.heir_link hheir] at hu
      rw [m.yields.station_heir hheir]
      exact h P hP _ m.part_mem hu
    · exact absurd hu (m.kid_link_ne hP ht)
    · exact h P hP Q (m.mem_of_before hb) hu
  intro P hP Q hQ hu
  rcases m.mem_after.1 hP with hheir | ⟨t, ht, rfl⟩ | hb
  · rw [m.yields.station_heir hheir]
    have hmem : Q.link ∈ p.awaits ++ consumed := by
      rw [Products.awaits, hheir]
      exact List.mem_append_left _ hu
    rcases List.mem_append.1 ((m.yields.awaits_perm m.delivery m.part_sound).mem_iff.1 hmem) with
      hu | hkid
    · exact hold m.part_mem hQ hu
    · obtain ⟨t, ht, hlink⟩ := List.mem_map.1 hkid
      have hmem : Part.ready t ∈ r.after.parts := m.mem_after.2 (.inr (.inl ⟨t, ht, rfl⟩))
      rw [← m.family_after.part_unique hmem hQ hlink]
      exact m.yields.station_kid ht
  · rw [show (Part.ready t).awaits = [] from m.yields.kid_awaits ht] at hu
    cases hu
  · exact hold (m.mem_of_before hb) hQ hu

end Move

namespace Script.Driven

variable {s : Script} {c : Course} (h : s.Driven c)

include h

/-- Parts work where the root reaches. -/
theorem reaches : ∀ P ∈ c.soup.parts, s.Reaches P.station.id :=
  h.forall_parts ReflTransGen.refl (fun hy hP hQ => (hy.station_heir hQ).symm ▸ hP)
    fun hy hP ht => (hy.station_kid ht).reaches hP

theorem tiered : s.Tiered c.soup := by
  induction h with
  | start _ =>
    intro P hP Q _ hu
    rw [mem_parts_newSoup.1 hP] at hu
    cases hu
  | @inject c ch msg _ _ ih =>
    have hparts : (c.inject [(ch, msg)]).soup.parts = c.soup.parts := c.soup.parts_send ch msg
    rw [Tiered, hparts]
    exact ih
  | reduce h hr ih =>
    obtain ⟨p, consumed, m⟩ := h.orderly.family.exists_move hr
    exact m.tiered_after ih
  | drain _ ih => exact ih

end Script.Driven

end Perdure
