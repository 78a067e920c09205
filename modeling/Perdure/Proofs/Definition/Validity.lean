import Perdure.Definition.Builder
import Perdure.Proofs.Definition.Codec
import Perdure.Proofs.Failure

/-!
# Valid definitions

Validation goes through a definition once and stops at the first fault.  It finds none exactly if
all references of the definition lead to activities, each activity stands at its own index and no
alarm is timed twice.  So a definition survives its text if and only if it is valid, and those that
a builder hands out are.

## Main definitions

* `Definition.RefersTo` — the references of a definition: the root, children, bodies, alarms,
  compensations and nested activities.
* `Definition.Valid`, `Definition.Fault` — what validation is to find, and what it reports.
* `Definition.Builder.built` — a builder after operations.

## Main results

* `Definition.validate_eq_ok_iff`, `Definition.fault_of_validate` — what validation finds.
* `Definition.Builder.writable_of_build` — what a builder hands out can be written.
* `Definition.survives_text` — definitions and their texts.
-/

namespace Perdure

/-! ### References -/

/-- The references of a kind. -/
inductive ActivityKind.RefersTo : ActivityKind → ActivityId → Prop
  | child {children : List ActivityId} {id : ActivityId} (h : id ∈ children) :
      RefersTo (.sequence children) id
  | body (body : ActivityId) (alarms : List Alarm) (compensation : Option ActivityId) :
      RefersTo (.scope body alarms compensation) body
  | alarm (body : ActivityId) {alarms : List Alarm} (compensation : Option ActivityId)
      {alarm : Alarm} (h : alarm ∈ alarms) :
      RefersTo (.scope body alarms compensation) alarm.activity
  | compensation (body : ActivityId) (alarms : List Alarm) (id : ActivityId) :
      RefersTo (.scope body alarms (some id)) id

theorem ActivityKind.mem_references_iff {k : ActivityKind} {id : ActivityId} :
    id ∈ k.references ↔ k.RefersTo id := by
  constructor
  · intro h
    cases k with
    | empty | throw | wait => cases h
    | sequence children => exact .child h
    | scope body alarms compensation =>
      rcases List.mem_cons.1 h with rfl | h
      · exact .body _ _ _
      · rcases List.mem_append.1 h with h | h
        · obtain ⟨alarm, halarm, rfl⟩ := List.mem_map.1 h
          exact .alarm _ _ halarm
        · obtain rfl := Option.mem_toList.1 h
          exact .compensation _ _ _
  · intro h
    cases h with
    | child h => exact h
    | body => exact List.mem_cons_self
    | alarm body compensation h =>
      exact List.mem_cons_of_mem _ (List.mem_append_left _ (List.mem_map_of_mem h))
    | compensation =>
      exact List.mem_cons_of_mem _ (List.mem_append_right _ (List.mem_singleton_self _))

namespace Definition

/-- The references of a definition: its root, and what its activities refer to or declare as
nested. -/
inductive RefersTo (d : Definition) : ActivityId → Prop
  | root : RefersTo d d.root
  | kind {a : Activity} (ha : a ∈ d.activities) {id : ActivityId} (h : a.kind.RefersTo id) :
      RefersTo d id
  | nested {a : Activity} (ha : a ∈ d.activities) {id : ActivityId} (h : id ∈ a.agent.nested.keys) :
      RefersTo d id

/-- All activities stand at their own indices, all references lead to activities, and no alarm is
timed both by a duration and by an instant. -/
structure Valid (d : Definition) : Prop where
  placed : ∀ (i : Nat) (a : Activity), d.activities[i]? = some a → a.id = i
  resolved : ∀ id, d.RefersTo id → id < d.activities.length
  timed : ∀ a ∈ d.activities, ∀ alarm ∈ a.kind.alarms, alarm.delay = none ∨ alarm.instant = none

/-- What can be reported of a definition. -/
inductive Fault (d : Definition) : DefinitionError → Prop
  | misplaced {i : Nat} {a : Activity} (ha : d.activities[i]? = some a) (hne : a.id ≠ i) :
      Fault d (.idMismatch i a.id)
  | unresolved {id : ActivityId} (hr : d.RefersTo id) (hlen : d.activities.length ≤ id) :
      Fault d (.unknownActivity id)
  | conflicting {a : Activity} (ha : a ∈ d.activities) {alarm : Alarm}
      (halarm : alarm ∈ a.kind.alarms) (hd : alarm.delay ≠ none) (hi : alarm.instant ≠ none) :
      Fault d (.conflictingTiming a.id)

variable {d : Definition}

theorem Fault.not_valid {e : DefinitionError} (h : d.Fault e) : ¬ d.Valid := by
  intro hv
  cases h with
  | misplaced ha hne => exact hne (hv.placed _ _ ha)
  | unresolved hr hlen => exact absurd (hv.resolved _ hr) (Nat.not_lt.2 hlen)
  | conflicting ha halarm hd hi => exact (hv.timed _ ha _ halarm).elim hd hi

/-! ### Validation -/

theorem resolve_eq_ok_iff {id : ActivityId} : d.resolve id = .ok () ↔ id < d.activities.length := by
  unfold resolve
  split
  · next h => exact iff_of_true rfl h
  · next h => exact iff_of_false nofun h

theorem resolve_eq_error {id : ActivityId} {e : DefinitionError} (h : d.resolve id = .error e) :
    e = .unknownActivity id ∧ d.activities.length ≤ id := by
  unfold resolve at h
  split at h
  · cases h
  · next hlen =>
    cases h
    exact ⟨rfl, Nat.le_of_not_lt hlen⟩

/-- Validation of indices goes on from one activity to the next. -/
theorem placed_of_checkIds {index : Nat} {as : List Activity} (h : checkIds index as = .ok ()) :
    ∀ (i : Nat) (a : Activity), as[i]? = some a → a.id = index + i := by
  induction as generalizing index with
  | nil => exact fun i a ha => nomatch ha
  | cons b as ih =>
    rw [checkIds] at h
    split at h
    · next hb =>
      intro i a ha
      cases i with
      | zero =>
        cases ha
        exact hb
      | succ i => rw [ih h i a ha, Nat.add_right_comm, Nat.add_assoc]
    · cases h

theorem exists_of_checkIds_eq_error {index : Nat} {as : List Activity} {e : DefinitionError}
    (h : checkIds index as = .error e) :
    ∃ i a, as[i]? = some a ∧ a.id ≠ index + i ∧ e = .idMismatch (index + i) a.id := by
  induction as generalizing index with
  | nil => cases h
  | cons b as ih =>
    rw [checkIds] at h
    split at h
    · obtain ⟨i, a, ha, hne, he⟩ := ih h
      refine ⟨i + 1, a, ha, ?_⟩
      rw [← Nat.add_assoc, Nat.add_right_comm]
      exact ⟨hne, he⟩
    · next hb =>
      cases h
      exact ⟨0, b, rfl, hb, rfl⟩

theorem resolve_of_checkActivity {a : Activity} (h : d.checkActivity a = .ok ()) :
    (∀ id, a.kind.RefersTo id → id < d.activities.length) ∧
      (∀ id ∈ a.agent.nested.keys, id < d.activities.length) ∧
      ∀ alarm ∈ a.kind.alarms, alarm.delay = none ∨ alarm.instant = none := by
  obtain ⟨⟨⟩, hkind, h⟩ := exists_of_bind_eq_ok h
  obtain ⟨⟨⟩, hnested, h⟩ := exists_of_bind_eq_ok h
  refine ⟨fun id hid => resolve_eq_ok_iff.1 (forM_eq_ok hkind id
    (ActivityKind.mem_references_iff.2 hid)),
    fun id hid => resolve_eq_ok_iff.1 (forM_eq_ok hnested id hid), fun alarm halarm => ?_⟩
  split at h
  · cases h
  · next hany =>
    have hconflict : alarm.isConflicting ≠ true := fun he =>
      hany (List.any_eq_true.2 ⟨alarm, halarm, he⟩)
    rw [Alarm.isConflicting, Ne, Bool.and_eq_true, not_and_or] at hconflict
    simpa using hconflict

theorem fault_of_checkActivity {a : Activity} (ha : a ∈ d.activities) {e : DefinitionError}
    (h : d.checkActivity a = .error e) : d.Fault e := by
  have hunresolved {ids : List ActivityId} (hids : ∀ id ∈ ids, d.RefersTo id)
      (h : ids.forM d.resolve = .error e) : d.Fault e := by
    obtain ⟨id, hid, h⟩ := exists_of_forM_eq_error h
    obtain ⟨rfl, hlen⟩ := resolve_eq_error h
    exact .unresolved (hids id hid) hlen
  rcases exists_of_bind_eq_error h with h | ⟨-, -, h⟩
  · exact hunresolved (fun id hid => .kind ha (ActivityKind.mem_references_iff.1 hid)) h
  · rcases exists_of_bind_eq_error h with h | ⟨-, -, h⟩
    · exact hunresolved (fun id hid => .nested ha hid) h
    · split at h
      · next hany =>
        cases h
        obtain ⟨alarm, halarm, he⟩ := List.any_eq_true.1 hany
        rw [Alarm.isConflicting, Bool.and_eq_true] at he
        exact .conflicting ha halarm (Option.isSome_iff_ne_none.1 he.1)
          (Option.isSome_iff_ne_none.1 he.2)
      · cases h

/-- What validation reports is a fault of the definition. -/
theorem fault_of_validate {e : DefinitionError} (h : d.validate = .error e) : d.Fault e := by
  rcases exists_of_bind_eq_error h with h | ⟨-, -, h⟩
  · obtain ⟨i, a, ha, hne, rfl⟩ := exists_of_checkIds_eq_error h
    rw [Nat.zero_add] at hne ⊢
    exact .misplaced ha hne
  · rcases exists_of_bind_eq_error h with h | ⟨-, -, h⟩
    · obtain ⟨rfl, hlen⟩ := resolve_eq_error h
      exact .unresolved .root hlen
    · obtain ⟨a, ha, h⟩ := exists_of_forM_eq_error h
      exact fault_of_checkActivity ha h

/-- Validation finds nothing exactly in valid definitions. -/
theorem validate_eq_ok_iff : d.validate = .ok () ↔ d.Valid := by
  constructor
  · intro h
    obtain ⟨⟨⟩, hids, h⟩ := exists_of_bind_eq_ok h
    obtain ⟨⟨⟩, hroot, h⟩ := exists_of_bind_eq_ok h
    have hactivity {a : Activity} (ha : a ∈ d.activities) :=
      resolve_of_checkActivity (forM_eq_ok h a ha)
    refine ⟨fun i a ha => ?_, fun id hr => ?_, fun a ha => (hactivity ha).2.2⟩
    · rw [placed_of_checkIds hids i a ha, Nat.zero_add]
    · cases hr with
      | root => exact resolve_eq_ok_iff.1 hroot
      | kind ha h => exact (hactivity ha).1 id h
      | nested ha h => exact (hactivity ha).2.1 id h
  · intro hv
    cases h : d.validate with
    | ok => rfl
    | error e => exact absurd hv (fault_of_validate h).not_valid

/-- A valid definition with no more activities than there are words can be written. -/
theorem Valid.writable (h : d.Valid) (hlen : d.activities.length ≤ 2 ^ 32) : d.Writable where
  root := Nat.lt_of_lt_of_le (h.resolved _ .root) hlen
  activities a ha := by
    obtain ⟨i, hi⟩ := List.mem_iff_getElem?.1 ha
    obtain ⟨hlt, -⟩ := List.getElem?_eq_some_iff.1 hi
    refine ⟨?_, fun id hid => ?_, fun id hid => ?_⟩
    · rw [h.placed i a hi]
      exact Nat.lt_of_lt_of_le hlt hlen
    · exact Nat.lt_of_lt_of_le (h.resolved id (.nested ha hid)) hlen
    · exact Nat.lt_of_lt_of_le
        (h.resolved id (.kind ha (ActivityKind.mem_references_iff.1 hid))) hlen

/-- The text of a definition that can be written is read as that definition, validated. -/
theorem ofText_text (h : d.Writable) : ofText d.text = d.validate.map fun _ => d := by
  obtain ⟨v, hv, hd⟩ := Option.bind_eq_some_iff.1 (readText?_text h)
  rw [ofText, hv]
  show ofJson v = _
  rw [ofJson, hd]
  show (d.validate >>= fun _ => pure d) = _
  cases d.validate <;> rfl

/-! ### Builders -/

namespace Builder

/-- An operation of a builder. -/
inductive Operation where
  | activity (name : String) (kind : ActivityKind) (agent : Agent)
  | reserve (name : String)
  | define (id : ActivityId) (kind : ActivityKind)

/-- The builder after an operation.  Nothing is defined at an index without an activity. -/
def perform (b : Builder) : Operation → Builder
  | .activity name kind agent => (b.activity name kind agent).2
  | .reserve name => (b.reserve name).2
  | .define id kind => match b.define id kind with
    | .ok b => b
    | .error _ => b

/-- A new builder after operations. -/
def built (processId name : String) (operations : List Operation) : Builder :=
  operations.foldl perform ⟨processId, name, []⟩

/-- Activities stand at their own indices, cut down to words. -/
def Indexed (b : Builder) : Prop :=
  ∀ (i : Nat) (a : Activity), b.activities[i]? = some a → a.id = i % 2 ^ 32

variable {b : Builder}

theorem Indexed.activity (h : b.Indexed) (name : String) (kind : ActivityKind) (agent : Agent) :
    (b.activity name kind agent).2.Indexed := by
  intro i a ha
  rcases Nat.lt_or_ge i b.activities.length with hlt | hge
  · exact h i a ((List.getElem?_append_left hlt).symm.trans ha)
  · have hlast := (List.getElem?_append_right hge).symm.trans ha
    obtain ⟨hlt, ha⟩ := List.getElem?_eq_some_iff.1 hlast
    have hi : i = b.activities.length := by
      rw [List.length_singleton] at hlt
      omega
    subst hi
    rw [← ha, List.getElem_singleton]
    rfl

theorem Indexed.define (h : b.Indexed) {id : ActivityId} {kind : ActivityKind} {b' : Builder}
    (hb : b.define id kind = .ok b') : b'.Indexed := by
  unfold Builder.define at hb
  split at hb
  · cases hb
    intro i a ha
    rw [List.getElem?_modify] at ha
    obtain ⟨a', ha', rfl⟩ := Option.map_eq_some_iff.1 ha
    rw [← h i a' ha']
    split <;> rfl
  · cases hb

theorem Indexed.perform (h : b.Indexed) (operation : Operation) :
    (b.perform operation).Indexed := by
  cases operation with
  | activity name kind agent => exact h.activity name kind agent
  | reserve name => exact h.activity name .empty {}
  | define id kind =>
    rw [Builder.perform]
    split
    · next hb => exact h.define hb
    · exact h

theorem indexed_built (processId name : String) (operations : List Operation) :
    (built processId name operations).Indexed := by
  have hrun {b : Builder} (h : b.Indexed) : (operations.foldl perform b).Indexed := by
    induction operations generalizing b with
    | nil => exact h
    | cons operation operations ih => exact ih (h.perform operation)
  exact hrun fun i a ha => nomatch ha

/-- What is built of activities at their own indices is valid, and can be written. -/
theorem Indexed.writable_of_build (h : b.Indexed) {root : ActivityId} {d : Definition}
    (hb : b.build root = .ok d) : d.Valid ∧ d.Writable := by
  obtain ⟨⟨⟩, hvalidate, hd⟩ := exists_of_bind_eq_ok hb
  cases hd
  have hv := validate_eq_ok_iff.1 hvalidate
  refine ⟨hv, hv.writable ?_⟩
  -- an activity behind the last word would stand at an index that is not its own
  by_contra hlen
  have hlt : 2 ^ 32 < b.activities.length := Nat.lt_of_not_le hlen
  have ha := List.getElem?_eq_getElem hlt
  have hown := (hv.placed _ _ ha).symm.trans (h _ _ ha)
  rw [Nat.mod_self] at hown
  cases hown

end Builder

/-! ### Definitions and their texts -/

/-- **Definitions and their texts.**  A definition, all of whose references are words, is read back
from its text; with validation, it is read exactly if it is valid, and otherwise one of its faults
is reported.  Whatever a builder hands out after any operations is read from its text. -/
theorem survives_text :
    (∀ d : Definition, d.Writable →
      (Json.readText? d.text).bind ofJson? = some d ∧
      (ofText d.text = .ok d ↔ d.Valid) ∧
      (¬ d.Valid → ∃ e, ofText d.text = .error e ∧ d.Fault e)) ∧
    ∀ (processId name : String) (operations : List Builder.Operation) (root : ActivityId)
      (d : Definition), (Builder.built processId name operations).build root = .ok d →
        ofText d.text = .ok d := by
  have hvalid {d : Definition} (hw : d.Writable) (hv : d.Valid) : ofText d.text = .ok d := by
    rw [ofText_text hw, validate_eq_ok_iff.2 hv]
    rfl
  have hinvalid {d : Definition} (hw : d.Writable) (hv : ¬ d.Valid) :
      ∃ e, ofText d.text = .error e ∧ d.Fault e := by
    cases h : d.validate with
    | ok => exact absurd (validate_eq_ok_iff.1 h) hv
    | error e =>
      refine ⟨e, ?_, fault_of_validate h⟩
      rw [ofText_text hw, h]
      rfl
  refine ⟨fun d hw => ⟨readText?_text hw, ⟨fun h => ?_, hvalid hw⟩, hinvalid hw⟩,
    fun processId name operations root d hb => ?_⟩
  · by_contra hv
    obtain ⟨e, he, -⟩ := hinvalid hw hv
    rw [h] at he
    cases he
  · obtain ⟨hv, hw⟩ := (Builder.indexed_built processId name operations).writable_of_build hb
    exact hvalid hw hv

/-- A scope that is reserved first and defined when its parts are there. -/
def guardedOperations : List Builder.Operation :=
  [.reserve "order", .activity "pay" (.throw "declined") { variablesRead := .ofMembers ["sum"] },
   .activity "remind" .empty {}, .activity "refund" (.wait (.delay "PT5M")) {},
   .define 0 (.scope 1 [⟨some "PT1H", none, some "P1D", 2⟩] (some 3)), .define 7 .empty]

/-- The scope with its parts. -/
def guarded : Definition where
  processId := "orders"
  name := "Orders"
  root := 0
  activities :=
    [{ id := 0, name := some "order",
       kind := .scope 1 [⟨some "PT1H", none, some "P1D", 2⟩] (some 3) },
     { id := 1, name := some "pay", agent := { variablesRead := .ofMembers ["sum"] },
       kind := .throw "declined" },
     { id := 2, name := some "remind", kind := .empty },
     { id := 3, name := some "refund", kind := .wait (.delay "PT5M") }]

theorem survives_text_guarded :
    ofText guarded.text = .ok guarded ∧
    (∃ e, ofText { guarded with root := 4 }.text = .error e ∧
      Fault { guarded with root := 4 } e) := by
  have hv : guarded.Valid := validate_eq_ok_iff.1 (by decide +kernel)
  have hw : guarded.Writable := hv.writable (by decide)
  have hw' : Writable { guarded with root := 4 } := ⟨by decide, hw.activities⟩
  have hbuilt : (Builder.built "orders" "Orders" guardedOperations).build 0 = .ok guarded := by
    decide +kernel
  refine ⟨survives_text.2 "orders" "Orders" guardedOperations 0 guarded hbuilt, ?_⟩
  refine (survives_text.1 _ hw').2.2 fun hv' => ?_
  exact absurd (hv'.resolved 4 .root) (by decide)

end Definition

end Perdure
