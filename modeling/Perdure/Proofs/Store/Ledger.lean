import Mathlib.Data.List.Nodup
import Perdure.Proofs.Store.Basic
import Perdure.Proofs.Store.Column

/-!
# A store and a ledger

A ledger and a store that are called alike hold the same records, and answer alike.  They may differ
on the order of active instances alone: a store sorts by times, a ledger by their texts.

## Main definitions

* `Change.Valid`, `StoreCall.Valid` — changes and calls whose times are valid instants.
* `Ledger.Shows` — a ledger holds the columns of the records of a store.
* `Store.after`, `Ledger.after` — a store and a ledger after calls.

## Main results

* `Ledger.Shows.respond` — a call keeps a ledger and a store alike.
* `Ledger.shows_after` — so does any number of calls.
* `Ledger.respond_after` — a ledger and a store answer alike.
-/

namespace Perdure

/-! ### Rows -/

/-- A status is read back from its name. -/
@[simp] theorem Status.ofText?_text (s : Status) : Status.ofText? s.text = some s := by
  cases s <;> rfl

theorem Status.text_inj {s t : Status} : s.text = t.text ↔ s = t :=
  ⟨fun h => by simpa using congrArg Status.ofText? h, congrArg Status.text⟩

/-- A change whose times are valid instants. -/
def Change.Valid : Change → Prop
  | .create r => r.Valid
  | .complete _ _ _ t => t.Valid
  | .setState .. | .markBroken .. => True

/-- A call whose times are valid instants. -/
def StoreCall.Valid : StoreCall → Prop
  | .change c => c.Valid
  | .record _ | .state _ | .active _ => True

/-- A change keeps the times of a record valid. -/
theorem Change.Valid.update {c : Change} (hc : c.Valid) {r : Record} (hr : r.Valid) :
    (c.update r).Valid := by
  cases c with
  | create => exact hr
  | setState | markBroken => exact ⟨hr.created, hr.completed⟩
  | complete id status fault t =>
    refine ⟨hr.created, ?_⟩
    rintro _ ⟨⟩
    exact hc

namespace Row

/-- A record is read back from its columns. -/
theorem record?_ofRecord {r : Record} (h : r.Valid) : (ofRecord r).record? = some r := by
  obtain ⟨id, process, status, state, fault, created, completed⟩ := r
  have hcreated : Instant.ofStored? created.column = some created :=
    Instant.ofStored?_column h.created
  cases completed with
  | none => simp [record?, ofRecord, hcreated]
  | some t =>
    have ht : Instant.ofStored? t.column = some t := Instant.ofStored?_column (h.completed t rfl)
    simp [record?, ofRecord, hcreated, ht]

/-- A change of columns is the change of the record. -/
theorem update_ofRecord (r : Record) (c : Change) :
    (ofRecord r).update c = ofRecord (c.update r) := by
  cases c <;> rfl

@[simp] theorem instanceId_update (row : Row) (c : Change) :
    (row.update c).instanceId = row.instanceId := by
  cases c <;> rfl

end Row

namespace Ledger

/-! ### Rows by name -/

/-- A row is found by its name. -/
theorem row?_eq_some_iff {l : Ledger} {id : InstanceId} {row : Row} :
    l.row? id = some row ↔ row ∈ l.rows ∧ row.instanceId = id := by
  have hfound {row : Row} (h : l.row? id = some row) : row ∈ l.rows ∧ row.instanceId = id :=
    ⟨List.mem_of_find?_eq_some h, by simpa using List.find?_some h⟩
  refine ⟨hfound, fun ⟨hmem, hname⟩ => ?_⟩
  obtain ⟨row', hrow'⟩ : ∃ row', l.row? id = some row' :=
    Option.isSome_iff_exists.1 (List.find?_isSome.2 ⟨row, hmem, by simpa using hname⟩)
  have hsame := List.inj_on_of_nodup_map l.distinct hmem (hfound hrow').1
    (hname.trans (hfound hrow').2.symm)
  rw [hsame]
  exact hrow'

theorem row?_eq_none_iff {l : Ledger} {id : InstanceId} :
    l.row? id = none ↔ id ∉ l.rows.map (·.instanceId) := by
  simp [row?]

/-- A row is added where its name has none. -/
theorem exists_add {l : Ledger} (row : Row) (h : l.row? row.instanceId = none) :
    ∃ l', l.add row = some l' ∧
      ∀ id, l'.row? id = if id = row.instanceId then some row else l.row? id := by
  refine ⟨_, dif_neg (row?_eq_none_iff.1 h), fun id => ?_⟩
  unfold row? at h ⊢
  rw [List.find?_append]
  split
  · next hid =>
    rw [hid, h, List.find?_singleton]
    simp
  · next hid =>
    have hother : ¬ row.instanceId = id := fun he => hid he.symm
    simp [hother]

theorem add_eq_none {l : Ledger} {row : Row} (h : l.row? row.instanceId ≠ none) :
    l.add row = none := by
  rw [ne_eq, row?_eq_none_iff, not_not] at h
  exact dif_pos h

/-- A change of a row is seen at its own name and nowhere else. -/
theorem row?_modify (l : Ledger) (c : Change) (id : InstanceId) :
    (l.modify c).row? id =
      if id = c.target then (l.row? id).map (·.update c) else l.row? id := by
  have hname (row : Row) :
      (if row.instanceId = c.target then row.update c else row).instanceId = row.instanceId := by
    split
    · exact Row.instanceId_update row c
    · rfl
  unfold row? modify
  rw [List.find?_map]
  simp only [Function.comp_def, hname]
  cases hrow : l.rows.find? (·.instanceId = id) with
  | none => simp
  | some row =>
    have hid : row.instanceId = id := by simpa using List.find?_some hrow
    simp only [Option.map_some, hid]
    split <;> rfl

/-! ### A ledger beside a store -/

/-- A ledger that holds the columns of the records of a store. -/
structure Shows (l : Ledger) (s : Store) : Prop where
  row?_eq : ∀ id, l.row? id = (s.get? id).map Row.ofRecord
  valid : ∀ id r, s.get? id = some r → r.Valid

namespace Shows

variable {l : Ledger} {s : Store}

theorem empty : Ledger.empty.Shows Store.empty where
  row?_eq _ := rfl
  valid _ _ h := by cases h

/-- A change that a store takes is taken by the ledger and leaves the two alike; where the store
refuses, the ledger refuses for the same reason. -/
theorem apply (h : l.Shows s) {c : Change} (hc : c.Valid) :
    (∃ l' s', l.apply c = .ok l' ∧ c.apply s = .ok s' ∧ l'.Shows s') ∨
      ∃ e, l.apply c = .error e ∧ c.apply s = .error e := by
  have hrow := h.row?_eq c.target
  by_cases hcreate : ∃ r, c = .create r
  · obtain ⟨r, rfl⟩ := hcreate
    replace hrow : l.row? r.instanceId = (s.get? r.instanceId).map Row.ofRecord := hrow
    cases hr : s.get? r.instanceId with
    | some old =>
      rw [hr] at hrow
      refine .inr ⟨.alreadyExists r.instanceId, ?_, ?_⟩
      · have hnone : l.add (.ofRecord r) = none := add_eq_none (by
          show l.row? r.instanceId ≠ none
          simp [hrow])
        simp only [Ledger.apply, hnone]
      · simp only [Change.apply, hr]
    | none =>
      rw [hr] at hrow
      obtain ⟨l', hl', hrows⟩ := exists_add (.ofRecord r) hrow
      refine .inl ⟨l', s.insert r, by simp only [Ledger.apply, hl'], by simp only [Change.apply, hr],
        fun id => ?_, fun id r' hr' => ?_⟩
      · rw [hrows, Store.get?_insert, h.row?_eq]
        show (if id = r.instanceId then _ else _) = _
        split <;> rfl
      · rw [Store.get?_insert] at hr'
        split at hr'
        · cases hr'
          exact hc
        · exact h.valid id r' hr'
  · have hne (r : Record) : c ≠ .create r := fun he => hcreate ⟨r, he⟩
    have happly : l.apply c =
        if (l.row? c.target).isSome then .ok (l.modify c) else .error (.notFound c.target) := by
      cases c with
      | create r => exact absurd rfl (hne r)
      | setState | complete | markBroken => rfl
    cases hr : s.get? c.target with
    | none =>
      refine .inr ⟨.notFound c.target, by simp [happly, hrow, hr], ?_⟩
      cases c with
      | create r => exact absurd rfl (hne r)
      | setState | complete | markBroken =>
        show (s.record _).map _ = _
        rw [Store.record_of_missing hr]
        rfl
    | some r =>
      refine .inl ⟨l.modify c, s.insert (c.update r), by simp [happly, hrow, hr],
        Change.apply_of_get? hne hr, fun id => ?_, fun id r' hr' => ?_⟩
      · rw [row?_modify, h.row?_eq, Store.get?_insert, Change.instanceId_update,
          Store.instanceId_of_get? hr]
        split
        · next hid =>
          rw [hid, hr, Option.map_some, Option.map_some, Row.update_ofRecord, Option.map_some]
        · rfl
      · rw [Store.get?_insert] at hr'
        split at hr'
        · cases hr'
          exact hc.update (h.valid _ r hr)
        · exact h.valid id r' hr'

/-- A call leaves a ledger and a store alike, and unless it asks for the active instances of a
process it is answered alike. -/
theorem respond (h : l.Shows s) {c : StoreCall} (hc : c.Valid) :
    (l.respond c).2.Shows (s.respond c).2 ∧
      ((∀ processId, c ≠ .active processId) → (l.respond c).1 = (s.respond c).1) := by
  cases c with
  | change c =>
    simp only [Ledger.respond, Store.respond]
    rcases h.apply hc with ⟨l', s', hl, hs, h'⟩ | ⟨e, hl, hs⟩
    · rw [hl, hs]
      exact ⟨h', fun _ => rfl⟩
    · rw [hl, hs]
      exact ⟨h, fun _ => rfl⟩
  | record id =>
    simp only [Ledger.respond, Store.respond, h.row?_eq id]
    cases hr : s.get? id with
    | none =>
      rw [Store.record_of_missing hr]
      exact ⟨h, fun _ => rfl⟩
    | some r =>
      rw [Store.record_of_get? hr, Option.map_some]
      simp only [Row.record?_ofRecord (h.valid id r hr), implies_true, and_true]
      exact h
  | state id =>
    simp only [Ledger.respond, Store.respond, h.row?_eq id]
    cases hr : s.get? id with
    | none =>
      rw [Store.record_of_missing hr]
      exact ⟨h, fun _ => rfl⟩
    | some r =>
      rw [Store.record_of_get? hr, Option.map_some]
      exact ⟨h, fun _ => rfl⟩
  | active processId => exact ⟨h, fun hne => absurd rfl (hne processId)⟩

/-- A ledger lists the active instances in the order of the texts of their ages. -/
theorem lists_active (h : l.Shows s) (processId : String) :
    s.Lists processId (fun a b => (compare a.createdAt.column b.createdAt.column).isLE = true)
      (l.active processId) := by
  -- a row of the ledger is the row of the record with its name
  have hshown {row : Row} (hrow : row ∈ l.rows) {r : Record} (hr : s.get? row.instanceId = some r) :
      row = .ofRecord r := by
    have hfound := row?_eq_some_iff.2 ⟨hrow, rfl⟩
    rw [h.row?_eq, hr] at hfound
    exact (Option.some.inj hfound).symm
  refine Store.Lists.of_mergeSort ?_ ?_ ?_ ?_ ?_
  · intro a b c hab hbc
    exact Std.TransCmp.isLE_trans hab hbc
  · intro a b
    cases horder : compare a.createdAt b.createdAt with
    | lt | eq => rfl
    | gt =>
      rw [Std.OrientedCmp.gt_iff_lt.1 horder]
      rfl
  · exact l.distinct.sublist (List.filter_sublist.map _)
  · intro id
    simp only [List.mem_map, List.mem_filter, Bool.and_eq_true, decide_eq_true_eq]
    constructor
    · rintro ⟨row, ⟨hrow, hprocess, hactive⟩, rfl⟩
      obtain ⟨r, hr⟩ : ∃ r, s.get? row.instanceId = some r := by
        have hfound := row?_eq_some_iff.2 ⟨hrow, rfl⟩
        rw [h.row?_eq, Option.map_eq_some_iff] at hfound
        exact hfound.imp fun r hr => hr.1
      obtain rfl := hshown hrow hr
      exact ⟨r, hr, hprocess, Status.text_inj.1 hactive⟩
    · rintro ⟨r, hr, hprocess, hactive⟩
      have hfound : l.row? id = some (.ofRecord r) := by rw [h.row?_eq, hr, Option.map_some]
      obtain ⟨hrow, hid⟩ := row?_eq_some_iff.1 hfound
      exact ⟨.ofRecord r, ⟨hrow, hprocess, Status.text_inj.2 hactive⟩, hid⟩
  · intro a ha b hb hle ra rb hra hrb
    have hrow := hshown (List.mem_filter.1 ha).1 hra
    have hrow' := hshown (List.mem_filter.1 hb).1 hrb
    rw [hrow, hrow'] at hle
    exact hle

/-- A ledger lists the active instances oldest first where the years of their ages have four digits. -/
theorem lists_active_of_fourDigits (h : l.Shows s) {processId : String}
    (hyears : ∀ id r, s.get? id = some r → r.isActiveOf processId = true →
      r.createdAt.FourDigits) :
    s.Lists processId (fun a b => a.createdAt.isAtMost b.createdAt = true)
      (l.active processId) := by
  have hlists := h.lists_active processId
  have hactive {id : InstanceId} (hid : id ∈ l.active processId) {r : Record}
      (hr : s.get? id = some r) : r.createdAt.Valid ∧ r.createdAt.FourDigits := by
    obtain ⟨r', hr', hprocess, hstatus⟩ := (hlists.mem_iff id).1 hid
    rw [hr] at hr'
    cases hr'
    exact ⟨(h.valid id r hr).created,
      hyears id r hr (by simp [Record.isActiveOf, hprocess, hstatus])⟩
  refine ⟨hlists.nodup, hlists.mem_iff, ?_⟩
  refine List.Pairwise.imp_of_mem (fun {a b} ha hb hle => ?_) hlists.ordered
  intro ra rb hra hrb
  obtain ⟨hva, hya⟩ := hactive ha hra
  obtain ⟨hvb, hyb⟩ := hactive hb hrb
  by_contra hlater
  rw [Bool.not_eq_true] at hlater
  -- a later instance would have the larger text
  have hlt := Std.OrientedCmp.gt_iff_lt.2 (Instant.compare_column hvb hva hyb hya hlater)
  have hle := hle ra rb hra hrb
  rw [hlt] at hle
  exact Bool.noConfusion hle

end Shows

end Ledger

/-! ### Any number of calls -/

/-- A store after calls. -/
def Store.after (s : Store) (calls : List StoreCall) : Store :=
  calls.foldl (fun s c => (s.respond c).2) s

/-- A ledger after calls. -/
def Ledger.after (l : Ledger) (calls : List StoreCall) : Ledger :=
  calls.foldl (fun l c => (l.respond c).2) l

namespace Ledger

/-- Calls leave a ledger and a store alike. -/
theorem Shows.after {l : Ledger} {s : Store} (h : l.Shows s) {calls : List StoreCall}
    (hcalls : ∀ c ∈ calls, c.Valid) : (l.after calls).Shows (s.after calls) := by
  induction calls generalizing l s with
  | nil => exact h
  | cons c rest ih =>
    exact ih (h.respond (hcalls c List.mem_cons_self)).1
      fun d hd => hcalls d (List.mem_cons_of_mem c hd)

/-- **A store and a ledger answer alike.**  After the same calls, every call but the one for active
instances has the same answer.  Both list exactly the active instances of a process, each once; the
store has them oldest first, the ledger by the texts of their ages.  Where the years of the ages have
four digits, the ledger has them oldest first as well, so that only instances of one age may stand in
another order. -/
theorem respond_after {past : List StoreCall} (hpast : ∀ c ∈ past, c.Valid) {c : StoreCall}
    (hc : c.Valid) :
    let s := Store.empty.after past
    let l := Ledger.empty.after past
    ((∀ processId, c ≠ .active processId) → (l.respond c).1 = (s.respond c).1) ∧
      ∀ processId, c = .active processId → ∃ ids ids',
        (s.respond c).1 = .active ids ∧ (l.respond c).1 = .active ids' ∧
        s.Lists processId (fun a b => a.createdAt.isAtMost b.createdAt = true) ids ∧
        s.Lists processId
          (fun a b => (compare a.createdAt.column b.createdAt.column).isLE = true) ids' ∧
        ((∀ id r, s.get? id = some r → r.isActiveOf processId = true → r.createdAt.FourDigits) →
          s.Lists processId (fun a b => a.createdAt.isAtMost b.createdAt = true) ids' ∧
          ids.map (fun id => (s.get? id).map (·.createdAt)) =
            ids'.map fun id => (s.get? id).map (·.createdAt)) := by
  intro s l
  have hshows : l.Shows s := Shows.empty.after hpast
  refine ⟨(hshows.respond hc).2, ?_⟩
  rintro processId rfl
  refine ⟨s.active processId, l.active processId, rfl, rfl, s.lists_active processId,
    hshows.lists_active processId, fun hyears => ?_⟩
  have hlists := hshows.lists_active_of_fourDigits hyears
  exact ⟨hlists, (s.lists_active processId).map_createdAt_eq hlists⟩

/-- An active order of a certain day. -/
def order (id : InstanceId) (date : Date) : Record where
  instanceId := id
  processId := "orders"
  state := none
  createdAt := .ofDate date 0 0

/-- An order of the last day of the year 9999, and one of the day after. -/
def lateOrders : List StoreCall :=
  [.change (.create (order 1 ⟨9999, 12, 31⟩)), .change (.create (order 2 ⟨10000, 1, 1⟩))]

/-- Beyond the year 9999 a ledger has the younger instance first. -/
theorem active_lateOrders : (Store.empty.after lateOrders).active "orders" = [1, 2] ∧
    (Ledger.empty.after lateOrders).active "orders" = [2, 1] := by
  have hpair {α : Type} (le : α → α → Bool) (a b : α) :
      [a, b].mergeSort le = if le a b then [a, b] else [b, a] := by
    simp [List.mergeSort, List.merge]
  have hrecords : (Store.empty.after lateOrders).toList =
      [order 1 ⟨9999, 12, 31⟩, order 2 ⟨10000, 1, 1⟩] := by decide
  have hrows : (Ledger.empty.after lateOrders).rows =
      [.ofRecord (order 1 ⟨9999, 12, 31⟩), .ofRecord (order 2 ⟨10000, 1, 1⟩)] := rfl
  have hage : (Instant.ofDate ⟨9999, 12, 31⟩ 0 0).isAtMost (.ofDate ⟨10000, 1, 1⟩ 0 0) = true := by
    decide
  -- the plus sign before the year 10000 comes before every digit
  have htext : compare (Instant.ofDate ⟨9999, 12, 31⟩ 0 0).column
      (Instant.ofDate ⟨10000, 1, 1⟩ 0 0).column = .gt := by decide +kernel
  constructor
  · unfold Store.active
    simp [hrecords, hpair, order, Record.isActiveOf, hage]
  · unfold Ledger.active
    simp [hrows, hpair, Row.ofRecord, order, htext]

theorem respond_after_lateOrders :
    (∀ c ∈ lateOrders, c.Valid) ∧ (StoreCall.active "orders").Valid ∧
      ((Store.empty.after lateOrders).respond (.active "orders")).1 = .active [1, 2] ∧
      ((Ledger.empty.after lateOrders).respond (.active "orders")).1 = .active [2, 1] ∧
      (Store.empty.after lateOrders).Lists "orders"
        (fun a b => (compare a.createdAt.column b.createdAt.column).isLE = true) [2, 1] := by
  have hvalid : ∀ c ∈ lateOrders, c.Valid := by
    intro c hc
    simp only [lateOrders, List.mem_cons, List.not_mem_nil, or_false] at hc
    rcases hc with rfl | rfl
    · exact ⟨⟨by decide, .inl (by decide)⟩, nofun⟩
    · exact ⟨⟨by decide, .inl (by decide)⟩, nofun⟩
  obtain ⟨hstore, hledger⟩ := active_lateOrders
  obtain ⟨ids, ids', hids, hids', -, hlists, -⟩ :=
    (respond_after hvalid (c := .active "orders") trivial).2 "orders" rfl
  simp only [Store.respond, Ledger.respond, hstore, hledger] at hids hids'
  cases hids
  cases hids'
  exact ⟨hvalid, trivial, congrArg StoreAnswer.active hstore,
    congrArg StoreAnswer.active hledger, hlists⟩

end Ledger

end Perdure
