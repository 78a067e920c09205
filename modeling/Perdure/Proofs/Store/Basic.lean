import Perdure.Proofs.Table
import Perdure.Proofs.Time.Order
import Perdure.Proofs.Time.Stored
import Perdure.Store.Basic

/-!
# Records in a store

What a change makes of a store, and which instances a store lists as active.

## Main definitions

* `Record.Valid` — the times of a record are valid instants.
* `Store.Lists` — a list of the active instances of a process in an order of their records.

## Main results

* `Change.exists_of_apply` — a change puts in one record, new or in exchange for another.
* `Change.get?_of_apply` — it leaves the records of all other instances.
* `Store.lists_active` — the active instances of a process are listed oldest first.
* `Store.mem_active_iff` — they are the active records with its name.
-/

namespace Perdure

/-- A record whose times are valid instants. -/
structure Record.Valid (r : Record) : Prop where
  created : r.createdAt.Valid
  completed : ∀ t, r.completedAt = some t → t.Valid

/-! ### Changes -/

/-- A change keeps the name of a record. -/
@[simp] theorem Change.instanceId_update (r : Record) (c : Change) :
    (c.update r).instanceId = r.instanceId := by
  cases c <;> rfl

/-- A record stands at the name of its instance. -/
theorem Store.instanceId_of_get? {s : Store} {id : InstanceId} {r : Record}
    (h : s.get? id = some r) : r.instanceId = id :=
  s.keyed (id, r) (Table.mem_of_find h)

/-- A record that is put in stands at the name of its instance. -/
theorem Store.get?_insert_self (s : Store) {id : InstanceId} {r : Record}
    (hid : r.instanceId = id) : (s.insert r).get? id = some r := by
  rw [get?_insert, if_pos hid.symm]

/-- The record of an instance, once changed, stands in its place. -/
theorem Store.get?_insert_update {s : Store} {id : InstanceId} {r : Record}
    (h : s.get? id = some r) (c : Change) :
    (s.insert (c.update r)).get? id = some (c.update r) :=
  get?_insert_self s ((Change.instanceId_update r c).trans (instanceId_of_get? h))

theorem Store.record_of_get? {s : Store} {id : InstanceId} {r : Record}
    (h : s.get? id = some r) : s.record id = .ok r := by
  unfold record
  rw [h]

theorem Store.record_of_missing {s : Store} {id : InstanceId} (h : s.get? id = none) :
    s.record id = .error (.notFound id) := by
  unfold record
  rw [h]

/-- A change of a record that is there is made. -/
theorem Change.apply_of_get? {s : Store} {c : Change} {r : Record} (hc : ∀ new, c ≠ .create new)
    (hr : s.get? c.target = some r) : c.apply s = .ok (s.insert (c.update r)) := by
  cases c with
  | create new => exact absurd rfl (hc new)
  | setState | complete | markBroken =>
    show (s.record _).map _ = _
    rw [Store.record_of_get? hr]
    rfl

/-- What a change makes of a store: a new record, or another one in exchange for the old. -/
theorem Change.exists_of_apply {s s' : Store} {c : Change} (h : c.apply s = .ok s') :
    (∃ r, c = .create r ∧ s.get? r.instanceId = none ∧ s' = s.insert r) ∨
      ∃ r, s.get? c.target = some r ∧ s' = s.insert (c.update r) := by
  unfold Change.apply at h
  split at h
  · next r =>
    split at h
    · cases h
    · next hr =>
      cases h
      exact .inl ⟨r, rfl, hr, rfl⟩
  · next c _ =>
    unfold Store.record at h
    split at h
    · next r hr =>
      cases h
      exact .inr ⟨r, hr, rfl⟩
    · cases h

/-- A change leaves the records of all instances but its target. -/
theorem Change.get?_of_apply {s s' : Store} {c : Change} (h : c.apply s = .ok s')
    {other : InstanceId} (hne : other ≠ c.target) : s'.get? other = s.get? other := by
  rcases exists_of_apply h with ⟨r, rfl, -, rfl⟩ | ⟨r, hr, rfl⟩
  · rw [Store.get?_insert]
    exact if_neg hne
  · have hr := Store.instanceId_of_get? hr
    rw [Store.get?_insert, instanceId_update, hr, if_neg hne]

/-- Two stores with the same records are equal. -/
theorem Store.eq_of_get? {s t : Store} (h : ∀ id, s.get? id = t.get? id) : s = t := by
  obtain ⟨records, keyed⟩ := s
  obtain ⟨records', keyed'⟩ := t
  obtain rfl : records = records' := Table.eq_of_get? h
  rfl

/-- Of two records of one instance, the one that is put in last stays. -/
theorem Store.insert_insert (s : Store) {r r' : Record} (h : r.instanceId = r'.instanceId) :
    (s.insert r).insert r' = s.insert r' := by
  refine eq_of_get? fun id => ?_
  rw [get?_insert, get?_insert, get?_insert, h]
  split <;> rfl

/-! ### Active instances -/

/-- A list of the active instances of a process: each of them once, and in the given order of their
records. -/
structure Store.Lists (s : Store) (processId : String) (before : Record → Record → Prop)
    (ids : List InstanceId) : Prop where
  nodup : ids.Nodup
  mem_iff : ∀ id, id ∈ ids ↔
    ∃ r, s.get? id = some r ∧ r.processId = processId ∧ r.status = .active
  ordered : ids.Pairwise fun a b =>
    ∀ ra rb, s.get? a = some ra → s.get? b = some rb → before ra rb

namespace Store

variable {s : Store} {processId : String} {id : InstanceId}

/-- Two lists of the active instances hold the same instances. -/
theorem Lists.perm {before before' : Record → Record → Prop} {ids ids' : List InstanceId}
    (h : s.Lists processId before ids) (h' : s.Lists processId before' ids') : ids.Perm ids' :=
  (List.perm_ext_iff_of_nodup h.nodup h'.nodup).2 fun id => (h.mem_iff id).trans (h'.mem_iff id).symm

/-- Lists that are oldest first differ in the order of instances of one age alone: the ages that they
go through are the same. -/
theorem Lists.map_createdAt_eq {ids ids' : List InstanceId}
    (h : s.Lists processId (fun a b => a.createdAt.isAtMost b.createdAt = true) ids)
    (h' : s.Lists processId (fun a b => a.createdAt.isAtMost b.createdAt = true) ids') :
    ids.map (fun id => (s.get? id).map (·.createdAt)) =
      ids'.map fun id => (s.get? id).map (·.createdAt) := by
  have hages {ids : List InstanceId}
      (h : s.Lists processId (fun a b => a.createdAt.isAtMost b.createdAt = true) ids) :
      (ids.map fun id => (s.get? id).map (·.createdAt)).Pairwise fun o o' =>
        ∀ t t', o = some t → o' = some t' → t.isAtMost t' = true := by
    refine List.pairwise_map.2 (h.ordered.imp fun {a b} hab t t' ht ht' => ?_)
    obtain ⟨ra, hra, rfl⟩ := Option.map_eq_some_iff.1 ht
    obtain ⟨rb, hrb, rfl⟩ := Option.map_eq_some_iff.1 ht'
    exact hab ra rb hra hrb
  refine ((h.perm h').map _).eq_of_pairwise ?_ (hages h) (hages h')
  simp only [List.mem_map]
  rintro _ _ ⟨a, ha, rfl⟩ ⟨b, hb, rfl⟩ hab hba
  obtain ⟨ra, hra, -⟩ := (h.mem_iff a).1 ha
  obtain ⟨rb, hrb, -⟩ := (h'.mem_iff b).1 hb
  rw [hra, hrb] at hab hba ⊢
  exact congrArg some (Instant.eq_of_isAtMost (hab _ _ rfl rfl) (hba _ _ rfl rfl))

/-- Things that stand for the active instances list them in the order by which they are sorted. -/
theorem Lists.of_mergeSort {α : Type} {items : List α} {name : α → InstanceId}
    {le : α → α → Bool} (htrans : ∀ a b c, le a b = true → le b c = true → le a c = true)
    (htotal : ∀ a b, (le a b || le b a) = true) (hnodup : (items.map name).Nodup)
    (hmem : ∀ id, id ∈ items.map name ↔
      ∃ r, s.get? id = some r ∧ r.processId = processId ∧ r.status = .active)
    {before : Record → Record → Prop}
    (hbefore : ∀ a ∈ items, ∀ b ∈ items, le a b = true → ∀ ra rb, s.get? (name a) = some ra →
      s.get? (name b) = some rb → before ra rb) :
    s.Lists processId before ((items.mergeSort le).map name) where
  nodup := ((List.mergeSort_perm items le).map name).nodup_iff.2 hnodup
  mem_iff id := ((List.mergeSort_perm items le).map name).mem_iff.trans (hmem id)
  ordered := by
    refine List.pairwise_map.2 ((List.pairwise_mergeSort htrans htotal items).imp_of_mem ?_)
    intro a b ha hb hle
    exact hbefore a (List.mem_mergeSort.1 ha) b (List.mem_mergeSort.1 hb) hle

/-- A store lists the records that it holds. -/
theorem mem_toList_iff {r : Record} : r ∈ s.toList ↔ s.get? r.instanceId = some r := by
  unfold toList Table.values get?
  rw [List.mem_map]
  constructor
  · rintro ⟨⟨k, r'⟩, he, rfl⟩
    rw [s.keyed _ he]
    exact Table.mem_entries_iff.1 he
  · intro hr
    exact ⟨(r.instanceId, r), Table.mem_entries_iff.2 hr, rfl⟩

/-- No instance has two records. -/
theorem nodup_toList (s : Store) : (s.toList.map (·.instanceId)).Nodup := by
  have hkeys : s.toList.map (·.instanceId) = s.records.entries.map Prod.fst := by
    rw [toList, Table.values, List.map_map]
    exact List.map_congr_left s.keyed
  rw [hkeys]
  exact Table.nodup_keys s.records.ordered

/-- A store lists the active instances oldest first. -/
theorem lists_active (s : Store) (processId : String) :
    s.Lists processId (fun a b => a.createdAt.isAtMost b.createdAt = true)
      (s.active processId) := by
  refine Lists.of_mergeSort ?_ ?_ ?_ ?_ ?_
  · exact fun a b c => Instant.isAtMost_trans
  · exact fun a b => Instant.isAtMost_total
  · exact s.nodup_toList.sublist (List.filter_sublist.map _)
  · intro id
    simp only [List.mem_map, List.mem_filter, mem_toList_iff, Record.isActiveOf,
      Bool.and_eq_true, decide_eq_true_eq]
    constructor
    · rintro ⟨r, ⟨hr, hprocess, hactive⟩, rfl⟩
      exact ⟨r, hr, hprocess, hactive⟩
    · rintro ⟨r, hr, hprocess, hactive⟩
      obtain rfl := instanceId_of_get? hr
      exact ⟨r, ⟨hr, hprocess, hactive⟩, rfl⟩
  · intro a ha b hb hle ra rb hra hrb
    rw [mem_toList_iff.1 (List.mem_filter.1 ha).1] at hra
    rw [mem_toList_iff.1 (List.mem_filter.1 hb).1] at hrb
    cases hra
    cases hrb
    exact hle

/-- The active instances of a process are the active records with its name. -/
theorem mem_active_iff : id ∈ s.active processId ↔
    ∃ r, s.get? id = some r ∧ r.processId = processId ∧ r.status = .active :=
  (s.lists_active processId).mem_iff id

end Store

end Perdure
