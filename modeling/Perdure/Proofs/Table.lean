import Mathlib.Data.List.Basic
import Mathlib.Data.List.Induction
import Perdure.Table

/-!
# Tables and their contents

A table is determined by what it holds, so it can be built again from any arrangement of its
entries.

## Main definitions

* `Table.mapValues` — a table with other values under the same keys.

## Main results

* `Table.eq_empty_of_get?` — a table that holds nothing is empty.
* `Table.ofList_of_perm`, `KeySet.ofMembers_keys` — a table of its own entries, a set of its own
  members.
* `KeySet.contains_union` — what a union holds.
-/

namespace Perdure

open Std

namespace Table

variable {κ ν : Type} [Ord κ] [TransOrd κ]

theorem find_self (k : κ) (v : ν) (rest : List (κ × ν)) : find k ((k, v) :: rest) = some v := by
  have hk : compare k k = .eq := ReflCmp.compare_self
  simp only [find, hk]

/-- A table that holds nothing is empty. -/
theorem eq_empty_of_get? {t : Table κ ν} (h : ∀ k, t.get? k = none) : t = ∅ := by
  obtain ⟨entries, ordered⟩ := t
  cases entries with
  | nil => rfl
  | cons e rest =>
    have hk := h e.1
    rw [get?, find_self] at hk
    cases hk

omit [TransOrd κ] in
theorem find_eq_none [LawfulEqOrd κ] {k : κ} {l : List (κ × ν)} (h : k ∉ l.map Prod.fst) :
    find k l = none := by
  induction l with
  | nil => rfl
  | cons e rest ih =>
    rw [List.map_cons, List.mem_cons, not_or] at h
    rw [find]
    split
    · next heq => exact absurd (eq_of_compare_eq heq) h.1
    · exact ih h.2

omit [TransOrd κ] in
/-- A value that is found stands in the list under its key. -/
theorem mem_of_find [LawfulEqOrd κ] {k : κ} {v : ν} {l : List (κ × ν)} (h : find k l = some v) :
    (k, v) ∈ l := by
  induction l with
  | nil => cases h
  | cons e rest ih =>
    rw [find] at h
    split at h
    · next heq =>
      cases h
      rw [eq_of_compare_eq heq]
      exact List.mem_cons_self
    · exact List.mem_cons_of_mem _ (ih h)

/-- A value is found under every key of the list. -/
theorem isSome_find_iff [LawfulEqOrd κ] {k : κ} {l : List (κ × ν)} :
    (find k l).isSome = true ↔ k ∈ l.map Prod.fst := by
  constructor
  · intro h
    obtain ⟨v, hv⟩ := Option.isSome_iff_exists.1 h
    exact List.mem_map_of_mem (mem_of_find hv)
  · intro h
    induction l with
    | nil => cases h
    | cons e rest ih =>
      rw [List.map_cons, List.mem_cons] at h
      rcases h with rfl | h
      · rw [find_self]
        rfl
      · rw [find]
        split
        · rfl
        · exact ih h

theorem compare_self_ne_lt (k : κ) : compare k k ≠ .lt := by
  have hk : compare k k = .eq := ReflCmp.compare_self
  rw [hk]
  exact nofun

/-- No key stands twice in a table. -/
theorem nodup_keys {l : List (κ × ν)} (h : l.Pairwise fun a b => compare a.1 b.1 = .lt) :
    (l.map Prod.fst).Nodup := by
  refine List.pairwise_map.2 (h.imp fun {a b} hlt he => ?_)
  rw [he] at hlt
  exact compare_self_ne_lt b.1 hlt

/-- Where no key repeats, what is found under a key is what stands there. -/
theorem find_eq_some_iff [LawfulEqOrd κ] {k : κ} {v : ν} {l : List (κ × ν)}
    (h : (l.map Prod.fst).Nodup) : find k l = some v ↔ (k, v) ∈ l := by
  refine ⟨mem_of_find, fun he => ?_⟩
  induction l with
  | nil => cases he
  | cons e rest ih =>
    rw [List.map_cons, List.nodup_cons] at h
    rcases List.mem_cons.1 he with rfl | he
    · exact find_self k v rest
    · have hne : compare k e.1 ≠ .eq := fun heq =>
        h.1 (eq_of_compare_eq heq ▸ List.mem_map_of_mem he)
      rw [find]
      split
      · contradiction
      · exact ih h.2 he

theorem find_of_mem {k : κ} {v : ν} {l : List (κ × ν)}
    (h : l.Pairwise fun a b => compare a.1 b.1 = .lt) (he : (k, v) ∈ l) : find k l = some v := by
  induction l with
  | nil => cases he
  | cons e rest ih =>
    rw [List.pairwise_cons] at h
    rcases List.mem_cons.1 he with rfl | he
    · exact find_self k v rest
    · -- the keys before an entry are smaller than its own
      have hgt : compare k e.1 = .gt := OrientedCmp.gt_iff_lt.2 (h.1 _ he)
      rw [find, hgt]
      exact ih h.2 he

/-- A table holds its entries, and no others. -/
theorem mem_entries_iff [LawfulEqOrd κ] {t : Table κ ν} {e : κ × ν} :
    e ∈ t.entries ↔ t.get? e.1 = some e.2 :=
  ⟨fun he => find_of_mem t.ordered he, mem_of_find⟩

/-! ### Arrangements of entries -/

/-- The arrangement of entries with distinct keys does not matter. -/
theorem find_eq_of_perm [LawfulEqOrd κ] {l l' : List (κ × ν)} (h : l.Perm l')
    (hn : (l.map Prod.fst).Nodup) (k : κ) : find k l = find k l' :=
  Option.ext fun v => by
    rw [find_eq_some_iff hn, find_eq_some_iff ((h.map Prod.fst).nodup_iff.1 hn), h.mem_iff]

/-- Two tables with the same entries, in whatever arrangement, are equal. -/
theorem eq_of_perm {s t : Table κ ν} (h : s.entries.Perm t.entries) : s = t := by
  refine Table.ext (h.eq_of_pairwise ?_ s.ordered t.ordered)
  intro a b _ _ hab hba
  exact absurd (TransCmp.lt_trans hab hba) (compare_self_ne_lt a.1)

/-- Two tables in which the same is found are equal. -/
theorem eq_of_get? [LawfulEqOrd κ] {s t : Table κ ν} (h : ∀ k, s.get? k = t.get? k) : s = t := by
  have hnodup (t : Table κ ν) : t.entries.Nodup :=
    (List.pairwise_map.1 (nodup_keys t.ordered)).imp fun hne he => hne (congrArg Prod.fst he)
  refine eq_of_perm ((List.perm_ext_iff_of_nodup (hnodup s) (hnodup t)).2 fun e => ?_)
  rw [mem_entries_iff, mem_entries_iff, h e.1]

omit [TransOrd κ] in
/-- Placing an entry with a new key adds the entry. -/
theorem perm_place [LawfulEqOrd κ] {k : κ} {l : List (κ × ν)} (h : k ∉ l.map Prod.fst) (v : ν) :
    (place k v l).Perm ((k, v) :: l) := by
  induction l with
  | nil => exact .refl _
  | cons e rest ih =>
    obtain ⟨k', v'⟩ := e
    rw [List.map_cons, List.mem_cons, not_or] at h
    simp only [place]
    split
    · exact .refl _
    · next heq => exact absurd (eq_of_compare_eq heq) h.1
    · exact ((ih h.2).cons _).trans (.swap _ _ _)

variable [LawfulEqOrd κ]

omit [TransOrd κ] in
/-- Placing entries with new keys, no two of them equal, adds the entries. -/
theorem perm_foldl_place {l : List (κ × ν)} (placed : List (κ × ν)) (hl : (l.map Prod.fst).Nodup)
    (hp : ∀ k ∈ l.map Prod.fst, k ∉ placed.map Prod.fst) :
    (l.foldl (fun p e => place e.1 e.2 p) placed).Perm (l ++ placed) := by
  induction l generalizing placed with
  | nil => exact .refl _
  | cons e rest ih =>
    rw [List.map_cons, List.nodup_cons] at hl
    have hnew := perm_place (hp e.1 (by simp)) e.2
    refine (ih _ hl.2 ?_).trans ?_
    · intro k hk hmem
      rw [(hnew.map Prod.fst).mem_iff, List.map_cons, List.mem_cons] at hmem
      rcases hmem with rfl | hmem
      · exact hl.1 hk
      · exact hp k (List.mem_cons_of_mem _ hk) hmem
    · exact (hnew.append_left rest).trans (List.perm_middle)

theorem entries_foldl_insert (l : List (κ × ν)) (t : Table κ ν) :
    (l.foldl (fun t e => t.insert e.1 e.2) t).entries =
      l.foldl (fun p e => place e.1 e.2 p) t.entries := by
  induction l generalizing t with
  | nil => rfl
  | cons e rest ih => exact ih (t.insert e.1 e.2)

theorem mem_of_mem_foldl_insert {l : List (κ × ν)} {t : Table κ ν} {e : κ × ν}
    (h : e ∈ (l.foldl (fun t e => t.insert e.1 e.2) t).entries) : e ∈ l ∨ e ∈ t.entries := by
  induction l generalizing t with
  | nil => exact .inr h
  | cons a rest ih =>
    rcases ih h with he | he
    · exact .inl (List.mem_cons_of_mem a he)
    · rcases mem_place he with rfl | he
      · exact .inl List.mem_cons_self
      · exact .inr he

/-- A table holds no other entries than those it is built of. -/
theorem mem_of_mem_ofList {l : List (κ × ν)} {e : κ × ν} (h : e ∈ (ofList l).entries) : e ∈ l :=
  (mem_of_mem_foldl_insert h).resolve_right List.not_mem_nil

/-- A table that is built of a list holds what the list has for a key last. -/
theorem get?_ofList [BEq κ] [LawfulBEq κ] [DecidableEq κ] (l : List (κ × ν)) (q : κ) :
    (ofList l).get? q = l.reverse.lookup q := by
  induction l using List.reverseRecOn with
  | nil => rfl
  | append_singleton l e ih =>
    rw [ofList, List.foldl_concat, ← ofList, get?_insert, ih, List.reverse_concat,
      List.lookup_cons]
    by_cases h : q = e.1
    · rw [if_pos h, beq_iff_eq.2 h]
    · rw [if_neg h, beq_eq_false_iff_ne.2 h]

/-- A table is built from any arrangement of its entries. -/
theorem ofList_of_perm {t : Table κ ν} {l : List (κ × ν)} (h : l.Perm t.entries) :
    ofList l = t := by
  have hl : (l.map Prod.fst).Nodup := (h.map Prod.fst).nodup_iff.2 (nodup_keys t.ordered)
  refine eq_of_perm ?_
  rw [ofList, entries_foldl_insert]
  have hfold := perm_foldl_place [] hl (fun _ _ => List.not_mem_nil)
  rw [List.append_nil] at hfold
  exact hfold.trans h

/-! ### Other values under the same keys -/

section

omit [TransOrd κ] [LawfulEqOrd κ]

variable {μ : Type} (f : ν → μ) (t : Table κ ν)

/-- A table with other values under the same keys. -/
def mapValues : Table κ μ :=
  ⟨t.entries.map fun e => (e.1, f e.2), List.pairwise_map.2 t.ordered⟩

@[simp] theorem mapValues_id : t.mapValues id = t := Table.ext (List.map_id t.entries)

@[simp] theorem keys_mapValues : (t.mapValues f).keys = t.keys := by
  rw [keys, mapValues, List.map_map]
  rfl

@[simp] theorem get?_mapValues (k : κ) : (t.mapValues f).get? k = (t.get? k).map f := by
  have hfind (l : List (κ × ν)) :
      find k (l.map fun e => (e.1, f e.2)) = (find k l).map f := by
    induction l with
    | nil => rfl
    | cons e rest ih =>
      simp only [List.map_cons, find]
      split
      · rfl
      · exact ih
  exact hfind t.entries

@[simp] theorem contains_mapValues (k : κ) : (t.mapValues f).contains k = t.contains k := by
  rw [contains, contains, get?_mapValues, Option.isSome_map]

end

theorem mapValues_insert [DecidableEq κ] {μ : Type} (f : ν → μ) (t : Table κ ν) (k : κ) (v : ν) :
    (t.insert k v).mapValues f = (t.mapValues f).insert k (f v) := by
  refine eq_of_get? fun q => ?_
  rw [get?_mapValues, get?_insert, get?_insert, get?_mapValues, apply_ite (Option.map f)]
  rfl

theorem mapValues_erase [DecidableEq κ] {μ : Type} (f : ν → μ) (t : Table κ ν) (k : κ) :
    (t.erase k).mapValues f = (t.mapValues f).erase k := by
  refine eq_of_get? fun q => ?_
  rw [get?_mapValues, get?_erase, get?_erase, get?_mapValues, apply_ite (Option.map f)]
  rfl

end Table

namespace KeySet

variable {κ : Type} [Ord κ] [TransOrd κ] [LawfulEqOrd κ]

/-- A set holds its members. -/
theorem contains_iff_mem_keys {s : KeySet κ} {k : κ} : Table.contains s k = true ↔ k ∈ s.keys :=
  Table.isSome_find_iff

/-- A set holds the members that are added and what it held before. -/
theorem contains_foldl_add [DecidableEq κ] (ks : List κ) (s : KeySet κ) (q : κ) :
    Table.contains (ks.foldl add s) q = true ↔ q ∈ ks ∨ Table.contains s q = true := by
  induction ks generalizing s with
  | nil => simp
  | cons k ks ih =>
    rw [List.foldl_cons, ih, contains_add, Bool.or_eq_true, decide_eq_true_eq, List.mem_cons]
    exact or_left_comm.trans or_assoc.symm

/-- A union holds what either set holds. -/
theorem contains_union [DecidableEq κ] (s t : KeySet κ) (q : κ) :
    Table.contains (s.union t) q = true ↔ Table.contains s q = true ∨ Table.contains t q = true := by
  rw [union, contains_foldl_add, ← contains_iff_mem_keys]
  exact or_comm

/-- A set is built from its members. -/
theorem ofMembers_keys (s : KeySet κ) : ofMembers s.keys = s := by
  have hentries : s.keys.map (fun k => (k, ())) = s.entries := by
    rw [Table.keys, List.map_map]
    exact List.map_id _
  have hfold : ofMembers s.keys = Table.ofList (s.keys.map fun k => (k, ())) := by
    rw [Table.ofList, List.foldl_map]
    rfl
  rw [hfold, hentries]
  exact Table.ofList_of_perm (.refl _)

end KeySet

end Perdure
