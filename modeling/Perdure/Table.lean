/-!
# Tables: finite maps kept in key order

Every map that is written down or listed is kept in the order of its keys, so that one content
has one written form.  A `Table` is a list of entries with strictly increasing keys; the order is
part of the type, hence two tables are equal exactly when they hold the same entries.

## Main definitions

* `Table κ ν` — a finite map from `κ` to `ν`.
* `Table.get?`, `Table.insert`, `Table.erase` — look up, add or replace, remove.
* `KeySet κ` — a finite set, listed in order.

## Main results

* `Table.get?_insert`, `Table.get?_erase` — what an update changes, and what it keeps.
-/

namespace Perdure

open Std

/-- Values that compare equal are equal. -/
theorem eq_of_compare_eq {κ : Type} [Ord κ] [LawfulEqOrd κ] {a b : κ} (h : compare a b = .eq) :
    a = b := LawfulEqCmp.compare_eq_iff_eq.1 h

/-- A lexicographic comparison finds things equal that both of its parts find equal. -/
theorem eq_and_eq_of_compareLex {α : Type} {c d : α → α → Ordering} {a b : α}
    (h : compareLex c d a b = .eq) : c a b = .eq ∧ d a b = .eq := by
  simpa [compareLex] using h

/-- A finite map, its entries in strictly increasing order of the keys. -/
structure Table (κ : Type) (ν : Type) [Ord κ] where
  /-- The entries, smallest key first. -/
  entries : List (κ × ν)
  /-- Each key is below all keys after it. -/
  ordered : entries.Pairwise fun a b => compare a.1 b.1 = .lt
deriving DecidableEq, Repr

namespace Table

variable {κ ν μ : Type} [Ord κ]

/-! ### Entry lists -/

/-- The value at a key, in an entry list. -/
def find (k : κ) : List (κ × ν) → Option ν
  | [] => none
  | (k', v) :: rest => match compare k k' with
    | .eq => some v
    | _ => find k rest

/-- Put an entry in its place, in exchange for one with the same key. -/
def place (k : κ) (v : ν) : List (κ × ν) → List (κ × ν)
  | [] => [(k, v)]
  | (k', v') :: rest => match compare k k' with
    | .lt => (k, v) :: (k', v') :: rest
    | .eq => (k, v) :: rest
    | .gt => (k', v') :: place k v rest

/-- Leave out the entry with the given key. -/
def drop (k : κ) : List (κ × ν) → List (κ × ν)
  | [] => []
  | (k', v') :: rest => match compare k k' with
    | .eq => rest
    | _ => (k', v') :: drop k rest

theorem mem_place {k : κ} {v : ν} {l : List (κ × ν)} {e : κ × ν} (h : e ∈ place k v l) :
    e = (k, v) ∨ e ∈ l := by
  induction l with
  | nil => simpa [place] using h
  | cons a rest ih =>
    obtain ⟨k', v'⟩ := a
    simp only [place] at h
    split at h <;> simp only [List.mem_cons] at h ⊢ <;> grind

theorem mem_of_mem_drop {k : κ} {l : List (κ × ν)} {e : κ × ν} (h : e ∈ drop k l) : e ∈ l := by
  induction l with
  | nil => simp [drop] at h
  | cons a rest ih =>
    obtain ⟨k', v'⟩ := a
    simp only [drop] at h
    split at h <;> simp only [List.mem_cons] at h ⊢ <;> grind

theorem ordered_place [TransOrd κ] [LawfulEqOrd κ] (k : κ) (v : ν) {l : List (κ × ν)}
    (h : l.Pairwise fun a b => compare a.1 b.1 = .lt) :
    (place k v l).Pairwise fun a b => compare a.1 b.1 = .lt := by
  induction l with
  | nil => simp [place]
  | cons a rest ih =>
    obtain ⟨k', v'⟩ := a
    rw [List.pairwise_cons] at h
    simp only [place]
    split
    · next hlt =>
      refine List.pairwise_cons.2 ⟨fun e he => ?_, List.pairwise_cons.2 h⟩
      rcases List.mem_cons.1 he with rfl | he
      · exact hlt
      · exact TransCmp.lt_trans hlt (h.1 e he)
    · next heq =>
      have hk : k = k' := LawfulEqCmp.compare_eq_iff_eq.1 heq
      subst hk
      exact List.pairwise_cons.2 ⟨h.1, h.2⟩
    · next hgt =>
      refine List.pairwise_cons.2 ⟨fun e he => ?_, ih h.2⟩
      rcases mem_place he with rfl | he
      · exact OrientedCmp.gt_iff_lt.1 hgt
      · exact h.1 e he

theorem ordered_drop (k : κ) {l : List (κ × ν)}
    (h : l.Pairwise fun a b => compare a.1 b.1 = .lt) :
    (drop k l).Pairwise fun a b => compare a.1 b.1 = .lt := by
  induction l with
  | nil => simp [drop]
  | cons a rest ih =>
    obtain ⟨k', v'⟩ := a
    rw [List.pairwise_cons] at h
    simp only [drop]
    split
    · exact h.2
    · exact List.pairwise_cons.2 ⟨fun e he => h.1 e (mem_of_mem_drop he), ih h.2⟩

theorem find_place [TransOrd κ] [LawfulEqOrd κ] [DecidableEq κ] (k q : κ) (v : ν)
    (l : List (κ × ν)) : find q (place k v l) = if q = k then some v else find q l := by
  induction l with
  | nil =>
    by_cases h : q = k
    · simp [place, find, h]
    · have : compare q k ≠ .eq := fun e => h (LawfulEqCmp.compare_eq_iff_eq.1 e)
      simp only [place, find, h, if_false]
  | cons a rest ih =>
    obtain ⟨k', v'⟩ := a
    simp only [place]
    split
    · by_cases h : q = k
      · simp [find, h]
      · have : compare q k ≠ .eq := fun e => h (LawfulEqCmp.compare_eq_iff_eq.1 e)
        simp only [h, if_false]
        rw [find]
        split
        · contradiction
        · rfl
    · next heq =>
      have hk : k = k' := LawfulEqCmp.compare_eq_iff_eq.1 heq
      subst hk
      by_cases h : q = k
      · simp [find, h]
      · have : compare q k ≠ .eq := fun e => h (LawfulEqCmp.compare_eq_iff_eq.1 e)
        simp only [find, h, if_false]
    · next hgt =>
      simp only [find, ih]
      split
      · next hq =>
        have hq' : q = k' := LawfulEqCmp.compare_eq_iff_eq.1 hq
        subst hq'
        have : q ≠ k := fun e => by subst e; simp at hgt
        simp [this]
      · rfl

theorem find_eq_none_of_lt [TransOrd κ] {k : κ} {l : List (κ × ν)}
    (h : ∀ e ∈ l, compare k e.1 = .lt) : find k l = none := by
  induction l with
  | nil => rfl
  | cons a rest ih =>
    have ha := h a (by simp)
    simp only [find, ha]
    exact ih fun e he => h e (by simp [he])

theorem find_drop [TransOrd κ] [LawfulEqOrd κ] [DecidableEq κ] (k q : κ) {l : List (κ × ν)}
    (h : l.Pairwise fun a b => compare a.1 b.1 = .lt) :
    find q (drop k l) = if q = k then none else find q l := by
  induction l with
  | nil => simp [drop, find]
  | cons a rest ih =>
    obtain ⟨k', v'⟩ := a
    rw [List.pairwise_cons] at h
    simp only [drop]
    split
    · next heq =>
      have hk : k = k' := LawfulEqCmp.compare_eq_iff_eq.1 heq
      subst hk
      by_cases hq : q = k
      · subst hq; simp [find_eq_none_of_lt h.1]
      · have : compare q k ≠ .eq := fun e => hq (LawfulEqCmp.compare_eq_iff_eq.1 e)
        simp only [hq, if_false]
        rw [find]
        split
        · contradiction
        · rfl
    · next hne =>
      simp only [find, ih h.2]
      split
      · next hq =>
        have hq' : q = k' := LawfulEqCmp.compare_eq_iff_eq.1 hq
        subst hq'
        have : q ≠ k := fun e => by subst e; simp at hne
        simp [this]
      · rfl

/-! ### The operations -/

/-- The table without entries. -/
def empty : Table κ ν := ⟨[], .nil⟩

instance : EmptyCollection (Table κ ν) := ⟨empty⟩

instance : Inhabited (Table κ ν) := ⟨empty⟩

/-- The value at a key. -/
def get? (t : Table κ ν) (k : κ) : Option ν := find k t.entries

/-- Does the table hold the key? -/
def contains (t : Table κ ν) (k : κ) : Bool := (t.get? k).isSome

/-- Add an entry, in exchange for one with the same key. -/
def insert [TransOrd κ] [LawfulEqOrd κ] (t : Table κ ν) (k : κ) (v : ν) : Table κ ν :=
  ⟨place k v t.entries, ordered_place k v t.ordered⟩

/-- Remove the entry with the given key, if there is one. -/
def erase (t : Table κ ν) (k : κ) : Table κ ν := ⟨drop k t.entries, ordered_drop k t.ordered⟩

/-- The table of a list of entries, the last of equal keys winning. -/
def ofList [TransOrd κ] [LawfulEqOrd κ] (l : List (κ × ν)) : Table κ ν :=
  l.foldl (fun t e => t.insert e.1 e.2) empty

/-- The entries that pass a test. -/
def filter (t : Table κ ν) (p : κ × ν → Bool) : Table κ ν :=
  ⟨t.entries.filter p, t.ordered.sublist List.filter_sublist⟩

/-- The keys in order. -/
def keys (t : Table κ ν) : List κ := t.entries.map (·.1)

/-- The values in the order of their keys. -/
def values (t : Table κ ν) : List ν := t.entries.map (·.2)

/-- The number of entries. -/
def size (t : Table κ ν) : Nat := t.entries.length

/-- Is the table without entries? -/
def isEmpty (t : Table κ ν) : Bool := t.entries.isEmpty

@[simp] theorem get?_empty (k : κ) : (empty : Table κ ν).get? k = none := rfl

/-- An insertion is seen at its key and nowhere else. -/
@[simp] theorem get?_insert [TransOrd κ] [LawfulEqOrd κ] [DecidableEq κ] (t : Table κ ν)
    (k q : κ) (v : ν) : (t.insert k v).get? q = if q = k then some v else t.get? q :=
  find_place k q v t.entries

/-- A removal is seen at its key and nowhere else. -/
@[simp] theorem get?_erase [TransOrd κ] [LawfulEqOrd κ] [DecidableEq κ] (t : Table κ ν)
    (k q : κ) : (t.erase k).get? q = if q = k then none else t.get? q :=
  find_drop k q t.ordered

/-- A table is its list of entries. -/
@[ext] theorem ext {s t : Table κ ν} (h : s.entries = t.entries) : s = t := by
  cases s; cases t; congr

end Table

/-- A finite set, listed in order. -/
abbrev KeySet (κ : Type) [Ord κ] := Table κ Unit

namespace KeySet

variable {κ : Type} [Ord κ]

/-- Add a member. -/
def add [TransOrd κ] [LawfulEqOrd κ] (s : KeySet κ) (k : κ) : KeySet κ := s.insert k ()

/-- The set of the members of a list. -/
def ofMembers [TransOrd κ] [LawfulEqOrd κ] (l : List κ) : KeySet κ := l.foldl add Table.empty

/-- The members of either of two sets. -/
def union [TransOrd κ] [LawfulEqOrd κ] (s t : KeySet κ) : KeySet κ := t.keys.foldl add s

/-- A set holds the added member and what it held before. -/
@[simp] theorem contains_add [TransOrd κ] [LawfulEqOrd κ] [DecidableEq κ] (s : KeySet κ)
    (k q : κ) : Table.contains (s.add k) q = (decide (q = k) || Table.contains s q) := by
  by_cases h : q = k <;> simp [add, Table.contains, h]

end KeySet

end Perdure
