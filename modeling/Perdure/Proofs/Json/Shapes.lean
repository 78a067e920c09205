import Perdure.Proofs.Json.Codec
import Perdure.RemapTable

/-!
# Shapes inside documents

A remap table touches nothing of a document but its shapes.  A document none of whose shapes is
among the keys of a table is left as it is.

## Main definitions

* `Json.Shaped` — all shapes of a document are of a kind.
* `Json.ShapedField` — a field beside the shape, whose value holds shapes of a kind only.
* `RemapTable.Spares` — a table renames none of the given shapes.
* `RemapTable.Keeps` — a table renames none of the shapes of a document.

## Main results

* `Json.Shaped.collapse` — a document seen as a finite map has no new shapes.
* `RemapTable.Keeps.apply_eq_ok` — a table leaves a document that it keeps as it is.
-/

namespace Perdure

namespace Json

/-- All shapes of a document, the strings under the key `shape`, are of a kind. -/
inductive Shaped (P : String → Prop) : Json → Prop
  | null : Shaped P .null
  | bool (b : Bool) : Shaped P (.bool b)
  | nat (n : Nat) : Shaped P (.nat n)
  | number (literal : String) : Shaped P (.number literal)
  | str (s : String) : Shaped P (.str s)
  | undenoted : Shaped P .undenoted
  | arr {items : List Json} (h : ∀ v ∈ items, Shaped P v) : Shaped P (.arr items)
  | obj {members : List (String × Json)} (h : ∀ m ∈ members, Shaped P m.2)
      (hs : ∀ s, ("shape", .str s) ∈ members → P s) : Shaped P (.obj members)

/-- A field that stands beside the shape of a variant, whose value holds shapes of a kind only. -/
def ShapedField (P : String → Prop) (f : Option (String × Json)) : Prop :=
  ∀ m ∈ f, m.1 ≠ "shape" ∧ Shaped P m.2

attribute [simp] Shaped.null Shaped.bool Shaped.nat Shaped.str

variable {P : String → Prop}

/-! ### Records and variants -/

@[simp] theorem shapedField_field {name : String} {v : Json} :
    ShapedField P (field name v) ↔ name ≠ "shape" ∧ Shaped P v := by
  simp [ShapedField, field]

@[simp] theorem shapedField_fieldIf {name : String} {written : Bool} {v : Json}
    (hname : name ≠ "shape") (hv : Shaped P v) : ShapedField P (fieldIf name written v) := by
  intro m hm
  cases written with
  | false => cases hm
  | true =>
    cases hm
    exact ⟨hname, hv⟩

@[simp] theorem shapedField_fieldOf {α : Type} {name : String} {value : α → Json} {o : Option α}
    (hname : name ≠ "shape") (hv : ∀ a, Shaped P (value a)) :
    ShapedField P (fieldOf name value o) := by
  intro m hm
  cases o with
  | none => cases hm
  | some a =>
    cases hm
    exact ⟨hname, hv a⟩

@[simp] theorem shaped_ofOption {α : Type} {value : α → Json} {o : Option α}
    (hv : ∀ a, Shaped P (value a)) : Shaped P (ofOption value o) := by
  cases o with
  | none => exact .null
  | some a => exact hv a

@[simp] theorem shaped_arr_map {α : Type} {value : α → Json} {l : List α}
    (hv : ∀ a, Shaped P (value a)) : Shaped P (.arr (l.map value)) := by
  refine .arr ?_
  intro v hmem
  obtain ⟨a, -, rfl⟩ := List.mem_map.1 hmem
  exact hv a

variable {fields : List (Option (String × Json))}

theorem shaped_of_mem_fields (h : ∀ f ∈ fields, ShapedField P f) {m : String × Json}
    (hm : m ∈ fields.filterMap id) : m.1 ≠ "shape" ∧ Shaped P m.2 := by
  obtain ⟨f, hf, hfm⟩ := List.mem_filterMap.1 hm
  exact h f hf m hfm

/-- A record has the shapes of its fields. -/
theorem Shaped.record (h : ∀ f ∈ fields, ShapedField P f) : Shaped P (record fields) := by
  refine .obj (fun m hm => (shaped_of_mem_fields h hm).2) ?_
  intro s hs
  exact absurd rfl (shaped_of_mem_fields h hs).1

/-- A variant has a shape of its own beside those of its fields. -/
theorem Shaped.variant {shape : String} (hshape : P shape) (h : ∀ f ∈ fields, ShapedField P f) :
    Shaped P (Json.record (Json.field "shape" (.str shape) :: fields)) := by
  refine .obj ?_ ?_
  · intro m hm
    rcases List.mem_cons.1 hm with rfl | hm
    · exact .str shape
    · exact (shaped_of_mem_fields h hm).2
  · intro s hs
    rcases List.mem_cons.1 hs with he | hs
    · cases he
      exact hshape
    · exact absurd rfl (shaped_of_mem_fields h hs).1

/-! ### Documents as finite maps -/

/-- A collapsed member was placed before, or comes from a member. -/
theorem mem_collapseMembers {placed members : List (String × Json)} {m : String × Json}
    (h : m ∈ collapseMembers placed members) :
    m ∈ placed ∨ ∃ v, (m.1, v) ∈ members ∧ m.2 = v.collapse := by
  induction members generalizing placed with
  | nil => exact .inl h
  | cons n rest ih =>
    obtain ⟨k, v⟩ := n
    rcases ih h with hp | ⟨w, hw, he⟩
    · rcases Table.mem_place hp with rfl | hp
      · exact .inr ⟨v, List.mem_cons_self, rfl⟩
      · exact .inl hp
    · exact .inr ⟨w, List.mem_cons_of_mem _ hw, he⟩

theorem eq_str_of_collapse {v : Json} {s : String} (h : .str s = v.collapse) : v = .str s := by
  cases v <;> cases h
  rfl

/-- Shapes of a kind are of every wider kind. -/
theorem Shaped.mono {Q : String → Prop} (hPQ : ∀ s, P s → Q s) {v : Json} (h : Shaped P v) :
    Shaped Q v := by
  induction h with
  | null => exact .null
  | bool b => exact .bool b
  | nat n => exact .nat n
  | number literal => exact .number literal
  | str s => exact .str s
  | undenoted => exact .undenoted
  | arr _ ih => exact .arr ih
  | obj _ hs ih => exact .obj ih fun s hm => hPQ s (hs s hm)

/-- A document seen as a finite map has no new shapes. -/
theorem Shaped.collapse {v : Json} (h : Shaped P v) : Shaped P v.collapse := by
  induction h with
  | null => exact .null
  | bool b => exact .bool b
  | nat n => exact .nat n
  | number literal => exact .number literal
  | str s => exact .str s
  | undenoted => exact .undenoted
  | @arr items _ ih =>
    rw [Json.collapse, collapseItems_eq]
    refine .arr ?_
    intro v hv
    obtain ⟨w, hw, rfl⟩ := List.mem_map.1 hv
    exact ih w hw
  | @obj members _ hs ih =>
    rw [Json.collapse]
    refine .obj ?_ ?_
    · intro m hm
      -- what is placed last under a name is a member of the document
      obtain hm | ⟨v, hv, he⟩ := mem_collapseMembers hm
      · cases hm
      · rw [he]
        exact ih (m.1, v) hv
    · intro s hm
      obtain hm | ⟨v, hv, he⟩ := mem_collapseMembers hm
      · cases hm
      · rw [eq_str_of_collapse he] at hv
        exact hs s hv

end Json

namespace RemapTable

/-- None of the given shapes is among the keys of a table. -/
def Spares (t : RemapTable) (shapes : List String) : Prop := ∀ s ∈ shapes, t.get? s = none

/-- None of the shapes of a document is among the keys of a table. -/
def Keeps (t : RemapTable) (v : Json) : Prop := v.Shaped fun s => t.get? s = none

/-- A table without replacements spares all shapes. -/
theorem spares_empty (shapes : List String) : Spares ∅ shapes := fun _ _ => rfl

/-- A table keeps a document of spared shapes. -/
theorem Spares.keeps {t : RemapTable} {shapes : List String} (ht : t.Spares shapes) {v : Json}
    (hv : v.Shaped (· ∈ shapes)) : t.Keeps v := hv.mono ht

theorem applyItems_eq_ok {t : RemapTable} {items : List Json} (h : ∀ v ∈ items, t.apply v = .ok v) :
    t.applyItems items = .ok items := by
  induction items with
  | nil => rfl
  | cons v rest ih =>
    have hrest := ih fun w hw => h w (List.mem_cons_of_mem v hw)
    rw [applyItems, h v List.mem_cons_self, hrest]
    rfl

section

variable {t : RemapTable}

/-- A shape that is not among the keys stands for itself. -/
theorem resolve_eq_ok {s : String} (hs : t.get? s = none) : t.resolve s = .ok s := by
  unfold resolve follow
  rw [hs]

theorem applyMembers_eq_ok {members : List (String × Json)}
    (h : ∀ m ∈ members, t.apply m.2 = .ok m.2)
    (hs : ∀ s, ("shape", .str s) ∈ members → t.get? s = none) :
    t.applyMembers members = .ok members := by
  induction members with
  | nil => rfl
  | cons m rest ih =>
    obtain ⟨k, v⟩ := m
    have hv := h (k, v) List.mem_cons_self
    have hrest := ih (fun n hn => h n (List.mem_cons_of_mem _ hn))
      fun s hn => hs s (List.mem_cons_of_mem _ hn)
    -- only a text under the key of shapes is replaced, everything else is walked through
    cases v with
    | str s =>
      rw [applyMembers, hrest]
      split
      · next hk =>
        subst hk
        rw [resolve_eq_ok (hs s List.mem_cons_self)]
        rfl
      · rfl
    | _ =>
      rw [applyMembers, hv, hrest]
      · rfl
      · exact nofun

/-- A table leaves a document that it keeps as it is. -/
theorem Keeps.apply_eq_ok {v : Json} (h : t.Keeps v) : t.apply v = .ok v := by
  unfold Keeps at h
  induction h with
  | arr _ ih =>
    rw [apply, applyItems_eq_ok ih]
    rfl
  | obj _ hs ih =>
    rw [apply, applyMembers_eq_ok ih hs]
    rfl
  | null | bool | nat | number | str | undenoted => rfl

/-- A table leaves a document of spared shapes as it is. -/
theorem Spares.apply_eq_ok {shapes : List String} (ht : t.Spares shapes) {v : Json}
    (hv : v.Shaped (· ∈ shapes)) : t.apply v = .ok v :=
  (ht.keeps hv).apply_eq_ok

end

end RemapTable

end Perdure
