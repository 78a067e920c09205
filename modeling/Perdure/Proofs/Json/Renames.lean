import Mathlib.Data.List.Forall2
import Perdure.Proofs.Json.Shapes

/-!
# Documents under other names

Two documents can be the same but for their shapes, the strings that stand under one key.  Whatever
is read from a document beside its shapes is read from the other as well: where its members are put
in order, and whether it can be written and read back.

## Main definitions

* `Json.HasShape` — a document has a shape somewhere.
* `Json.Renames` — one document is another under other names.

## Main results

* `Json.HasShape.collapse`, `Json.HasShape.of_collapse` — a document that can be written has the
  same shapes as a finite map.
* `Json.RenamesAt.collapse` — documents that agree but for their names do so as finite maps.
-/

namespace Perdure

namespace Json

/-! ### Shapes -/

/-- A document has a shape: somewhere in it, this string stands under the key of shapes. -/
inductive HasShape (x : String) : Json → Prop
  | here {members : List (String × Json)} (h : ("shape", .str x) ∈ members) :
      HasShape x (.obj members)
  | item {items : List Json} {v : Json} (hv : v ∈ items) (h : HasShape x v) :
      HasShape x (.arr items)
  | member {members : List (String × Json)} {m : String × Json} (hm : m ∈ members)
      (h : HasShape x m.2) : HasShape x (.obj members)

/-! ### Other names -/

/-- A part of a document is another under other names, if it stands under the key of shapes or not.
The two agree in all but the shapes, where a name of the first stands for one of the second. -/
inductive RenamesAt (R : String → String → Prop) : (isShape : Bool) → Json → Json → Prop
  | shape {x y : String} (h : R x y) : RenamesAt R true (.str x) (.str y)
  | str (s : String) : RenamesAt R false (.str s) (.str s)
  | null (isShape : Bool) : RenamesAt R isShape .null .null
  | bool (isShape b : Bool) : RenamesAt R isShape (.bool b) (.bool b)
  | nat (isShape : Bool) (n : Nat) : RenamesAt R isShape (.nat n) (.nat n)
  | number (isShape : Bool) (literal : String) :
      RenamesAt R isShape (.number literal) (.number literal)
  | undenoted (isShape : Bool) : RenamesAt R isShape .undenoted .undenoted
  | arr {isShape : Bool} {items items' : List Json}
      (h : List.Forall₂ (RenamesAt R false) items items') :
      RenamesAt R isShape (.arr items) (.arr items')
  | obj {isShape : Bool} {members members' : List (String × Json)}
      (hk : members.map Prod.fst = members'.map Prod.fst)
      (h : List.Forall₂ (fun m m' => RenamesAt R (m.1 = "shape") m.2 m'.2) members members') :
      RenamesAt R isShape (.obj members) (.obj members')

/-- One document is another under other names: the strings under the key of shapes, each of them by
itself, stand for others, and all else is the same. -/
def Renames (R : String → String → Prop) (d e : Json) : Prop := RenamesAt R false d e

/-- A member is another one under other names. -/
def RenamesMember (R : String → String → Prop) (m m' : String × Json) : Prop :=
  m.1 = m'.1 ∧ RenamesAt R (m.1 = "shape") m.2 m'.2

variable {R : String → String → Prop} {isShape : Bool} {x : String}

theorem renamesAt_arr_iff {items : List Json} {w : Json} :
    RenamesAt R isShape (.arr items) w ↔
      ∃ items', w = .arr items' ∧ List.Forall₂ (RenamesAt R false) items items' := by
  constructor
  · intro h
    cases h with
    | arr h => exact ⟨_, rfl, h⟩
  · rintro ⟨items', rfl, h⟩
    exact .arr h

theorem renamesAt_obj_iff {members : List (String × Json)} {w : Json} :
    RenamesAt R isShape (.obj members) w ↔
      ∃ members', w = .obj members' ∧ List.Forall₂ (RenamesMember R) members members' := by
  have hkeys (l l' : List (String × Json)) :
      List.Forall₂ (fun m m' => m.1 = m'.1) l l' ↔ l.map Prod.fst = l'.map Prod.fst := by
    rw [← List.forall₂_eq_eq_eq, List.forall₂_map_left_iff, List.forall₂_map_right_iff]
  constructor
  · intro h
    cases h with
    | @obj _ _ members' hk h =>
      refine ⟨members', rfl, ?_⟩
      exact List.Forall₂.mp (fun _ _ hk h => ⟨hk, h⟩) ((hkeys _ _).2 hk) h
  · rintro ⟨members', rfl, h⟩
    exact .obj ((hkeys _ _).1 (h.imp fun _ _ => And.left)) (h.imp fun _ _ => And.right)

theorem mem_left_of_forall₂ {α β : Type} {S : α → β → Prop} {l : List α} {l' : List β}
    (h : List.Forall₂ S l l') {a : α} (ha : a ∈ l) : ∃ b ∈ l', S a b := by
  induction h with
  | nil => cases ha
  | @cons a' b l l' hab _ ih =>
    rcases List.mem_cons.1 ha with rfl | ha
    · exact ⟨b, List.mem_cons_self, hab⟩
    · obtain ⟨b', hb', hs⟩ := ih ha
      exact ⟨b', List.mem_cons_of_mem b hb', hs⟩

/-- Every shape of a document that is another under other names stands for some name. -/
theorem RenamesAt.exists_of_hasShape {d e : Json} (h : RenamesAt R isShape d e)
    (hx : d.HasShape x) : ∃ y, R x y := by
  induction hx generalizing isShape e with
  | here hmem =>
    obtain ⟨members', -, hall⟩ := renamesAt_obj_iff.1 h
    obtain ⟨m', -, -, hm⟩ := mem_left_of_forall₂ hall hmem
    rw [decide_eq_true rfl] at hm
    generalize he : m'.2 = w at hm
    cases hm with
    | shape hxy => exact ⟨_, hxy⟩
  | item hv _ ih =>
    obtain ⟨items', -, hall⟩ := renamesAt_arr_iff.1 h
    obtain ⟨v', -, hv'⟩ := mem_left_of_forall₂ hall hv
    exact ih hv'
  | member hm _ ih =>
    obtain ⟨members', -, hall⟩ := renamesAt_obj_iff.1 h
    obtain ⟨m', -, -, hm'⟩ := mem_left_of_forall₂ hall hm
    exact ih hm'

/-! ### As finite maps -/

/-- A document that can be written has all its shapes as a finite map, since no name repeats. -/
theorem HasShape.collapse {v : Json} {d : Nat} (h : v.HasShape x) (hw : v.Writable d) :
    v.collapse.HasShape x := by
  induction h generalizing d with
  | here hmem =>
    cases hw with
    | obj _ hn _ =>
      exact .here ((perm_collapseMembers hn).mem_iff.2 (List.mem_map_of_mem hmem))
  | item hv _ ih =>
    cases hw with
    | arr hitems =>
      rw [Json.collapse, collapseItems_eq]
      exact .item (List.mem_map_of_mem hv) (ih (hitems _ hv))
  | @member _ m hm _ ih =>
    cases hw with
    | obj _ hn hmembers =>
      have hmem := (perm_collapseMembers hn).mem_iff.2
        (List.mem_map_of_mem (f := fun m => (m.1, m.2.collapse)) hm)
      exact .member hmem (ih (hmembers m hm))

/-- As a finite map a document has no other shapes. -/
theorem HasShape.of_collapse {v : Json} (h : v.collapse.HasShape x) : v.HasShape x := by
  induction v using Json.induction with
  | null | bool | nat | number | str | undenoted => exact h
  | arr items ih =>
    rw [Json.collapse, collapseItems_eq] at h
    cases h with
    | item hv h =>
      obtain ⟨w, hw, rfl⟩ := List.mem_map.1 hv
      exact .item hw (ih w hw h)
  | obj members ih =>
    cases h with
    | here hmem =>
      rcases mem_collapseMembers hmem with hp | ⟨v, hv, he⟩
      · cases hp
      · rw [eq_str_of_collapse he] at hv
        exact .here hv
    | member hm h =>
      rcases mem_collapseMembers hm with hp | ⟨v, hv, he⟩
      · cases hp
      · rw [he] at h
        exact .member hv (ih _ hv h)

/-- Members are put in the same places under any names. -/
theorem forall₂_place {k : String} {v v' : Json} {placed placed' : List (String × Json)}
    (hv : RenamesAt R (k = "shape") v v')
    (h : List.Forall₂ (RenamesMember R) placed placed') :
    List.Forall₂ (RenamesMember R) (Table.place k v placed) (Table.place k v' placed') := by
  induction h with
  | nil => exact .cons ⟨rfl, hv⟩ .nil
  | @cons m m' rest rest' hm hrest ih =>
    obtain ⟨k₁, v₁⟩ := m
    obtain ⟨k₂, v₂⟩ := m'
    obtain ⟨rfl, hv₁⟩ : k₁ = k₂ ∧ _ := hm
    unfold Table.place
    split
    · exact .cons ⟨rfl, hv⟩ (.cons ⟨rfl, hv₁⟩ hrest)
    · exact .cons ⟨rfl, hv⟩ hrest
    · exact .cons ⟨rfl, hv₁⟩ ih

theorem forall₂_collapseMembers {members members' placed placed' : List (String × Json)}
    (h : List.Forall₂ (fun m m' => m.1 = m'.1 ∧
      RenamesAt R (m.1 = "shape") m.2.collapse m'.2.collapse) members members')
    (hp : List.Forall₂ (RenamesMember R) placed placed') :
    List.Forall₂ (RenamesMember R) (collapseMembers placed members)
      (collapseMembers placed' members') := by
  induction h generalizing placed placed' with
  | nil => exact hp
  | @cons m m' rest rest' hm _ ih =>
    obtain ⟨k, v⟩ := m
    obtain ⟨k', v'⟩ := m'
    obtain ⟨rfl, hv⟩ : k = k' ∧ _ := hm
    exact ih (forall₂_place hv hp)

theorem forall₂_of_mem {α β : Type} {S T : α → β → Prop} {l : List α} {l' : List β}
    (h : List.Forall₂ S l l') (hst : ∀ a ∈ l, ∀ b, S a b → T a b) : List.Forall₂ T l l' := by
  induction h with
  | nil => exact .nil
  | @cons a b l l' hab _ ih =>
    exact .cons (hst a List.mem_cons_self b hab)
      (ih fun a' ha' => hst a' (List.mem_cons_of_mem a ha'))

/-- Documents that are the same but for their names are so as finite maps. -/
theorem RenamesAt.collapse {d e : Json} (h : RenamesAt R isShape d e) :
    RenamesAt R isShape d.collapse e.collapse := by
  induction d using Json.induction generalizing isShape e with
  | null | bool | nat | number | undenoted =>
    cases h
    constructor
  | str s =>
    cases h with
    | shape hxy => exact .shape hxy
    | str => exact .str s
  | arr items ih =>
    obtain ⟨items', rfl, hall⟩ := renamesAt_arr_iff.1 h
    rw [Json.collapse, Json.collapse, collapseItems_eq, collapseItems_eq]
    refine .arr ?_
    rw [List.forall₂_map_left_iff, List.forall₂_map_right_iff]
    exact forall₂_of_mem hall fun v hv _ h => ih v hv h
  | obj members ih =>
    obtain ⟨members', rfl, hall⟩ := renamesAt_obj_iff.1 h
    refine renamesAt_obj_iff.2 ⟨_, rfl, forall₂_collapseMembers ?_ .nil⟩
    exact forall₂_of_mem hall fun m hm _ h => ⟨h.1, ih m hm h.2⟩

/-- Under other names a document can be written just as well. -/
theorem RenamesAt.writable {v w : Json} (h : RenamesAt R isShape v w) {d : Nat}
    (hw : w.Writable d) : v.Writable d := by
  induction v using Json.induction generalizing isShape w d with
  | null | bool | nat | number | undenoted => cases h; exact hw
  | str s => exact .str d s
  | arr items ih =>
    obtain ⟨items', rfl, hall⟩ := renamesAt_arr_iff.1 h
    cases hw with
    | arr hitems =>
      refine .arr ?_
      intro v hv
      obtain ⟨v', hv', hr⟩ := mem_left_of_forall₂ hall hv
      exact ih v hv hr (hitems v' hv')
  | obj members ih =>
    cases h with
    | @obj _ _ members' hk hall =>
      cases hw with
      | obj hhead hn hmembers =>
        have hheads : members.head?.map (·.1) = members'.head?.map (·.1) := by
          rw [← List.head?_map, ← List.head?_map]
          exact congrArg List.head? hk
        refine .obj (hheads ▸ hhead) (hk ▸ hn) ?_
        intro m hm
        obtain ⟨m', hm', hr⟩ := mem_left_of_forall₂ hall hm
        exact ih m hm hr (hmembers m' hm')

end Json

end Perdure
