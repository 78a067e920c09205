import Mathlib.Data.Finset.Card
import Mathlib.Logic.Relation
import Perdure.Proofs.Failure
import Perdure.Proofs.Json.Codec
import Perdure.Proofs.Json.Renames

/-!
# Renamed shapes

Deployments rename shapes one after another, so an old name leads through names that were in use in
between, and some of these may be in use still.  A table is followed for no more steps than it has
entries.  That is enough: a chain that is longer has been at one name twice, and will never end.

A table is applied to a document before anything is known of what the document holds.  It touches
the strings under one key, wherever they are, and nothing else.

## Main definitions

* `RemapTable.Leads`, `RemapTable.Circles` — a name leads to one that is not replaced, or in a
  circle.

## Main results

* `RemapTable.resolve_eq_ok_iff`, `RemapTable.resolve_eq_error_iff` — following a table finds the
  end of a chain if there is one.
* `RemapTable.resolve_decides` — the same told of the insertions that a table was built by.
* `RemapTable.apply_eq_ok_iff` — applying a table to a document renames its shapes.
* `RemapTable.exists_apply_eq_error` — a document with a shape that circles is refused.
* `RemapTable.readText?_render` — a table is read back from its text.
-/

namespace Perdure

open Relation (ReflTransGen TransGen)

namespace RemapTable

/-! ### Chains of replacements -/

/-- A name is replaced by another. -/
def Replaces (t : RemapTable) (x y : String) : Prop := t.get? x = some y

instance (t : RemapTable) (x y : String) : Decidable (t.Replaces x y) :=
  inferInstanceAs (Decidable (t.get? x = some y))

/-- A name leads, through any number of replacements, to one that is not replaced. -/
def Leads (t : RemapTable) (x y : String) : Prop :=
  ReflTransGen t.Replaces x y ∧ t.get? y = none

/-- The replacements of a name come back to a name that they were at. -/
def Circles (t : RemapTable) (x : String) : Prop :=
  ∃ z, ReflTransGen t.Replaces x z ∧ TransGen t.Replaces z z

variable {t : RemapTable} {x y z : String}

theorem Replaces.rightUnique (t : RemapTable) : Relator.RightUnique t.Replaces := by
  intro x y z hy hz
  exact Option.some.inj (hy.symm.trans hz)

/-- From a name that is not replaced nothing else is reached. -/
theorem eq_of_get?_eq_none (hx : t.get? x = none) (h : ReflTransGen t.Replaces x y) : y = x := by
  rcases ReflTransGen.cases_head h with rfl | ⟨z, hz, -⟩
  · rfl
  · rw [Replaces, hx] at hz
    cases hz

/-- What is reached on the way to the end of a chain leads to this end. -/
theorem Leads.of_reaches (h : t.Leads x y) (hz : ReflTransGen t.Replaces x z) : t.Leads z y := by
  refine ⟨?_, h.2⟩
  rcases ReflTransGen.total_of_right_unique (Replaces.rightUnique t) h.1 hz with hyz | hzy
  · rw [eq_of_get?_eq_none h.2 hyz]
  · exact hzy

theorem Leads.unique (hy : t.Leads x y) (hz : t.Leads x z) : z = y :=
  eq_of_get?_eq_none hy.2 (hz.of_reaches hy.1).1

/-- A name that is reached from itself never comes to an end: each of its replacements is such a
name again. -/
theorem not_leads_of_cycle (h : ReflTransGen t.Replaces z y) (hy : t.get? y = none) :
    ¬ TransGen t.Replaces z z := by
  induction h using ReflTransGen.head_induction_on with
  | refl =>
    intro hcycle
    obtain ⟨w, hw, -⟩ := TransGen.head'_iff.1 hcycle
    rw [Replaces, hy] at hw
    cases hw
  | head hstep _ ih =>
    intro hcycle
    obtain ⟨w, hw, hback⟩ := TransGen.head'_iff.1 hcycle
    rw [Replaces.rightUnique t hw hstep] at hback
    exact ih (TransGen.tail' hback hstep)

theorem Circles.not_leads (h : t.Circles x) : ¬ t.Leads x y := by
  obtain ⟨z, hz, hcycle⟩ := h
  intro hy
  exact not_leads_of_cycle (hy.of_reaches hz).1 hy.2 hcycle

/-! ### Following a table -/

/-- What is found by following a table is the end of the chain. -/
theorem leads_of_follow {n : Nat} (h : t.follow n x = some y) : t.Leads x y := by
  induction n generalizing x with
  | zero => cases h
  | succ n ih =>
    unfold follow at h
    split at h
    · next hx =>
      cases h
      exact ⟨.refl, hx⟩
    · next next hx =>
      obtain ⟨hreach, hend⟩ := ih h
      exact ⟨.head hx hreach, hend⟩

/-- A chain that is not at its end after so many steps has gone through as many replacements. -/
theorem exists_chain_of_follow {n : Nat} (h : t.follow n x = none) :
    ∃ c : Nat → String, c 0 = x ∧ ∀ i < n, t.Replaces (c i) (c (i + 1)) := by
  induction n generalizing x with
  | zero => exact ⟨fun _ => x, rfl, nofun⟩
  | succ n ih =>
    unfold follow at h
    split at h
    · cases h
    · next next hx =>
      obtain ⟨c, hc, hsteps⟩ := ih h
      refine ⟨fun i => i.casesOn x c, rfl, ?_⟩
      intro i hi
      cases i with
      | zero =>
        show t.get? x = some (c 0)
        rw [hc, hx]
      | succ i => exact hsteps i (by omega)

theorem reaches_of_chain {c : Nat → String} {n : Nat} (hc : ∀ i < n, t.Replaces (c i) (c (i + 1)))
    {i j : Nat} (hij : i ≤ j) (hj : j ≤ n) : ReflTransGen t.Replaces (c i) (c j) := by
  induction hij with
  | refl => exact .refl
  | @step j hij ih => exact .tail (ih (by omega)) (hc j (by omega))

/-- More replacements than there are entries come back to a name. -/
theorem circles_of_follow {n : Nat} (hn : t.size < n) (h : t.follow n x = none) :
    t.Circles x := by
  obtain ⟨c, rfl, hc⟩ := exists_chain_of_follow h
  have hmem (i : Nat) (hi : i < n) : c i ∈ t.entries.map Prod.fst :=
    Table.isSome_find_iff.1 (Option.isSome_iff_exists.2 ⟨_, hc i hi⟩)
  have hcard : (t.entries.map Prod.fst).toFinset.card < (Finset.range n).card := by
    rw [Finset.card_range]
    refine Nat.lt_of_le_of_lt (List.toFinset_card_le _) ?_
    rw [List.length_map]
    exact hn
  obtain ⟨i, hi, j, hj, hne, hsame⟩ := Finset.exists_ne_map_eq_of_card_lt_of_maps_to hcard
    fun i hi => List.mem_toFinset.2 (hmem i (Finset.mem_range.1 hi))
  rw [Finset.mem_range] at hi hj
  -- the earlier one of the two places is on the circle
  wlog hlt : i < j generalizing i j
  · exact this j hj i hi hne.symm hsame.symm (by omega)
  refine ⟨c i, reaches_of_chain hc (Nat.zero_le i) hi.le, ?_⟩
  have hback := reaches_of_chain hc hlt hj.le
  rw [← hsame] at hback
  exact TransGen.head' (hc i hi) hback

/-- A name is resolved to the end of its chain, however long that is. -/
theorem resolve_eq_ok_iff : t.resolve x = .ok y ↔ t.Leads x y := by
  unfold resolve
  constructor
  · intro h
    split at h
    · next hfollow =>
      cases h
      exact leads_of_follow hfollow
    · cases h
  · intro h
    split
    · next name hfollow => rw [h.unique (leads_of_follow hfollow)]
    · next hfollow => exact absurd h (circles_of_follow (Nat.lt_succ_self _) hfollow).not_leads

/-- A name is not resolved if its chain runs in a circle. -/
theorem resolve_eq_error_iff {e : UnresolvedShape} :
    t.resolve x = .error e ↔ e.shape = x ∧ t.Circles x := by
  constructor
  · intro h
    unfold resolve at h
    split at h
    · cases h
    · next hfollow =>
      cases h
      exact ⟨rfl, circles_of_follow (Nat.lt_succ_self _) hfollow⟩
  · rintro ⟨rfl, hcircles⟩
    cases hr : t.resolve e.shape with
    | ok y => exact absurd (resolve_eq_ok_iff.1 hr) hcircles.not_leads
    | error e' =>
      unfold resolve at hr
      split at hr
      · cases hr
      · cases hr
        rfl

/-- A chain ends or runs in a circle. -/
theorem circles_iff : t.Circles x ↔ ∀ y, ¬ t.Leads x y := by
  constructor
  · intro h y
    exact h.not_leads
  · intro h
    cases hr : t.resolve x with
    | ok y => exact absurd (resolve_eq_ok_iff.1 hr) (h y)
    | error e => exact (resolve_eq_error_iff.1 hr).2

/-- The names that a name leads to are all replaced if and only if it leads in a circle. -/
theorem forall_replaced_iff_circles :
    (∀ y, ReflTransGen t.Replaces x y → t.get? y ≠ none) ↔ t.Circles x := by
  rw [circles_iff]
  exact forall_congr' fun y => not_and.symm

/-- No other number of steps finds more than as many as the table allows for. -/
theorem exists_follow_iff : (∃ n, t.follow n x = some y) ↔ t.resolve x = .ok y := by
  constructor
  · rintro ⟨n, h⟩
    exact resolve_eq_ok_iff.2 (leads_of_follow h)
  · intro h
    unfold resolve at h
    split at h
    · next hfollow =>
      cases h
      exact ⟨_, hfollow⟩
    · cases h

/-- A resolved name is resolved to itself. -/
theorem resolve_bind_resolve (t : RemapTable) (x : String) :
    (t.resolve x >>= t.resolve) = t.resolve x := by
  cases h : t.resolve x with
  | ok y => exact resolve_eq_ok_iff.2 ⟨.refl, (resolve_eq_ok_iff.1 h).2⟩
  | error e => rfl

/-! ### Tables built by insertions -/

/-- The names that are replaced are those that something was inserted for. -/
theorem get?_ofList_ne_none_iff {inserts : List (String × String)} {x : String} :
    (Table.ofList inserts : RemapTable).get? x ≠ none ↔ x ∈ inserts.map Prod.fst := by
  rw [Table.get?_ofList, ne_eq, List.lookup_eq_none_iff, List.mem_map]
  constructor
  · intro h
    push Not at h
    obtain ⟨e, he, hx⟩ := h
    exact ⟨e, List.mem_reverse.1 he, (by simpa using hx : x = e.1).symm⟩
  · rintro ⟨e, he, rfl⟩ h
    exact absurd (h e (List.mem_reverse.2 he)) (by simp)

/-- **Resolving decides where a name leads.**  After any insertions, a name is resolved to the name
that its replacements lead to if that is not replaced itself, and it is refused, by its own name,
if all names that it leads to are replaced, which is to say that it leads in a circle.  Following
the table for any other number of steps finds nothing that is not found so, and a resolved name is
resolved to itself. -/
theorem resolve_decides (inserts : List (String × String)) (x : String) :
    let t : RemapTable := Table.ofList inserts
    (∀ y z, t.Replaces y z ↔ inserts.reverse.lookup y = some z) ∧
      (∀ y, t.resolve x = .ok y ↔
        ReflTransGen t.Replaces x y ∧ y ∉ inserts.map Prod.fst) ∧
      (∀ e, t.resolve x = .error e ↔
        e.shape = x ∧ ∀ y, ReflTransGen t.Replaces x y → y ∈ inserts.map Prod.fst) ∧
      ((∀ y, ReflTransGen t.Replaces x y → y ∈ inserts.map Prod.fst) ↔ t.Circles x) ∧
      (∀ y, (∃ n, t.follow n x = some y) ↔ t.resolve x = .ok y) ∧
      (t.resolve x >>= t.resolve) = t.resolve x := by
  intro t
  have hended (y : String) : t.get? y = none ↔ y ∉ inserts.map Prod.fst := by
    rw [← get?_ofList_ne_none_iff, not_ne_iff]
  have hcircles : (∀ y, ReflTransGen t.Replaces x y → y ∈ inserts.map Prod.fst) ↔
      t.Circles x := by
    rw [← forall_replaced_iff_circles]
    exact forall₂_congr fun y _ => get?_ofList_ne_none_iff.symm
  refine ⟨fun y z => ?_, fun y => ?_, fun e => ?_, hcircles, fun y => exists_follow_iff,
    resolve_bind_resolve t x⟩
  · rw [Replaces, Table.get?_ofList]
  · rw [resolve_eq_ok_iff, Leads, hended]
  · rw [resolve_eq_error_iff, hcircles]

/-- A chain through every entry of a table comes to its end. -/
example : resolve (.ofList [("c", "d"), ("a", "b"), ("b", "c")]) "a" = .ok "d" := by rfl

/-! ### Applying a table -/

/-- Apply a table to a part of a document, if it stands under the key of shapes or not. -/
def applyAt (t : RemapTable) : (isShape : Bool) → Json → Except UnresolvedShape Json
  | true, .str s => (t.resolve s).map .str
  | _, v => t.apply v

open Json (RenamesAt Renames RenamesMember HasShape)

@[simp] theorem applyAt_false (t : RemapTable) (v : Json) : t.applyAt false v = t.apply v := rfl

theorem applyMembers_cons (t : RemapTable) (k : String) (v : Json) (rest : List (String × Json)) :
    t.applyMembers ((k, v) :: rest) = (do
      let v ← t.applyAt (k = "shape") v
      pure ((k, v) :: (← t.applyMembers rest))) := by
  by_cases hk : k = "shape"
  · cases v with
    | str s =>
      rw [applyMembers, if_pos hk, decide_eq_true hk, applyAt]
      cases t.resolve s <;> rfl
    | _ =>
      rw [applyMembers, decide_eq_true hk]
      · rfl
      · intro s hs
        cases hs
  · cases v with
    | str s =>
      rw [applyMembers, if_neg hk, decide_eq_false hk]
      rfl
    | _ =>
      rw [applyMembers, decide_eq_false hk]
      · rfl
      · intro s hs
        cases hs

theorem applyItems_eq_ok_iff {items items' : List Json} :
    t.applyItems items = .ok items' ↔
      List.Forall₂ (fun v v' => t.apply v = .ok v') items items' := by
  induction items generalizing items' with
  | nil =>
    rw [List.forall₂_nil_left_iff]
    constructor
    · rintro ⟨⟩
      rfl
    · rintro rfl
      rfl
  | cons v rest ih =>
    rw [List.forall₂_cons_left_iff]
    constructor
    · intro h
      obtain ⟨v', hv, h⟩ := exists_of_bind_eq_ok h
      obtain ⟨rest', hrest, h⟩ := exists_of_bind_eq_ok h
      cases h
      exact ⟨v', rest', hv, ih.1 hrest, rfl⟩
    · rintro ⟨v', rest', hv, hrest, rfl⟩
      rw [applyItems, hv, ih.2 hrest]
      rfl

theorem applyMembers_eq_ok_iff {members members' : List (String × Json)} :
    t.applyMembers members = .ok members' ↔ List.Forall₂
      (fun m m' => m.1 = m'.1 ∧ t.applyAt (m.1 = "shape") m.2 = .ok m'.2) members members' := by
  induction members generalizing members' with
  | nil =>
    rw [List.forall₂_nil_left_iff]
    constructor
    · intro h
      rw [applyMembers] at h
      exact (Except.ok.inj h).symm
    · rintro rfl
      rw [applyMembers]
  | cons m rest ih =>
    obtain ⟨k, v⟩ := m
    rw [List.forall₂_cons_left_iff, applyMembers_cons]
    constructor
    · intro h
      obtain ⟨v', hv, h⟩ := exists_of_bind_eq_ok h
      obtain ⟨rest', hrest, h⟩ := exists_of_bind_eq_ok h
      cases h
      exact ⟨(k, v'), rest', ⟨rfl, hv⟩, ih.1 hrest, rfl⟩
    · rintro ⟨⟨k', v'⟩, rest', ⟨rfl, hv⟩, hrest, rfl⟩
      rw [hv, ih.2 hrest]
      rfl

theorem applyAt_arr (t : RemapTable) (isShape : Bool) (items : List Json) :
    t.applyAt isShape (.arr items) = t.apply (.arr items) := by
  cases isShape <;> rfl

theorem applyAt_obj (t : RemapTable) (isShape : Bool) (members : List (String × Json)) :
    t.applyAt isShape (.obj members) = t.apply (.obj members) := by
  cases isShape <;> rfl

/-- What a table does to a document is to exchange each shape for the name that it leads to. -/
theorem applyAt_eq_ok_iff {isShape : Bool} {d e : Json} :
    t.applyAt isShape d = .ok e ↔ RenamesAt t.Leads isShape d e := by
  induction d using Json.induction generalizing isShape e with
  | null | bool | nat | number | undenoted =>
    constructor
    · intro h
      cases isShape <;> cases h <;> constructor
    · intro h
      cases h
      cases isShape <;> rfl
  | str s =>
    cases isShape with
    | true =>
      show (t.resolve s).map .str = .ok e ↔ _
      constructor
      · intro h
        cases hr : t.resolve s with
        | error u =>
          rw [hr] at h
          cases h
        | ok y =>
          rw [hr] at h
          cases h
          exact .shape (resolve_eq_ok_iff.1 hr)
      · intro h
        cases h with
        | shape hxy =>
          rw [resolve_eq_ok_iff.2 hxy]
          rfl
    | false =>
      constructor
      · rintro ⟨⟩
        exact .str s
      · intro h
        cases h
        rfl
  | arr items ih =>
    rw [applyAt_arr, Json.renamesAt_arr_iff]
    constructor
    · intro h
      obtain ⟨items', hitems, h⟩ := exists_of_bind_eq_ok h
      cases h
      have hall := applyItems_eq_ok_iff.1 hitems
      exact ⟨items', rfl, Json.forall₂_of_mem hall fun v hv _ h => (ih v hv).1 h⟩
    · rintro ⟨items', rfl, hall⟩
      have hitems := applyItems_eq_ok_iff.2
        (Json.forall₂_of_mem hall fun v hv w h => (@ih v hv false w).2 h)
      rw [apply, hitems]
      rfl
  | obj members ih =>
    rw [applyAt_obj, Json.renamesAt_obj_iff]
    constructor
    · intro h
      obtain ⟨members', hmembers, h⟩ := exists_of_bind_eq_ok h
      cases h
      have hall := applyMembers_eq_ok_iff.1 hmembers
      exact ⟨members', rfl, Json.forall₂_of_mem hall fun m hm _ h => ⟨h.1, (ih m hm).1 h.2⟩⟩
    · rintro ⟨members', rfl, hall⟩
      have hmembers := applyMembers_eq_ok_iff.2
        (Json.forall₂_of_mem hall fun m hm _ h => ⟨h.1, (ih m hm).2 h.2⟩)
      rw [apply, hmembers]
      rfl

/-- What a table does to a document is to exchange each shape for the name that it leads to, and
nothing else. -/
theorem apply_eq_ok_iff {d e : Json} : t.apply d = .ok e ↔ d.Renames t.Leads e := by
  rw [← applyAt_false]
  exact applyAt_eq_ok_iff

/-! ### Documents that are refused -/

theorem exists_of_applyItems_eq_error {items : List Json} {u : UnresolvedShape}
    (h : t.applyItems items = .error u) : ∃ v ∈ items, t.apply v = .error u := by
  induction items with
  | nil => cases h
  | cons v rest ih =>
    rcases exists_of_bind_eq_error h with hv | ⟨v', -, h⟩
    · exact ⟨v, List.mem_cons_self, hv⟩
    · rcases exists_of_bind_eq_error h with hrest | ⟨rest', -, h⟩
      · obtain ⟨w, hw, he⟩ := ih hrest
        exact ⟨w, List.mem_cons_of_mem v hw, he⟩
      · cases h

theorem exists_of_applyMembers_eq_error {members : List (String × Json)} {u : UnresolvedShape}
    (h : t.applyMembers members = .error u) :
    ∃ m ∈ members, t.applyAt (m.1 = "shape") m.2 = .error u := by
  induction members with
  | nil =>
    rw [applyMembers] at h
    cases h
  | cons m rest ih =>
    obtain ⟨k, v⟩ := m
    rw [applyMembers_cons] at h
    rcases exists_of_bind_eq_error h with hv | ⟨v', -, h⟩
    · exact ⟨(k, v), List.mem_cons_self, hv⟩
    · rcases exists_of_bind_eq_error h with hrest | ⟨rest', -, h⟩
      · obtain ⟨w, hw, he⟩ := ih hrest
        exact ⟨w, List.mem_cons_of_mem _ hw, he⟩
      · cases h

/-- A document is refused for one of its shapes only, and one whose replacements run in a circle. -/
theorem hasShape_of_applyAt_eq_error {isShape : Bool} {d : Json} {u : UnresolvedShape}
    (h : t.applyAt isShape d = .error u) :
    (isShape = true ∧ d = .str u.shape ∨ d.HasShape u.shape) ∧ t.Circles u.shape := by
  induction d using Json.induction generalizing isShape with
  | null | bool | nat | number | undenoted => cases isShape <;> cases h
  | str s =>
    cases isShape with
    | true =>
      cases hr : t.resolve s with
      | ok y =>
        rw [applyAt, hr] at h
        cases h
      | error u' =>
        rw [applyAt, hr] at h
        cases h
        obtain ⟨rfl, hcircles⟩ := resolve_eq_error_iff.1 hr
        exact ⟨.inl ⟨rfl, rfl⟩, hcircles⟩
    | false => cases h
  | arr items ih =>
    rw [applyAt_arr] at h
    rcases exists_of_bind_eq_error h with h | ⟨_, -, h⟩
    · obtain ⟨v, hv, he⟩ := exists_of_applyItems_eq_error h
      obtain ⟨hshape, hcircles⟩ := @ih v hv false he
      rcases hshape with ⟨hfalse, -⟩ | hshape
      · cases hfalse
      · exact ⟨.inr (.item hv hshape), hcircles⟩
    · cases h
  | obj members ih =>
    rw [applyAt_obj] at h
    rcases exists_of_bind_eq_error h with h | ⟨_, -, h⟩
    · obtain ⟨m, hm, he⟩ := exists_of_applyMembers_eq_error h
      obtain ⟨hshape, hcircles⟩ := ih m hm he
      refine ⟨.inr ?_, hcircles⟩
      rcases hshape with ⟨hkey, hv⟩ | hshape
      · have hmember : m = ("shape", .str u.shape) := Prod.ext (of_decide_eq_true hkey) hv
        exact .here (hmember ▸ hm)
      · exact .member hm hshape
    · cases h

/-- A document with a shape whose replacements run in a circle is refused, for a shape of this
kind. -/
theorem exists_apply_eq_error {d : Json} {x : String} (hx : d.HasShape x) (hc : t.Circles x) :
    ∃ u : UnresolvedShape, t.apply d = .error u ∧ d.HasShape u.shape ∧ t.Circles u.shape := by
  cases h : t.apply d with
  | ok e =>
    obtain ⟨y, hy⟩ := (apply_eq_ok_iff.1 h).exists_of_hasShape hx
    exact absurd hy hc.not_leads
  | error u =>
    rw [← applyAt_false] at h
    obtain ⟨hshape, hcircles⟩ := hasShape_of_applyAt_eq_error h
    exact ⟨u, rfl, hshape.resolve_left nofun, hcircles⟩

/-! ### Texts of tables -/

/-- A table is read back from its text. -/
theorem readText?_render {t : RemapTable} (hk : Json.embeddedKey ∉ t.keys) :
    (Json.readText? t.toJson.render).bind ofJson? = some t := by
  have hfirst : (t.entries.map fun e => (e.1, Json.str e.2)).head?.map (·.1) ≠
      some Json.embeddedKey := by
    rw [List.head?_map, Option.map_map]
    intro h
    obtain ⟨e, he, hkey⟩ := Option.map_eq_some_iff.1 h
    exact hk (List.mem_map.2 ⟨e, List.mem_of_head? he, hkey⟩)
  have hkeys : ((t.entries.map fun e => (e.1, Json.str e.2)).map Prod.fst).Nodup := by
    rw [List.map_map]
    exact Table.nodup_keys t.ordered
  have hwritable : t.toJson.Writable 1 := by
    refine .obj hfirst hkeys fun m hm => ?_
    obtain ⟨e, -, rfl⟩ := List.mem_map.1 hm
    exact .str 0 e.2
  have hentries : (t.entries.map fun e => (e.1, Json.str e.2)).mapM
      (fun m => do pure (m.1, ← m.2.string?)) = some t.entries := by
    rw [List.mapM_map]
    exact (Json.mapM_eq_some_map (g := id) fun _ _ => rfl).trans (congrArg some (List.map_id _))
  rw [Json.readText?, Json.read_render (hwritable.mono (e := Json.depthLimit) (by decide)) nofun]
  show ofJson? t.toJson = some t
  unfold toJson ofJson?
  dsimp only
  rw [hentries]
  exact congrArg some (Table.ofList_of_perm (.refl _))

end RemapTable

end Perdure
