import Perdure.Proofs.Json.Fields

/-!
# Writers and their readers

A codec is a writer with a reader that gives back what was written.  Codecs of parts make codecs of
lists, of options and of the fields of records.

## Main definitions

* `Json.Codec` — a reader gives back what a writer wrote.
* `Json.Written`, `Json.WrittenCase` — a field, and a case of a variant, that is read back as a
  given value.

## Main results

* `Json.Codec.list` — the codec of a list.
* `Json.Codec.field`, `Json.Codec.fieldOf`, `Json.Codec.nullable` — fields that are read back.
* `Json.Codec.ofRecord`, `Json.Codec.ofCases` — the codecs of records and of variants.
-/

namespace Perdure

namespace Json

/-- A reader gives back, from what it sees of it, what a writer wrote of a fitting value. -/
structure Codec (view : Json → Json) {α : Type} (fits : α → Prop) (d : Nat) (write : α → Json)
    (read : Json → Option α) : Prop where
  writable {a : α} (h : fits a) : (write a).Writable d
  readBack {a : α} (h : fits a) : read (view (write a)) = some a

/-- A field of this name, or none, that can be written and is read back as a value. -/
structure Written (view : Json → Json) {α : Type} (d : Nat) (name : String)
    (f : Option (String × Json)) (read : Slot → Option α) (a : α) : Prop where
  fielded : Fielded d name f
  readBack : read (Slot.ofField view f) = some a

theorem option?_of_ne_null {α : Type} {v : Json} (h : v ≠ .null) (read : Json → Option α) :
    v.option? read = (read v).map some := by
  cases v with
  | null => exact absurd rfl h
  | _ => rfl

section

variable (view : Json → Json) [View view]

/-! ### Scalars -/

theorem Codec.nat (d : Nat) {bound : Nat} (h : bound ≤ 2 ^ 64) :
    Codec view (· < bound) d .nat (natBelow? bound) where
  writable hn := .nat d (Nat.lt_of_lt_of_le hn h)
  readBack {n} hn := by
    rw [@View.nat view]
    exact if_pos hn

theorem Codec.word64 (d : Nat) : Codec view (· < 2 ^ 64) d .nat word64? :=
  .nat view d (Nat.le_refl _)

theorem Codec.word32 (d : Nat) : Codec view (· < 2 ^ 32) d .nat word32? := .nat view d (by decide)

theorem Codec.bool (d : Nat) : Codec view (fun _ => True) d .bool bool? where
  writable {b} _ := .bool d b
  readBack {b} _ := by rw [@View.bool view]; rfl

theorem Codec.str (d : Nat) : Codec view (fun _ => True) d .str string? where
  writable {s} _ := .str d s
  readBack {s} _ := by rw [@View.str view]; rfl

/-! ### Combinations -/

variable {view}

theorem mapM_eq_some_map {α β : Type} {f : α → Option β} {g : α → β} {l : List α}
    (h : ∀ a ∈ l, f a = some (g a)) : l.mapM f = some (l.map g) := by
  induction l with
  | nil => rfl
  | cons a rest ih =>
    rw [List.mapM_cons, h a List.mem_cons_self, ih fun b hb => h b (List.mem_cons_of_mem a hb)]
    rfl

theorem mapM_eq_some_filterMap {α β : Type} {f : α → Option β} {l : List α}
    (h : ∀ a ∈ l, (f a).isSome = true) : l.mapM f = some (l.filterMap f) := by
  induction l with
  | nil => rfl
  | cons a rest ih =>
    obtain ⟨b, hb⟩ := Option.isSome_iff_exists.1 (h a List.mem_cons_self)
    rw [List.mapM_cons, hb, ih fun c hc => h c (List.mem_cons_of_mem a hc),
      List.filterMap_cons_some hb]
    rfl

theorem filterMap_eq_self {α : Type} {f : α → Option α} {l : List α}
    (h : ∀ a ∈ l, f a = some a) : l.filterMap f = l := by
  induction l with
  | nil => rfl
  | cons a rest ih =>
    rw [List.filterMap_cons_some (h a List.mem_cons_self),
      ih fun c hc => h c (List.mem_cons_of_mem a hc)]

namespace Codec

variable {α : Type} {fits : α → Prop} {d : Nat} {write : α → Json} {read : Json → Option α}
  (h : Codec view fits d write read)

include h

/-- Items are read back one by one. -/
theorem list : Codec view (fun l => ∀ a ∈ l, fits a) (d + 1) (fun l => .arr (l.map write))
    (list? read) where
  writable {l} hl := by
    refine .arr ?_
    intro v hv
    obtain ⟨a, ha, rfl⟩ := List.mem_map.1 hv
    exact h.writable (hl a ha)
  readBack {l} hl := by
    have hitems := mapM_eq_some_map (g := id) fun a ha => h.readBack (hl a ha)
    rw [List.map_id] at hitems
    rw [@View.arr view]
    show ((l.map write).map view).mapM read = some l
    rw [List.map_map, List.mapM_map]
    exact hitems

variable (name : String)

/-! ### Fields -/

omit [View view] in
/-- A field that is always written, and that must be there. -/
theorem field {a : α} (ha : fits a) :
    Written view d name (Json.field name (write a)) (Slot.required read) a where
  fielded := fielded_field name (h.writable ha)
  readBack := h.readBack ha

omit [View view] in
/-- A field that is always written, and that could be left out. -/
theorem fieldFor {a : α} (ha : fits a) (fallback : α) :
    Written view d name (Json.field name (write a)) (Slot.withDefault fallback read) a where
  fielded := fielded_field name (h.writable ha)
  readBack := h.readBack ha

omit [View view] in
/-- A field that is left out when it holds what would be read in its place. -/
theorem fieldIf {a : α} (ha : fits a) (fallback : α) (written : Bool)
    (hf : written = false → a = fallback) :
    Written view d name (Json.fieldIf name written (write a)) (Slot.withDefault fallback read)
      a where
  fielded m hm := by
    cases written with
    | false => cases hm
    | true =>
      cases hm
      exact ⟨rfl, h.writable ha⟩
  readBack := by
    cases written with
    | false => rw [hf rfl]; rfl
    | true => exact h.readBack ha

variable (hne : ∀ a, write a ≠ .null) {o : Option α} (ho : ∀ a ∈ o, fits a)

include hne ho

/-- A field that is left out when it is `none`. -/
theorem fieldOf : Written view d name (Json.fieldOf name write o)
    (Slot.withDefault none (option? read)) o where
  fielded m hm := by
    cases o with
    | none => cases hm
    | some a =>
      cases hm
      exact ⟨rfl, h.writable (ho a rfl)⟩
  readBack := by
    cases o with
    | none => rfl
    | some a =>
      show (view (write a)).option? read = some (some a)
      rw [option?_of_ne_null (View.ne_null (hne a)), h.readBack (ho a rfl)]
      rfl

/-- A field that is `null` when it is `none`. -/
theorem nullable :
    Written view d name (Json.field name (ofOption write o)) (Slot.optional read) o where
  fielded m hm := by
    cases hm
    cases o with
    | none => exact ⟨rfl, .null d⟩
    | some a => exact ⟨rfl, h.writable (ho a rfl)⟩
  readBack := by
    cases o with
    | none =>
      show (view .null).option? read = some none
      rw [@View.null view]
      rfl
    | some a =>
      show (view (write a)).option? read = some (some a)
      rw [option?_of_ne_null (View.ne_null (hne a)), h.readBack (ho a rfl)]
      rfl

end Codec

/-- The set of the members of a list that is read back. -/
theorem Codec.keySet {α : Type} [Ord α] [Std.TransOrd α] [Std.LawfulEqOrd α] {fits : α → Prop}
    {d : Nat} {write : α → Json} {read : Json → Option α} (h : Codec view fits d write read) :
    Codec view (fun s : KeySet α => ∀ a ∈ s.keys, fits a) (d + 1) (fun s => .arr (s.keys.map write))
      (fun v => (v.list? read).map KeySet.ofMembers) where
  writable hs := h.list.writable hs
  readBack {s} hs := by
    show (list? read _).map KeySet.ofMembers = some s
    rw [h.list.readBack hs, Option.map_some, KeySet.ofMembers_keys]

/-! ### Records and variants -/

/-- A record is read back when its slots are. -/
theorem Codec.ofRecord {α : Type} {fits : α → Prop} {d : Nat} {write : α → Json}
    {read : Json → Option α} (names : List String) (fields : α → List (Option (String × Json)))
    (hn : names.Nodup) (hk : embeddedKey ∉ names) (hw : ∀ a, write a = record (fields a))
    (h : ∀ a, fits a → List.Forall₂ (Fielded d) names (fields a) ∧
      ∀ v, slots? names v = some ((fields a).map (Slot.ofField view)) → read v = some a) :
    Codec view fits (d + 1) write read where
  writable {a} ha := by
    rw [hw]
    exact writable_record (h a ha).1 hn hk
  readBack {a} ha := by
    rw [hw]
    exact (h a ha).2 _ (slots?_record (h a ha).1 hn)

/-- A written case of a variant that is read back as a value. -/
inductive WrittenCase (view : Json → Json) {α : Type} (d : Nat) (tag : String)
    (read : Json → Option α) (a : α) (w : Json) : Prop
  | intro (shape : String) (names : List String) {fields : List (Option (String × Json))}
      (hw : w = record (Json.field tag (.str shape) :: fields)) (hn : (tag :: names).Nodup)
      (hk : embeddedKey ∉ tag :: names) (h : List.Forall₂ (Fielded d) names fields)
      (hr : ∀ w v, tagged? tag w = some (shape, v) →
        slots? names v = some (fields.map (Slot.ofField view)) → read w = some a)

/-- A variant is read back when each of its cases is. -/
theorem Codec.ofCases {α : Type} {fits : α → Prop} {d : Nat} (tag : String) {write : α → Json}
    {read : Json → Option α} (h : ∀ a, fits a → WrittenCase view d tag read a (write a)) :
    Codec view fits (d + 1) write read where
  writable {a} ha := by
    obtain ⟨shape, names, hw, hn, hk, hf, -⟩ := h a ha
    rw [hw]
    exact writable_variant shape hf hn hk
  readBack {a} ha := by
    obtain ⟨shape, names, hw, hn, -, hf, hr⟩ := h a ha
    obtain ⟨v, htag, hslots⟩ := exists_tagged?_variant view shape hf hn
    rw [hw]
    exact hr _ v htag hslots

end

end Json

end Perdure
