import Mathlib.Data.List.Forall2
import Perdure.Json.Fields
import Perdure.Proofs.Json.Reader
import Perdure.Proofs.Table

/-!
# Records that are read back

A written record is seen as it stands, or as a finite map with sorted members.  Either way every
field is found again under its name, and a field that was left out is found to be absent.

## Main definitions

* `Json.View` — a way to see a document: `Json.asWritten`, `Json.collapse`.
* `Json.Fielded` — a field of this name, or none, with a value that can be written.
* `Json.Slot.ofField` — the slot of a written field.

## Main results

* `Json.slots?_record` — the slots of a written record are those of its fields.
* `Json.exists_tagged?_variant` — a written variant shows its case and the slots of its fields.
-/

namespace Perdure

namespace Json

open Std

/-! ### Members in order -/

/-- The members of a collapsed object are placed one after another. -/
theorem collapseMembers_eq (placed members : List (String × Json)) :
    collapseMembers placed members =
      (members.map fun m => (m.1, m.2.collapse)).foldl (fun p m => Table.place m.1 m.2 p)
        placed := by
  induction members generalizing placed with
  | nil => rfl
  | cons m rest ih => exact ih (Table.place m.1 m.2.collapse placed)

theorem collapseItems_eq (items : List Json) : collapseItems items = items.map collapse := by
  induction items with
  | nil => rfl
  | cons v rest ih => rw [collapseItems, ih, List.map_cons]

theorem map_fst_map_snd (see : Json → Json) (members : List (String × Json)) :
    (members.map fun m => (m.1, see m.2)).map Prod.fst = members.map Prod.fst := by
  rw [List.map_map]
  rfl

/-- Members of distinct names are all kept, in whatever order. -/
theorem perm_collapseMembers {members : List (String × Json)}
    (hn : (members.map Prod.fst).Nodup) :
    (collapseMembers [] members).Perm (members.map fun m => (m.1, m.2.collapse)) := by
  rw [← map_fst_map_snd collapse] at hn
  have hfold := Table.perm_foldl_place [] hn fun _ _ => List.not_mem_nil
  rw [List.append_nil] at hfold
  rw [collapseMembers_eq]
  exact hfold

/-! ### Views -/

/-- A way to see a document: part by part, and with all members of an object, if no name repeats,
in whatever order. -/
class View (view : Json → Json) : Prop where
  bool (b : Bool) : view (.bool b) = .bool b
  nat (n : Nat) : view (.nat n) = .nat n
  str (s : String) : view (.str s) = .str s
  arr (items : List Json) : view (.arr items) = .arr (items.map view)
  obj {members : List (String × Json)} (hn : (members.map Prod.fst).Nodup) :
    ∃ seen, view (.obj members) = .obj seen ∧ seen.Perm (members.map fun m => (m.1, view m.2))
  null : view .null = .null
  ne_null {v : Json} (h : v ≠ .null) : view v ≠ .null

/-- The document as it is written. -/
def asWritten (v : Json) : Json := v

instance : View asWritten where
  bool _ := rfl
  nat _ := rfl
  str _ := rfl
  arr items := congrArg arr (List.map_id items).symm
  obj {members} _ := ⟨members, rfl, .of_eq (List.map_id members).symm⟩
  null := rfl
  ne_null h := h

/-- The document as a finite map. -/
instance : View collapse where
  bool _ := rfl
  nat _ := rfl
  str _ := rfl
  arr items := by rw [collapse, collapseItems_eq]
  obj hn := ⟨_, rfl, perm_collapseMembers hn⟩
  null := rfl
  ne_null {v} h := by
    cases v with
    | null => exact absurd rfl h
    | _ => exact nofun

/-! ### Slots -/

/-- If no name repeats, at most one member has a name. -/
theorem filter_eq_find {members : List (String × Json)} (h : (members.map Prod.fst).Nodup)
    (name : String) :
    members.filter (·.1 == name) = ((Table.find name members).map fun v => (name, v)).toList := by
  induction members with
  | nil => rfl
  | cons m rest ih =>
    obtain ⟨k, v⟩ := m
    rw [List.map_cons, List.nodup_cons] at h
    by_cases hk : k = name
    · subst hk
      have hnone : rest.filter (·.1 == k) = [] :=
        List.filter_eq_nil_iff.2 fun n hn he => h.1 (List.mem_map.2 ⟨n, hn, eq_of_beq he⟩)
      rw [List.filter_cons, if_pos (beq_self_eq_true k), hnone, Table.find_self]
      rfl
    · have hne : compare name k ≠ .eq := fun he => hk (eq_of_compare_eq he).symm
      rw [List.filter_cons_of_neg (by simpa using hk), ih h.2]
      congr 2
      rw [Table.find]
      split
      · contradiction
      · rfl

/-- The slot of a name, where no name repeats. -/
theorem slotNamed?_of_nodup {members : List (String × Json)} (h : (members.map Prod.fst).Nodup)
    (name : String) :
    slotNamed? members name = some ((Table.find name members).elim Slot.absent Slot.given) := by
  rw [slotNamed?, filter_eq_find h]
  cases Table.find name members <;> rfl

theorem slots?_of_nodup {members : List (String × Json)} (h : (members.map Prod.fst).Nodup)
    (names : List String) : slots? names (.obj members) =
      some (names.map fun name => (Table.find name members).elim Slot.absent Slot.given) := by
  show names.mapM (slotNamed? members) = _
  rw [funext (slotNamed?_of_nodup h)]
  exact List.mapM_pure

/-! ### Fields -/

/-- A field of this name, or none, with a value of the given depth at most. -/
def Fielded (d : Nat) (name : String) (f : Option (String × Json)) : Prop :=
  ∀ m ∈ f, m.1 = name ∧ m.2.Writable d

theorem fielded_field (name : String) {d : Nat} {v : Json} (h : v.Writable d) :
    Fielded d name (field name v) := by
  intro m hm
  cases hm
  exact ⟨rfl, h⟩

/-- The slot of a written field. -/
def Slot.ofField (view : Json → Json) (f : Option (String × Json)) : Slot :=
  f.elim .absent fun m => .given (view m.2)

/-- The members of a written record, as they are seen. -/
def seen (view : Json → Json) (fields : List (Option (String × Json))) : List (String × Json) :=
  (fields.filterMap id).map fun m => (m.1, view m.2)

theorem seen_asWritten (fields : List (Option (String × Json))) :
    seen asWritten fields = fields.filterMap id := List.map_id _

theorem record_eq (fields : List (Option (String × Json))) :
    record fields = .obj (seen asWritten fields) := by
  rw [seen_asWritten]
  rfl

/-- A field that is left out when it is `none` is read like one that could be left out. -/
theorem Slot.optional_ofField {α : Type} (decode : Json → Option α) (view : Json → Json)
    (f : Option (String × Json)) :
    (ofField view f).optional decode = (ofField view f).withDefault none (option? decode) := by
  cases f <;> rfl

section

variable {d : Nat} {names : List String} {fields : List (Option (String × Json))}

theorem mem_names_of_fielded (h : List.Forall₂ (Fielded d) names fields) {m : String × Json}
    (hm : m ∈ fields.filterMap id) : m.1 ∈ names ∧ m.2.Writable d := by
  induction h with
  | nil => cases hm
  | @cons name f names fields hf _ ih =>
    cases f with
    | none =>
      obtain ⟨hmem, hw⟩ := ih (by simpa using hm)
      exact ⟨List.mem_cons_of_mem name hmem, hw⟩
    | some n =>
      rcases List.mem_cons.1 (by simpa using hm : m ∈ n :: fields.filterMap id) with rfl | hm
      · obtain ⟨rfl, hw⟩ := hf m rfl
        exact ⟨List.mem_cons_self, hw⟩
      · obtain ⟨hmem, hw⟩ := ih hm
        exact ⟨List.mem_cons_of_mem name hmem, hw⟩

/-- Fields of distinct names have distinct names. -/
theorem nodup_keys_of_fielded (h : List.Forall₂ (Fielded d) names fields) (hn : names.Nodup) :
    ((fields.filterMap id).map Prod.fst).Nodup := by
  induction h with
  | nil => exact List.nodup_nil
  | @cons name f names fields hf hfs ih =>
    rw [List.nodup_cons] at hn
    cases f with
    | none => exact ih hn.2
    | some m =>
      have hcons : (some m :: fields).filterMap id = m :: fields.filterMap id := rfl
      rw [hcons, List.map_cons, (hf m rfl).1, List.nodup_cons]
      refine ⟨?_, ih hn.2⟩
      intro hmem
      obtain ⟨n, hn', he⟩ := List.mem_map.1 hmem
      exact hn.1 (he ▸ (mem_names_of_fielded hfs hn').1)

/-- A record of fields that can be written can be written. -/
theorem writable_record (h : List.Forall₂ (Fielded d) names fields) (hn : names.Nodup)
    (hk : embeddedKey ∉ names) : (record fields).Writable (d + 1) := by
  refine .obj ?_ (nodup_keys_of_fielded h hn) fun m hm => (mem_names_of_fielded h hm).2
  intro he
  obtain ⟨m, hm, hkey⟩ := Option.map_eq_some_iff.1 he
  exact hk (hkey ▸ (mem_names_of_fielded h (List.mem_of_head? hm)).1)

variable {view : Json → Json}

theorem nodup_keys_seen (h : List.Forall₂ (Fielded d) names fields) (hn : names.Nodup) :
    ((seen view fields).map Prod.fst).Nodup := by
  rw [seen, map_fst_map_snd]
  exact nodup_keys_of_fielded h hn

variable (view) in
/-- Every field is found under its name. -/
theorem find_seen (h : List.Forall₂ (Fielded d) names fields) (hn : names.Nodup) :
    names.map (fun name => (Table.find name (seen view fields)).elim Slot.absent Slot.given) =
      fields.map (Slot.ofField view) := by
  induction h with
  | nil => rfl
  | @cons name f names fields hf hfs ih =>
    rw [List.nodup_cons] at hn
    rw [List.map_cons, List.map_cons]
    cases f with
    | none =>
      have hnone : Table.find name (seen view fields) = none := by
        refine Table.find_eq_none fun hmem => hn.1 ?_
        rw [seen, map_fst_map_snd] at hmem
        obtain ⟨m, hm, rfl⟩ := List.mem_map.1 hmem
        exact (mem_names_of_fielded hfs hm).1
      exact congrArg₂ List.cons (congrArg (Option.elim · Slot.absent Slot.given) hnone) (ih hn.2)
    | some m =>
      obtain ⟨k, v⟩ := m
      obtain ⟨rfl, -⟩ := hf (k, v) rfl
      have hseen : seen view (some (k, v) :: fields) = (k, view v) :: seen view fields := rfl
      rw [hseen, Table.find_self, ← ih hn.2]
      refine congrArg (List.cons _) (List.map_congr_left fun n hmem => ?_)
      -- names are distinct, so the other fields are found behind this one
      have hne : compare n k ≠ .eq := fun he => hn.1 (eq_of_compare_eq he ▸ hmem)
      rw [Table.find]
      split
      · contradiction
      · rfl

/-- Some fields of a written record are found under their names, in whatever order the members
are seen. -/
theorem slots?_of_perm_append (h : List.Forall₂ (Fielded d) names fields) {names' : List String}
    {fields' : List (Option (String × Json))} (h' : List.Forall₂ (Fielded d) names' fields')
    (hn : (names ++ names').Nodup) {members : List (String × Json)}
    (hp : members.Perm (seen view (fields ++ fields'))) :
    slots? names (.obj members) = some (fields.map (Slot.ofField view)) := by
  have hall := List.rel_append h h'
  have hkeys := (hp.map Prod.fst).nodup_iff.2 (nodup_keys_seen hall hn)
  have hfind := find_seen view hall hn
  rw [List.map_append, List.map_append] at hfind
  have hlength := h.length_eq
  rw [slots?_of_nodup hkeys, ← (List.append_inj hfind (by simpa using hlength)).1]
  exact congrArg some (List.map_congr_left fun name _ => by rw [Table.find_eq_of_perm hp hkeys])

/-- The slots of a written record are those of its fields, in whatever order they are seen. -/
theorem slots?_of_perm (h : List.Forall₂ (Fielded d) names fields) (hn : names.Nodup)
    {members : List (String × Json)} (hp : members.Perm (seen view fields)) :
    slots? names (.obj members) = some (fields.map (Slot.ofField view)) :=
  slots?_of_perm_append h .nil (by rwa [List.append_nil]) (by rwa [List.append_nil])

variable (view) in
/-- Without some of its fields, the members of a written record are those of the others. -/
theorem filter_seen_append (h : List.Forall₂ (Fielded d) names fields) {names' : List String}
    {fields' : List (Option (String × Json))} (h' : List.Forall₂ (Fielded d) names' fields')
    (hn : (names ++ names').Nodup) :
    (seen view (fields ++ fields')).filter (fun m => !names.contains m.1) = seen view fields' := by
  have hnames {names : List String} {fields : List (Option (String × Json))}
      (h : List.Forall₂ (Fielded d) names fields) {m : String × Json}
      (hm : m ∈ seen view fields) : m.1 ∈ names := by
    obtain ⟨n, hn, rfl⟩ := List.mem_map.1 hm
    exact (mem_names_of_fielded h hn).1
  have hnone : (seen view fields).filter (fun m => !names.contains m.1) = [] :=
    List.filter_eq_nil_iff.2 fun m hm => by simpa using hnames h hm
  have hall : (seen view fields').filter (fun m => !names.contains m.1) = seen view fields' := by
    refine List.filter_eq_self.2 fun m hm => ?_
    have hother : m.1 ∉ names := fun hmem =>
      (List.nodup_append.1 hn).2.2 _ hmem _ (hnames h' hm) rfl
    simpa using hother
  rw [seen, List.filterMap_append, List.map_append, List.filter_append]
  exact (congrArg₂ (· ++ ·) hnone hall).trans (List.nil_append _)

variable (view) in
/-- A written record is seen with the members of its fields. -/
theorem exists_seen_record [View view] (h : List.Forall₂ (Fielded d) names fields)
    (hn : names.Nodup) :
    ∃ members, view (record fields) = .obj members ∧ members.Perm (seen view fields) :=
  View.obj (nodup_keys_of_fielded h hn)

/-- The slots of a written record are those of its fields. -/
theorem slots?_record [View view] (h : List.Forall₂ (Fielded d) names fields) (hn : names.Nodup) :
    slots? names (view (record fields)) = some (fields.map (Slot.ofField view)) := by
  obtain ⟨members, hview, hp⟩ := exists_seen_record view h hn
  rw [hview]
  exact slots?_of_perm h hn hp

/-! ### Variants -/

theorem fielded_tag (d : Nat) (tag shape : String) : Fielded d tag (field tag (.str shape)) := by
  intro m hm
  cases hm
  exact ⟨rfl, .str d shape⟩

/-- Without the tag, the members of a written variant are those of its fields. -/
theorem perm_filter_tag {tag shape : String} (h : List.Forall₂ (Fielded d) names fields)
    (hn : tag ∉ names) {members : List (String × Json)}
    (hp : members.Perm (seen view (field tag (.str shape) :: fields))) :
    (members.filter (·.1 != tag)).Perm (seen view fields) := by
  refine (hp.filter _).trans (.of_eq ?_)
  have hseen : seen view (field tag (.str shape) :: fields) =
      (tag, view (.str shape)) :: seen view fields := rfl
  rw [hseen, List.filter_cons_of_neg (by simp)]
  refine List.filter_eq_self.2 fun m hm => bne_iff_ne.2 fun he => hn ?_
  obtain ⟨n, hn', rfl⟩ := List.mem_map.1 hm
  exact he ▸ (mem_names_of_fielded h hn').1

/-- A written variant shows its case and the slots of its fields, in whatever order they are
seen. -/
theorem exists_tagged?_of_perm [View view] {tag : String} {shape : String}
    (h : List.Forall₂ (Fielded d) names fields) (hn : (tag :: names).Nodup)
    {members : List (String × Json)}
    (hp : members.Perm (seen view (field tag (.str shape) :: fields))) :
    ∃ v, tagged? tag (.obj members) = some (shape, v) ∧
      slots? names v = some (fields.map (Slot.ofField view)) := by
  have hall := List.Forall₂.cons (fielded_tag d tag shape) h
  have hkeys := (hp.map Prod.fst).nodup_iff.2 (nodup_keys_seen hall hn)
  have htag : Table.find tag members = some (.str shape) := by
    rw [Table.find_eq_of_perm hp hkeys]
    exact (Table.find_self tag _ _).trans (congrArg some (View.str shape))
  rw [List.nodup_cons] at hn
  refine ⟨.obj (members.filter (·.1 != tag)), ?_, ?_⟩
  · rw [tagged?, slotNamed?_of_nodup hkeys, htag]
    rfl
  · exact slots?_of_perm h hn.2 (perm_filter_tag h hn.1 hp)

variable (view) in
/-- A written variant shows its case and the slots of its fields. -/
theorem exists_tagged?_variant [View view] {tag : String} (shape : String)
    (h : List.Forall₂ (Fielded d) names fields) (hn : (tag :: names).Nodup) :
    ∃ v, tagged? tag (view (record (field tag (.str shape) :: fields))) = some (shape, v) ∧
      slots? names v = some (fields.map (Slot.ofField view)) := by
  have hall := List.Forall₂.cons (fielded_tag d tag shape) h
  obtain ⟨members, hview, hp⟩ := exists_seen_record view hall hn
  rw [hview]
  exact exists_tagged?_of_perm h hn hp

/-- A variant of fields that can be written can be written. -/
theorem writable_variant {tag : String} (shape : String)
    (h : List.Forall₂ (Fielded d) names fields) (hn : (tag :: names).Nodup)
    (hk : embeddedKey ∉ tag :: names) :
    (record (field tag (.str shape) :: fields)).Writable (d + 1) :=
  writable_record (.cons (fielded_tag d tag shape) h) hn hk

end

end Json

end Perdure
