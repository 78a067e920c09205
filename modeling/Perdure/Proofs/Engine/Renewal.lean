import Perdure.Proofs.Engine.Migration
import Perdure.Proofs.Instance.Decoded
import Perdure.Proofs.RemapTable

/-!
# Renewal once and again

A state that was renewed keeps its requests in a manager.  What a table makes of such a state has
the same members under the same keys, so it is read with a list of requests only if the table leads
from the shape of managers to the shape of lists.

## Main definitions

* `Json.Has` — a document has a member.

## Main results

* `Migration.renewed?_of_renewed` — a state that was renewed is not renewed again.
-/

namespace Perdure

namespace Json

/-- A document is an object with a member of this name and value. -/
def Has (d : Json) (name : String) (v : Json) : Prop :=
  ∃ members, d = .obj members ∧ (name, v) ∈ members

/-- A member of a document is, under another name, one of what the document was made of. -/
theorem RenamesAt.exists_has {R : String → String → Prop} {isShape : Bool} {d w v : Json}
    {name : String} (h : RenamesAt R isShape d w) (hv : w.Has name v) :
    ∃ u, d.Has name u ∧ RenamesAt R (name = "shape") u v := by
  obtain ⟨members', rfl, hmem⟩ := hv
  cases d with
  | obj members =>
    obtain ⟨_, he, hall⟩ := renamesAt_obj_iff.1 h
    cases he
    obtain ⟨m, hm, hname, hrenames⟩ := mem_left_of_forall₂ hall.flip hmem
    obtain ⟨k, u⟩ := m
    cases hname
    exact ⟨u, ⟨members, rfl, hm⟩, hrenames⟩
  | _ => cases h

/-- A member of a document as a finite map is one of the document. -/
theorem Has.of_collapse {d u : Json} {name : String} (h : d.collapse.Has name u) :
    ∃ v, d.Has name v ∧ u = v.collapse := by
  obtain ⟨members, he, hmem⟩ := h
  cases d with
  | obj fields =>
    cases he
    obtain hnil | ⟨v, hv, hu⟩ := mem_collapseMembers hmem
    · cases hnil
    · exact ⟨v, ⟨fields, rfl, hv⟩, hu⟩
  | _ => cases he

/-- What is given for a field stands in the object under its name. -/
theorem mem_of_slotNamed? {members : List (String × Json)} {name : String} {v : Json}
    (h : slotNamed? members name = some (.given v)) : (name, v) ∈ members := by
  unfold slotNamed? at h
  split at h
  · cases h
  · next k w hfilter =>
    cases h
    have hmem : (k, v) ∈ members.filter (·.1 == name) := by
      rw [hfilter]
      exact List.mem_singleton_self _
    obtain ⟨hmem, hk⟩ := List.mem_filter.1 hmem
    exact eq_of_beq hk ▸ hmem
  · cases h

/-- The slots of an object are given for its names one by one. -/
theorem slots?_cons {members : List (String × Json)} {name : String} {names : List String}
    {slot : Slot} {rest : List Slot} (h : slots? (name :: names) (.obj members) = some (slot :: rest)) :
    slotNamed? members name = some slot ∧ slots? names (.obj members) = some rest := by
  obtain ⟨_, _, hslot, hrest, he⟩ := exists_of_mapM_cons h
  cases he
  exact ⟨hslot, hrest⟩

/-- A field that must be there is read from a member. -/
theorem Slot.exists_of_required {α : Type} {decode : Json → Option α} {slot : Slot} {a : α}
    (h : slot.required decode = some a) : ∃ v, slot = .given v ∧ decode v = some a := by
  cases slot with
  | given v => exact ⟨v, rfl, h⟩
  | _ => cases h

/-- What is renamed of an object is an object, and its members come from those of the object. -/
theorem RenamesAt.descend {R : String → String → Prop} {isShape : Bool} {d w v : Json}
    {name : String} (h : RenamesAt R isShape d.collapse w) (hv : w.Has name v) :
    ∃ u, d.Has name u ∧ RenamesAt R (name = "shape") u.collapse v := by
  obtain ⟨_, hcollapsed, hrenames⟩ := h.exists_has hv
  obtain ⟨u, hu, rfl⟩ := hcollapsed.of_collapse
  exact ⟨u, hu, hrenames⟩

theorem RenamesAt.exists_obj {R : String → String → Prop} {isShape : Bool} {w : Json}
    {fields : List (Option (String × Json))} (h : RenamesAt R isShape (record fields).collapse w) :
    ∃ members, w = .obj members := by
  obtain ⟨members, hw, -⟩ := renamesAt_obj_iff.1
    (show RenamesAt R isShape (.obj (collapseMembers [] (fields.filterMap id))) w from h)
  exact ⟨members, hw⟩

theorem has_record {fields : List (Option (String × Json))} {name : String} {v : Json} :
    (record fields).Has name v ↔ some (name, v) ∈ fields := by
  constructor
  · rintro ⟨_, he, hmem⟩
    cases he
    simpa using hmem
  · intro h
    exact ⟨_, rfl, by simpa using h⟩

end Json

/-! ### Where the requests of a soup are read -/

/-- The shared data of a soup are read from a member. -/
theorem InstanceSoup.exists_global {members : List (String × Json)} {s : InstanceSoup}
    (h : ofJson? (.obj members) = some s) :
    ∃ g, (Json.obj members).Has "global" g ∧ Shared.ofJson? g = some s.global := by
  unfold ofJson? at h
  obtain ⟨slots, hslots, h⟩ := Option.bind_eq_some_iff.1 h
  split at h
  · simp only [Option.bind_eq_bind, Option.pure_def, Option.bind_eq_some_iff, Option.some.injEq] at h
    obtain ⟨shared, hshared, _, _, _, _, _, _, _, _, _, _, _, _, _, _, rfl⟩ := h
    obtain ⟨g, rfl, hg⟩ := Json.Slot.exists_of_required hshared
    exact ⟨g, ⟨members, rfl, Json.mem_of_slotNamed? (Json.slots?_cons hslots).1⟩, hg⟩
  · cases h

/-- The requests of shared data are read from a member. -/
theorem Shared.exists_requests {members : List (String × Json)} {g : Shared}
    (h : ofJson? (.obj members) = some g) :
    ∃ v, (Json.obj members).Has "requests" v ∧ RequestState.ofJson? v = some g.requests := by
  unfold ofJson? read? at h
  obtain ⟨slots, hslots, h⟩ := Option.bind_eq_some_iff.1 h
  split at h
  · simp only [Option.bind_eq_bind, Option.pure_def, Option.bind_eq_some_iff, Option.some.injEq] at h
    obtain ⟨_, _, requests, hrequests, rfl⟩ := h
    obtain ⟨v, rfl, hv⟩ := Json.Slot.exists_of_required hrequests
    have hrest := (Json.slots?_cons hslots).2
    exact ⟨v, ⟨members, rfl, Json.mem_of_slotNamed? (Json.slots?_cons hrest).1⟩, hv⟩
  · cases h

/-- A list of requests is read where its shape stands. -/
theorem RequestState.has_listShape {members : List (String × Json)} {requests : List Request}
    (h : ofJson? (.obj members) = some (.list requests)) :
    (Json.obj members).Has "shape" (.str listShape) := by
  unfold ofJson? at h
  obtain ⟨⟨shape, v⟩, htag, h⟩ := Option.bind_eq_some_iff.1 h
  dsimp only at h
  split at h
  · next hshape =>
    subst hshape
    unfold Json.tagged? at htag
    dsimp only at htag
    split at htag
    · next hslot =>
      cases htag
      exact ⟨members, rfl, Json.mem_of_slotNamed? hslot⟩
    · cases htag
  · split at h
    · obtain ⟨slots, -, h⟩ := Option.bind_eq_some_iff.1 h
      split at h
      · simp only [Option.bind_eq_bind, Option.pure_def, Option.bind_eq_some_iff,
          Option.some.injEq, reduceCtorEq, and_false, exists_const] at h
      · cases h
    · cases h

namespace Migration

/-- A table reads a list of requests from a written manager only if it leads from the one shape to
the other. -/
theorem leads_of_read_list {t : RemapTable} {s s' : InstanceSoup} {m : RequestManager}
    {requests : List Request} (h : Soup.Sized s) (hs : s.global.requests = .manager m)
    (hread : Checkpoint.read t (Checkpoint.write s) = .ok s')
    (hs' : s'.global.requests = .list requests) :
    t.Leads RequestState.managerShape RequestState.listShape := by
  have hdocument := Checkpoint.toOption_read_write h t
  rw [hread] at hdocument
  obtain ⟨w, happly, hw⟩ := Option.bind_eq_some_iff.1 hdocument.symm
  have hsoup : (InstanceSoup.toJson s).collapse.Renames t.Leads w :=
    RemapTable.apply_eq_ok_iff.1 (toOption_eq_some_iff.1 happly)
  -- down to the shape of the requests, each member read comes from the member written
  obtain ⟨_, rfl⟩ := hsoup.exists_obj
  obtain ⟨g, hg, hshared⟩ := InstanceSoup.exists_global hw
  obtain ⟨u, hu, hglobal⟩ := hsoup.descend hg
  obtain rfl : u = s.global.toJson := by simpa [Json.field] using Json.has_record.1 hu
  obtain ⟨_, rfl⟩ := hglobal.exists_obj
  obtain ⟨v, hv, hstate⟩ := Shared.exists_requests hshared
  obtain ⟨u, hu, hrequests⟩ := hglobal.descend hv
  obtain rfl : u = s.global.requests.toJson := by
    rcases List.mem_cons.1 (Json.has_record.1 hu) with hroot | hrequests
    · cases hlink : s.global.root <;> rw [hlink] at hroot <;> simp [Json.fieldOf] at hroot
    · simpa [Json.field] using hrequests
  rw [hs] at hrequests
  rw [hs'] at hstate
  obtain ⟨_, rfl⟩ := hrequests.exists_obj
  obtain ⟨u, hu, hshape⟩ := hrequests.descend (RequestState.has_listShape hstate)
  obtain rfl : u = .str RequestState.managerShape := by
    simpa [Json.field, shapeTag] using Json.has_record.1 hu
  cases hshape with
  | shape hleads => exact hleads

/-- **A state that was renewed is not renewed again**, unless the table leads from the shape that is
written to the one that is renewed. -/
theorem renewed?_of_renewed {t : RemapTable}
    (ht : ¬ t.Leads RequestState.managerShape RequestState.listShape) {bytes new newer : List UInt8}
    (h : renewed? t bytes = .ok (some new)) : renewed? t new ≠ .ok (some newer) := by
  intro hagain
  obtain ⟨soup, requests, hr⟩ | hnone | hstuck := renewed?_cases t bytes
  · obtain ⟨m, hperm, hnew⟩ := hr.renewed?_eq
    rw [h] at hnew
    cases hnew
    have hfits := (Checkpoint.fits_of_read hr.read).1
    have hmanager : RequestState.Fits (.manager m) := by
      have hlist := hfits.global.requests
      rw [hr.listed] at hlist
      exact fun q hq => hlist q (hperm.mem_iff.1 hq)
    obtain ⟨soup', requests', hr'⟩ | hnone | hstuck := renewed?_cases t
      (Checkpoint.write (soup.withRequests (.manager m)))
    · exact ht (leads_of_read_list (hfits.withRequests hmanager).sized rfl hr'.read hr'.listed)
    · rw [hagain] at hnone
      cases hnone
    · obtain ⟨e, he⟩ := hstuck.renewed?_eq
      rw [hagain] at he
      cases he
  · rw [h] at hnone
    cases hnone
  · obtain ⟨e, he⟩ := hstuck.renewed?_eq
    rw [h] at he
    cases he

end Migration

end Perdure
