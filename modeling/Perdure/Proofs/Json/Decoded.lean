import Mathlib.Algebra.Group.Nat.Defs
import Perdure.Json.Fields
import Perdure.Proofs.Failure
import Perdure.Proofs.Table

/-!
# What readers take in

A reader takes in no value but fitting ones: its numbers are below the bounds that it checks.  The
readers of lists, of sets, of options and of the fields of records pass this on from their parts.

## Main definitions

* `Json.Decodes` — whatever a reader takes in fits.

## Main results

* `Json.Decodes.list`, `Json.Decodes.keySet` — what is read of lists and of sets.
* `Json.Decodes.required`, `Json.Decodes.optional`, `Json.Decodes.withDefault` — what is read of fields.
-/

namespace Perdure

namespace Json

/-- Whatever a reader takes in fits. -/
def Decodes {α : Type} (fits : α → Prop) (read : Json → Option α) : Prop :=
  ∀ v a, read v = some a → fits a

theorem Decodes.natBelow (bound : Nat) : Decodes (· < bound) (natBelow? bound) := by
  intro v n h
  cases v with
  | nat m =>
    have h : (if m < bound then some m else none) = some n := h
    split at h
    · next hm =>
      cases h
      exact hm
    · cases h
  | _ => cases h

theorem Decodes.word64 : Decodes (· < 2 ^ 64) word64? := Decodes.natBelow _

theorem Decodes.word32 : Decodes (· < 2 ^ 32) word32? := Decodes.natBelow _

/-- What is read one by one comes from the readings of single items. -/
theorem forall_of_mapM {α β : Type} {f : α → Option β} {p : β → Prop}
    (hf : ∀ a b, f a = some b → p b) {l : List α} {l' : List β} (h : l.mapM f = some l') :
    ∀ b ∈ l', p b := by
  induction l generalizing l' with
  | nil =>
    cases h
    exact fun _ hb => nomatch hb
  | cons a rest ih =>
    obtain ⟨b, bs, hb, hbs, rfl⟩ := exists_of_mapM_cons h
    exact List.forall_mem_cons.2 ⟨hf a b hb, ih hbs⟩

namespace Decodes

variable {α : Type} {fits : α → Prop} {read : Json → Option α} (h : Decodes fits read)

include h

theorem list : Decodes (fun l => ∀ a ∈ l, fits a) (list? read) := by
  intro v l hl
  cases v with
  | arr items => exact forall_of_mapM h hl
  | _ => cases hl

theorem option : Decodes (fun o => ∀ a ∈ o, fits a) (option? read) := by
  intro v o ho
  unfold option? at ho
  split at ho
  · cases ho
    exact nofun
  · obtain ⟨a, ha, rfl⟩ := Option.map_eq_some_iff.1 ho
    rintro _ ⟨⟩
    exact h _ _ ha

/-! ### Fields -/

theorem required {slot : Slot} {a : α} (ha : slot.required read = some a) : fits a := by
  cases slot with
  | given v => exact h _ _ ha
  | _ => cases ha

theorem optional {slot : Slot} {o : Option α} (ho : slot.optional read = some o) :
    ∀ a ∈ o, fits a := by
  cases slot with
  | given v => exact h.option v o ho
  | absent =>
    cases ho
    exact nofun
  | beyond => cases ho

theorem withDefault {fallback : α} (hf : fits fallback) {slot : Slot} {a : α}
    (ha : slot.withDefault fallback read = some a) : fits a := by
  cases slot with
  | given v => exact h _ _ ha
  | absent | beyond =>
    cases ha
    exact hf

end Decodes

/-- The set of the members of a list that is read. -/
theorem Decodes.keySet {α : Type} [Ord α] [Std.TransOrd α] [Std.LawfulEqOrd α]
    [DecidableEq α] {fits : α → Prop} {read : Json → Option α} (h : Decodes fits read) :
    Decodes (fun s : KeySet α => ∀ a ∈ s.keys, fits a)
      (fun v => (v.list? read).map KeySet.ofMembers) := by
  intro v s hs
  obtain ⟨l, hl, rfl⟩ := Option.map_eq_some_iff.1 hs
  intro a ha
  have hmem := (KeySet.contains_foldl_add l Table.empty a).1 (KeySet.contains_iff_mem_keys.2 ha)
  exact h.list v l hl a (hmem.resolve_right nofun)

end Json

end Perdure
