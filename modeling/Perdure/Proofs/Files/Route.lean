import Perdure.Proofs.Files.Tree

/-!
# Routes that are walked again

Walking a route makes what is missing on the way, and takes nothing away.  So whoever walks it again
finds every folder there and comes to the same place, as long as the folders on the way are left.

## Main definitions

* `FileTree.Reaches` — a folder and all folders above it are there.

## Main results

* `FileTree.Reaches.write`, `FileTree.Reaches.remove` — what leaves the folders on a way.
* `FileTree.makeRoute_again` — a route is walked again.
-/

namespace Perdure

namespace FileTree

variable {t t' u : FileTree} {here p q : Path} {route : Route} {name : String}

/-- A folder and all folders above it are there. -/
def Reaches (t : FileTree) (p : Path) : Prop := ∀ q, q <+: p → t.isFolder q = true

theorem reaches_nil (t : FileTree) : t.Reaches [] := by
  intro q hq
  rw [List.prefix_nil.1 hq]
  rfl

theorem Reaches.isFolder (h : t.Reaches p) : t.isFolder p = true := h p (List.prefix_refl p)

theorem Reaches.dropLast (h : t.Reaches p) : t.Reaches p.dropLast :=
  fun q hq => h q (hq.trans (List.dropLast_prefix p))

theorem Reaches.concat (h : t.Reaches p) (hp : t.isFolder (p ++ [name]) = true) :
    t.Reaches (p ++ [name]) := by
  intro q hq
  rcases List.prefix_concat_iff.1 hq with rfl | hq
  · exact hp
  · exact h q hq

/-- Where a folder is put, there is one, and folders that are there stay. -/
theorem isFolder_insert (t : FileTree) (q : Path) (h : p = q ∨ t.isFolder p = true) :
    isFolder (t.insert q .folder) p = true := by
  rw [isFolder_iff, entry?]
  split
  · rfl
  · next hp =>
    rw [Table.get?_insert]
    split
    · rfl
    · next hne =>
      have hfolder := h.resolve_left hne
      rwa [isFolder_iff, entry?, if_neg hp] at hfolder

theorem Reaches.insert (h : t.Reaches p) (q : Path) : Reaches (t.insert q .folder) p :=
  fun q' hq' => isFolder_insert t q (.inr (h q' hq'))

/-- Removing makes no folder. -/
theorem isFolder_of_remove (h : (t.remove q).isFolder p = true) : t.isFolder p = true := by
  rw [isFolder_iff, entry?] at h ⊢
  split
  · rfl
  · next hp =>
    rw [if_neg hp, get?_remove] at h
    split at h
    · cases h
    · exact h

/-- A file that is not written over a folder leaves the way to each folder. -/
theorem Reaches.write (h : t.Reaches p) (hq : t.isFolder q = false) (bytes : List UInt8) :
    (t.write q bytes).Reaches p := by
  intro q' hq'
  have hfolder := h q' hq'
  have hne : q' ≠ q := fun he => by
    rw [he, hq] at hfolder
    cases hfolder
  rw [isFolder_iff, entry?] at hfolder ⊢
  rwa [get?_write, if_neg hne]

/-- What is removed at the place of no folder leaves the way to each folder. -/
theorem Reaches.remove (h : t.Reaches p) (hq : t.isFolder q = false) : (t.remove q).Reaches p := by
  intro q' hq'
  have hfolder := h q' hq'
  have hbelow : ¬ q <+: q' := fun hle => by
    have hthere := h q (hle.trans hq')
    rw [hq] at hthere
    cases hthere
  rw [isFolder_iff, entry?] at hfolder ⊢
  rwa [get?_remove, if_neg hbelow]

/-- Walking a route takes no folder away. -/
theorem isFolder_of_makeRoute {found : Option Path} (h : t.makeRoute here route = (t', found))
    (hp : t.isFolder p = true) : t'.isFolder p = true := by
  induction route generalizing here t with
  | nil =>
    cases h
    exact hp
  | cons step rest ih => cases step with
    | stay | up => exact ih h hp
    | down name =>
      rw [makeRoute] at h
      split at h
      · cases h
        exact hp
      · exact ih h hp
      · split at h
        · cases h
          exact hp
        · exact ih h (isFolder_insert t _ (.inr hp))

/-- What is left of a walk after a step down starts at a folder that is there. -/
theorem exists_reaches_of_makeRoute_down {rest : Route} (hhere : t.Reaches here)
    (h : t.makeRoute here (.down name :: rest) = (t', some q)) :
    ∃ t₁ : FileTree, t₁.Reaches (here ++ [name]) ∧
      t₁.makeRoute (here ++ [name]) rest = (t', some q) := by
  rw [makeRoute] at h
  split at h
  · cases h
  · next hfolder => exact ⟨t, hhere.concat (isFolder_iff.2 hfolder), h⟩
  · split at h
    · cases h
    · exact ⟨_, (hhere.insert _).concat (isFolder_insert t _ (.inl rfl)), h⟩

/-- **A route is walked again** where the folders are left that a first walk came through. -/
theorem makeRoute_again (hhere : t.Reaches here) (h : t.makeRoute here route = (t', some q))
    (hu : ∀ p, t'.Reaches p → u.isFolder p = true) : u.makeRoute here route = (u, some q) := by
  induction route generalizing here t with
  | nil =>
    cases h
    rfl
  | cons step rest ih => cases step with
    | stay => exact ih hhere h
    | up => exact ih hhere.dropLast h
    | down name =>
      -- the folder that the step leads to is there after the first walk
      obtain ⟨t₁, hthere, h⟩ := exists_reaches_of_makeRoute_down hhere h
      have hleft : t'.Reaches (here ++ [name]) := fun p hp => isFolder_of_makeRoute h (hthere p hp)
      rw [makeRoute, isFolder_iff.1 (hu _ hleft)]
      exact ih hthere h

end FileTree

end Perdure
