import Mathlib.Data.List.Infix
import Perdure.Files.Route
import Perdure.Proofs.Table

/-!
# What stands where in a file tree

A file tree is seen through its paths: each change is told by what stands at a path after it.  Making
folders touches nothing but the way to them, and where there is a folder it touches nothing at all.

## Main definitions

* `FileTree.Sound` — whatever stands in a tree lies in a folder, under a name that is short enough.

## Main results

* `FileTree.mem_children_iff` — what a folder holds.
* `FileTree.get?_of_makeFolders` — making folders touches nothing but the way to them.
* `FileTree.Sound.makeFolders?_eq` — where there is a folder, nothing is made.
-/

namespace Perdure

namespace Table

variable {κ ν : Type} [Ord κ] [Std.TransOrd κ] [Std.LawfulEqOrd κ]

/-- What passes a test is found, and nothing else. -/
theorem get?_filter (t : Table κ ν) (p : κ × ν → Bool) (k : κ) :
    (t.filter p).get? k = (t.get? k).filter fun v => p (k, v) := by
  refine Option.ext fun v => ?_
  rw [Option.filter_eq_some_iff, ← mem_entries_iff (e := (k, v)), ← mem_entries_iff (e := (k, v))]
  exact List.mem_filter

end Table

namespace FileTree

variable {t t' : FileTree} {p q folder : Path} {name : String} {e : Entry}

/-! ### What stands at a path -/

@[simp] theorem entry?_concat (t : FileTree) (p : Path) (name : String) :
    t.entry? (p ++ [name]) = t.get? (p ++ [name]) := by
  unfold entry?
  simp

theorem isFolder_iff : t.isFolder p ↔ t.entry? p = some .folder := decide_eq_true_iff

theorem isFile_iff : t.isFile p ↔ ∃ bytes, t.entry? p = some (.file bytes) := by
  unfold isFile read?
  split <;> simp_all

/-- A path with a file holds no folder. -/
theorem not_isFolder_of_isFile (h : t.isFile p) : ¬ t.isFolder p := by
  obtain ⟨bytes, hp⟩ := isFile_iff.1 h
  rw [isFolder_iff, hp]
  exact nofun

/-- Something stands at a path: a folder or a file. -/
theorem entry?_ne_none_iff : t.entry? p ≠ none ↔ t.isFolder p ∨ t.isFile p := by
  rw [isFolder_iff, isFile_iff, Option.ne_none_iff_exists']
  constructor
  · rintro ⟨e, he⟩
    cases e with
    | folder => exact .inl he
    | file bytes => exact .inr ⟨bytes, he⟩
  · rintro (h | ⟨bytes, h⟩) <;> exact ⟨_, h⟩

@[simp] theorem get?_write (t : FileTree) (p q : Path) (bytes : List UInt8) :
    (t.write p bytes).get? q = if q = p then some (.file bytes) else t.get? q :=
  Table.get?_insert t p q _

@[simp] theorem get?_remove (t : FileTree) (p q : Path) :
    (t.remove p).get? q = if p <+: q then none else t.get? q := by
  rw [remove, Table.get?_filter]
  split
  · next h => cases t.get? q <;> simp [List.isPrefixOf_iff_prefix.2 h]
  · next h =>
    have h : p.isPrefixOf q = false := by rwa [← Bool.not_eq_true, List.isPrefixOf_iff_prefix]
    cases t.get? q <;> simp [h]

/-! ### What a folder holds -/

theorem nameIn?_eq_some_iff : nameIn? folder p = some name ↔ p = folder ++ [name] := by
  unfold nameIn?
  constructor
  · intro h
    split at h
    · next x hdrop =>
      split at h
      · next htake =>
        cases h
        rw [← List.take_append_drop folder.length p, htake, hdrop]
      · cases h
    · cases h
  · rintro rfl
    simp

/-- A folder holds what stands at its path and a name. -/
theorem mem_children_iff : (name, e) ∈ t.children folder ↔ t.get? (folder ++ [name]) = some e := by
  unfold children
  simp only [List.mem_filterMap, Option.map_eq_some_iff, nameIn?_eq_some_iff, Prod.mk.injEq]
  constructor
  · rintro ⟨⟨p, e'⟩, hmem, name', hp, rfl, rfl⟩
    exact hp ▸ Table.mem_entries_iff.1 hmem
  · intro h
    exact ⟨(folder ++ [name], e), Table.mem_entries_iff.2 h, name, rfl, rfl, rfl⟩

/-- No name stands twice in a folder. -/
theorem nodup_children (t : FileTree) (folder : Path) :
    ((t.children folder).map Prod.fst).Nodup := by
  refine List.pairwise_map.2 (List.pairwise_filterMap.2 ?_)
  refine (List.pairwise_map.1 (Table.nodup_keys t.ordered)).imp fun {a b} hne c hc d hd he => hne ?_
  obtain ⟨x, hx, rfl⟩ := Option.map_eq_some_iff.1 hc
  obtain ⟨y, hy, rfl⟩ := Option.map_eq_some_iff.1 hd
  rw [nameIn?_eq_some_iff.1 hx, nameIn?_eq_some_iff.1 hy]
  exact congrArg _ (congrArg (fun z => [z]) he)

/-! ### New files -/

/-- What comes of the wish for a new file, by what stands there. -/
theorem create_cases (t : FileTree) (folder : Path) (name : String) :
    (nameLimit < name.utf8ByteSize ∧ t.create folder name = .refused) ∨
    (name.utf8ByteSize ≤ nameLimit ∧ t.get? (folder ++ [name]) ≠ none ∧
      t.create folder name = .present) ∨
    (name.utf8ByteSize ≤ nameLimit ∧ t.get? (folder ++ [name]) = none ∧
      t.create folder name = .created (t.write (folder ++ [name]) [])) := by
  unfold create
  rw [entry?_concat]
  split
  · next h => exact .inl ⟨h, rfl⟩
  · next h =>
    have h := Nat.le_of_not_lt h
    cases hg : t.get? (folder ++ [name]) with
    | none => exact .inr (.inr ⟨h, rfl, rfl⟩)
    | some e => exact .inr (.inl ⟨h, nofun, rfl⟩)

/-! ### New folders -/

/-- Walking down from a folder touches nothing but the way. -/
theorem get?_of_makeRoute {here : Path} {names : List String}
    (h : t.makeRoute here (names.map .down) = (t', some q)) (hp : ¬ p <+: here ++ names) :
    t'.get? p = t.get? p := by
  induction names generalizing here t with
  | nil =>
    rw [List.map_nil, makeRoute] at h
    cases h
    rfl
  | cons name rest ih =>
    rw [List.append_cons] at hp
    have hne : p ≠ here ++ [name] := fun he => hp (he ▸ List.prefix_append _ _)
    rw [List.map_cons, makeRoute] at h
    split at h
    · cases h
    · exact ih h hp
    · split at h
      · cases h
      · rw [ih h hp, Table.get?_insert, if_neg hne]

/-- Making folders touches nothing but the way to them. -/
theorem get?_of_makeFolders (h : t.makeFolders? folder = some t') (hp : ¬ p <+: folder) :
    t'.get? p = t.get? p := by
  unfold makeFolders? at h
  split at h
  · next hroute =>
    cases h
    exact get?_of_makeRoute hroute hp
  · cases h

/-- What lies in a folder is not on the way to it. -/
theorem not_concat_prefix (folder : Path) (name : String) : ¬ folder ++ [name] <+: folder := by
  intro h
  have hlength := h.length_le
  rw [List.length_append, List.length_singleton] at hlength
  omega

/-! ### Sound trees -/

/-- Whatever stands in a tree lies in a folder, under a name that is short enough. -/
structure Sound (t : FileTree) : Prop where
  rooted : ∀ p name e, t.get? (p ++ [name]) = some e → t.isFolder p
  named : ∀ p name e, t.get? (p ++ [name]) = some e → name.utf8ByteSize ≤ nameLimit

/-- A tree is sound if each of its entries lies in a folder, under a name that is short enough. -/
theorem sound_of_entries (h : ∀ e ∈ t.entries, t.isFolder e.1.dropLast = true ∧
    ∀ name ∈ e.1.getLast?, name.utf8ByteSize ≤ nameLimit) : t.Sound where
  rooted p name e he := by
    have hfolder := (h _ (Table.mem_entries_iff (e := (p ++ [name], e)).2 he)).1
    rwa [List.dropLast_concat] at hfolder
  named p name e he :=
    (h _ (Table.mem_entries_iff (e := (p ++ [name], e)).2 he)).2 name List.getLast?_concat

namespace Sound

variable (h : t.Sound)

include h

/-- The folder that something lies in is there. -/
theorem isFolder_of_concat (hp : t.entry? (p ++ [name]) = some e) : t.isFolder p :=
  h.rooted p name e ((t.entry?_concat p name).symm.trans hp)

/-- The folders above a folder are there. -/
theorem isFolder_of_append (names : List String) (hp : t.isFolder (p ++ names)) : t.isFolder p := by
  induction names using List.reverseRecOn with
  | nil => rwa [List.append_nil] at hp
  | append_singleton names name ih =>
    rw [← List.append_assoc] at hp
    exact ih (h.isFolder_of_concat (isFolder_iff.1 hp))

theorem makeRoute_eq (here : Path) {names : List String} (hp : t.isFolder (here ++ names)) :
    t.makeRoute here (names.map .down) = (t, some (here ++ names)) := by
  induction names generalizing here with
  | nil => rw [List.append_nil, List.map_nil, makeRoute]
  | cons name rest ih =>
    rw [List.append_cons] at hp ⊢
    have hfolder := isFolder_iff.1 (h.isFolder_of_append rest hp)
    rw [List.map_cons, makeRoute, hfolder]
    exact ih _ hp

/-- Where there is a folder, nothing is made. -/
theorem makeFolders?_eq (hp : t.isFolder folder) : t.makeFolders? folder = some t := by
  rw [makeFolders?, h.makeRoute_eq [] hp]

end Sound

end FileTree

end Perdure
