import Perdure.CommandLine.DataFolder
import Perdure.Proofs.CommandLine.Database
import Perdure.Proofs.Store.Archive

/-!
# The store in its file

A folder whose store was opened is opened again as it was left: with the store that was saved in it
last, and without a change of any file.  So the database that keeps the store in a file does what is
relied on of a database.

## Main definitions

* `Clear` — a side file holds nothing.
* `Opened` — a folder as it is after its store was opened.

## Main results

* `opened_of_openStore`, `Opened.openStore_eq` — opening a store comes to a folder that it leaves as
  it is.
* `Opened.saveStore` — the store that is saved in an opened folder is found there.
* `Database.lawful_archive` — the database with one file can be relied on.
-/

namespace Perdure

/-- There is no file at a path, or one that holds nothing. -/
def Clear (t : FileTree) (p : Path) : Prop := t.get? p = none ∨ t.get? p = some (.file [])

/-- A folder with a file of a store, and with nothing in its side files. -/
structure Opened (data : Path) (t : FileTree) (s : Store) : Prop where
  folder : t.isFolder data = true
  file : t.get? (storeFile data) = some (.file s.toBytes)
  short : (storeFile data).size ≤ storePathLimit
  valid : s.Valid
  clear : ∀ p ∈ sideFiles data, Clear t p

section

variable {data p q : Path} {t t' : FileTree} {s s' : Store} {name other : String}

/-! ### Paths in the folder -/

/-- What lies in a folder under one name is not below what lies there under another. -/
theorem not_concat_prefix_concat (hne : name ≠ other) : ¬ data ++ [name] <+: data ++ [other] := by
  rw [List.prefix_append_right_inj]
  intro h
  exact hne (List.cons.inj (h.eq_of_length rfl)).1

theorem concat_ne_concat (hne : name ≠ other) : data ++ [name] ≠ data ++ [other] := fun he =>
  hne (List.cons.inj (List.append_cancel_left he)).1

theorem ne_storeFile (data : Path) : data ≠ storeFile data :=
  ne_of_apply_ne List.length (by simp [storeFile])

/-- What lies in a folder is no folder if it is a file or nothing. -/
theorem FileTree.isFolder_concat_eq_false (h : t.get? (data ++ [name]) ≠ some .folder) :
    t.isFolder (data ++ [name]) = false := by
  rw [← Bool.not_eq_true, isFolder_iff, entry?_concat]
  exact h

theorem isFolder_storeFile_eq_false {bytes : List UInt8}
    (h : t.get? (storeFile data) = some (.file bytes)) : t.isFolder (storeFile data) = false := by
  refine FileTree.isFolder_concat_eq_false ?_
  rw [← storeFile, h]
  exact nofun

theorem FileTree.isFolder_congr (h : t'.get? p = t.get? p) : t'.isFolder p = t.isFolder p := by
  unfold isFolder entry?
  rw [h]

theorem FileTree.read?_concat (t : FileTree) (data : Path) (name : String) :
    t.read? (data ++ [name]) = (t.get? (data ++ [name])).bind fun
      | .file bytes => some bytes
      | .folder => none := by
  rw [read?, entry?_concat]
  rcases t.get? (data ++ [name]) with _ | _ | bytes <;> rfl

/-- A file that is written as it stands there leaves the tree as it is. -/
theorem FileTree.write_self {bytes : List UInt8} (h : t.get? p = some (.file bytes)) :
    t.write p bytes = t := by
  refine Table.eq_of_get? fun q => ?_
  rw [get?_write]
  split
  · next he => rw [he, h]
  · rfl

/-! ### Notes -/

/-- A path with nothing in it is no folder. -/
theorem Clear.isFolder_eq_false (h : Clear t (data ++ [name])) :
    t.isFolder (data ++ [name]) = false := by
  refine FileTree.isFolder_concat_eq_false fun he => ?_
  rcases h with h | h <;> rw [h] at he <;> cases he

/-- Where there is nothing, nothing is dropped. -/
theorem Clear.dropNotes_eq (h : Clear t (data ++ [name])) : dropNotes t (data ++ [name]) = t := by
  unfold dropNotes
  rw [FileTree.read?_concat, if_pos]
  rcases h with h | h <;> rw [h] <;> rfl

/-- Removing leaves nothing where there is nothing. -/
theorem Clear.remove (h : Clear t p) (q : Path) : Clear (t.remove q) p := by
  unfold Clear
  rw [FileTree.get?_remove]
  split
  · exact .inl rfl
  · exact h

theorem Clear.dropNotes (h : Clear t p) (q : Path) : Clear (dropNotes t q) p := by
  unfold Perdure.dropNotes
  split
  · exact h
  · exact h.remove q

/-- What a side file holds is dropped. -/
theorem clear_dropNotes (h : t.isFolder (data ++ [name]) = false) :
    Clear (dropNotes t (data ++ [name])) (data ++ [name]) := by
  unfold dropNotes
  split
  · next hempty =>
    rw [FileTree.read?_concat] at hempty
    rcases he : t.get? (data ++ [name]) with _ | _ | bytes
    · exact .inl he
    · rw [FileTree.isFolder, FileTree.entry?_concat, he] at h
      cases h
    · rw [he] at hempty
      have hnil : bytes = [] := List.isEmpty_iff.1 hempty
      exact .inr (hnil ▸ he)
  · exact .inl (by rw [FileTree.get?_remove, if_pos (List.prefix_refl _)])

/-- Dropping notes leaves what is not below them. -/
theorem get?_dropNotes (h : ¬ p <+: q) : (dropNotes t p).get? q = t.get? q := by
  unfold dropNotes
  split
  · rfl
  · rw [FileTree.get?_remove, if_neg h]

theorem FileTree.Reaches.dropNotes (h : t.Reaches q) (hp : t.isFolder p = false) :
    (dropNotes t p).Reaches q := by
  unfold Perdure.dropNotes
  split
  · exact h
  · exact h.remove hp

/-! ### Saving -/

/-- A saved store stands in its file. -/
theorem get?_saveStore_self (data : Path) (s : Store) (t : FileTree) :
    (saveStore data s t).get? (storeFile data) = some (.file s.toBytes) := by
  unfold saveStore
  split
  · next h =>
    rw [storeFile, FileTree.read?_concat] at h
    obtain ⟨e, he, hbytes⟩ := Option.bind_eq_some_iff.1 h
    cases e with
    | folder => cases hbytes
    | file bytes =>
      cases hbytes
      exact he
  · rw [FileTree.get?_write, if_pos rfl]

/-- Saving touches nothing but the file and the journal. -/
theorem get?_saveStore (hfile : q ≠ storeFile data) (hjournal : ¬ journalFile data <+: q) :
    (saveStore data s t).get? q = t.get? q := by
  unfold saveStore
  split
  · rfl
  · rw [FileTree.get?_write, if_neg hfile, FileTree.get?_remove, if_neg hjournal]

theorem Clear.saveStore (h : Clear t p) (hne : p ≠ storeFile data) :
    Clear (saveStore data s t) p := by
  unfold Perdure.saveStore
  split
  · exact h
  · unfold Clear
    rw [FileTree.get?_write, if_neg hne]
    exact h.remove _

theorem FileTree.Reaches.saveStore (h : t.Reaches q) (hfile : t.isFolder (storeFile data) = false)
    (hjournal : t.isFolder (journalFile data) = false) : (saveStore data s t).Reaches q := by
  unfold Perdure.saveStore
  split
  · exact h
  · refine (h.remove hjournal).write ?_ _
    rw [← Bool.not_eq_true] at hfile ⊢
    exact fun hfolder => hfile (isFolder_of_remove hfolder)

/-! ### Opened folders -/

theorem forall_sideFiles {P : Path → Prop} : (∀ p ∈ sideFiles data, P p) ↔
    P (journalFile data) ∧ P (data ++ ["tidewater.db-wal"]) := by
  simp [sideFiles]

/-- Opening a store of an opened folder changes nothing. -/
theorem Opened.openStore_eq (h : Opened data t s) : openStore data t = (t, .ok s) := by
  obtain ⟨hjournal, hwal⟩ := forall_sideFiles.1 h.clear
  have hread : t.read? (storeFile data) = some s.toBytes := by
    rw [storeFile, FileTree.read?_concat, ← storeFile, h.file]
    rfl
  have hfile := isFolder_storeFile_eq_false h.file
  have hside : (sideFiles data).any t.isFolder = false := by
    simp [sideFiles, journalFile, Clear.isFolder_eq_false hjournal, hwal.isFolder_eq_false]
  have hdropped : (sideFiles data).foldl dropNotes t = t := by
    show dropNotes (dropNotes t (journalFile data)) _ = t
    rw [journalFile, Clear.dropNotes_eq hjournal, hwal.dropNotes_eq]
  unfold openStore
  rw [h.folder, hfile, hread]
  simp only [Bool.not_true, Bool.false_or, decide_eq_true_eq, Nat.not_lt.2 h.short, if_false,
    Option.getD_some, FileTree.write_self h.file, Store.ofBytes?_toBytes h.valid, hside, hdropped,
    Bool.false_eq_true, saveStore, hread, if_true]

/-- What is saved in an opened folder is found there. -/
theorem Opened.saveStore (h : Opened data t s) (hs : s'.Valid) :
    Opened data (saveStore data s' t) s' := by
  obtain ⟨hjournal, hwal⟩ := forall_sideFiles.1 h.clear
  refine { folder := ?_, file := get?_saveStore_self data s' t, short := h.short, valid := hs,
           clear := forall_sideFiles.2 ⟨hjournal.saveStore ?_, hwal.saveStore ?_⟩ }
  · rw [FileTree.isFolder_congr (get?_saveStore (ne_storeFile data)
      (FileTree.not_concat_prefix data _))]
    exact h.folder
  · exact concat_ne_concat (by decide)
  · exact concat_ne_concat (by decide)

/-- What is done when a store is opened: its file is written, notes are dropped, and the store is
saved again. -/
theorem openStore_eq_ok (h : openStore data t = (t', .ok s)) :
    t.isFolder data = true ∧ t.isFolder (storeFile data) = false ∧
    (storeFile data).size ≤ storePathLimit ∧ ∃ bytes, Store.ofBytes? bytes = some s ∧
      (∀ p ∈ sideFiles data, (t.write (storeFile data) bytes).isFolder p = false) ∧
      t' = Perdure.saveStore data s ((sideFiles data).foldl dropNotes
        (t.write (storeFile data) bytes)) := by
  unfold openStore at h
  split at h
  · cases h
  · next hthere =>
    simp only [Bool.or_eq_true, Bool.not_eq_true', decide_eq_true_eq, not_or, Bool.not_eq_false,
      Nat.not_lt, Bool.not_eq_true] at hthere
    obtain ⟨⟨hfolder, hfile⟩, hshort⟩ := hthere
    dsimp only at h
    split at h
    · cases h
    · next found hfound =>
      split at h
      · cases h
      · next hside =>
        cases h
        refine ⟨hfolder, hfile, hshort, _, hfound, fun p hp => ?_, rfl⟩
        rw [← Bool.not_eq_true]
        exact fun hp' => hside (List.any_eq_true.2 ⟨p, hp, hp'⟩)

/-- Once notes are dropped, the side files hold nothing, and every folder is found that was found on
its way, and all that does not lie below a side file. -/
theorem clear_foldl_dropNotes (hside : ∀ p ∈ sideFiles data, t.isFolder p = false) :
    (∀ p ∈ sideFiles data, Clear ((sideFiles data).foldl dropNotes t) p) ∧
    (∀ q, t.Reaches q → ((sideFiles data).foldl dropNotes t).Reaches q) ∧
    ∀ q, (∀ p ∈ sideFiles data, ¬ p <+: q) →
      ((sideFiles data).foldl dropNotes t).get? q = t.get? q := by
  obtain ⟨hjournal, hwal⟩ := forall_sideFiles.1 hside
  have hkept : ¬ journalFile data <+: data ++ ["tidewater.db-wal"] :=
    not_concat_prefix_concat (by decide)
  have hwal' : (dropNotes t (journalFile data)).isFolder (data ++ ["tidewater.db-wal"]) = false :=
    (FileTree.isFolder_congr (get?_dropNotes hkept)).trans hwal
  refine ⟨forall_sideFiles.2 ⟨?_, ?_⟩, fun q hq => ?_, fun q hq => ?_⟩
  · exact (clear_dropNotes hjournal).dropNotes _
  · exact clear_dropNotes hwal'
  · exact (hq.dropNotes hjournal).dropNotes hwal'
  · obtain ⟨hj, hw⟩ := forall_sideFiles.1 hq
    exact (get?_dropNotes hw).trans (get?_dropNotes hj)

/-- What the opening of a store leaves behind: an opened folder, and every folder that was found on
its way. -/
theorem opened_of_openStore (h : openStore data t = (t', .ok s)) :
    Opened data t' s ∧ ∀ p, t.Reaches p → t'.Reaches p := by
  obtain ⟨hfolder, hfile, hshort, bytes, hs, hside, rfl⟩ := openStore_eq_ok h
  obtain ⟨hclear, hreaches, hget⟩ := clear_foldl_dropNotes hside
  obtain ⟨hjournal, hwal⟩ := forall_sideFiles.1 hclear
  have hdata := hget data (forall_sideFiles.2
    ⟨FileTree.not_concat_prefix data _, FileTree.not_concat_prefix data _⟩)
  have hfile' := hget (storeFile data) (forall_sideFiles.2
    ⟨not_concat_prefix_concat (by decide), not_concat_prefix_concat (by decide)⟩)
  rw [FileTree.get?_write, if_neg (ne_storeFile data)] at hdata
  rw [FileTree.get?_write, if_pos rfl] at hfile'
  refine ⟨{ folder := ?_, file := get?_saveStore_self data s _, short := hshort,
            valid := Store.valid_of_ofBytes? hs, clear := forall_sideFiles.2 ⟨?_, ?_⟩ },
    fun p hp => ?_⟩
  · rw [FileTree.isFolder_congr
      (get?_saveStore (ne_storeFile data) (FileTree.not_concat_prefix data _)),
      FileTree.isFolder_congr hdata]
    exact hfolder
  · exact hjournal.saveStore (concat_ne_concat (by decide))
  · exact hwal.saveStore (concat_ne_concat (by decide))
  · refine (hreaches p (hp.write hfile bytes)).saveStore ?_ (Clear.isFolder_eq_false hjournal)
    exact isFolder_storeFile_eq_false hfile'

/-! ### What is relied on -/

/-- Saving a store leaves the folder of the units. -/
theorem sameBelow_saveStore (data : Path) (s : Store) (t : FileTree) :
    (saveStore data s t).SameBelow t (deployFolder data) := by
  intro p hp
  -- what lies below one name in the folder does not lie below another
  have happart (name : String) (hne : "deploy" ≠ name) : ¬ data ++ [name] <+: p := fun hname =>
    not_concat_prefix_concat hne
      (List.prefix_of_prefix_length_le hp hname (by simp))
  refine get?_saveStore (fun he => ?_) (happart "tidewater.db-journal" (by decide))
  exact happart "tidewater.db" (by decide) (he ▸ List.prefix_refl _)

/-- The times of records do not depend on their states. -/
theorem Store.Restates.valid (h : s'.Restates s) (hs : s.Valid) : s'.Valid := by
  intro id r hr
  have hbare := h id
  rw [hr] at hbare
  obtain ⟨q, hq, hsame⟩ := Option.map_eq_some_iff.1 hbare.symm
  have hvalid := hs id q hq
  have hcreated := congrArg Record.createdAt hsame
  have hcompleted := congrArg Record.completedAt hsame
  dsimp only [Record.bare] at hcreated hcompleted
  exact ⟨hcreated ▸ hvalid.created, hcompleted ▸ hvalid.completed⟩

namespace Database

variable {place : String} {disk disk' : Disk Unit}

/-- What is done when the store of a folder is opened. -/
theorem opening_archive_eq_ok (h : archive.opening place data disk = (disk', .ok s)) :
    (Route.ofText place).reach [] ≤ storeReachLimit ∧
      openStore data disk.files = (disk'.files, .ok s) := by
  unfold archive at h
  dsimp only at h
  split at h
  · cases h
  · next hreach =>
    rcases hopen : openStore data disk.files with ⟨files, opened⟩
    rw [hopen] at h
    cases h
    exact ⟨Nat.not_lt.1 hreach, rfl⟩

/-- **The database that keeps the store of a folder in one file can be relied on.** -/
theorem lawful_archive : archive.Lawful where
  reopens {place data disk disk' s s'} h hs := by
    obtain ⟨hreach, hopen⟩ := opening_archive_eq_ok h
    have hopened := (opened_of_openStore hopen).1
    unfold archive
    dsimp only
    rw [if_neg (Nat.not_lt.2 hreach), (hopened.saveStore (hs.valid hopened.valid)).openStore_eq]
  opening_reaches h hp := (opened_of_openStore (opening_archive_eq_ok h).2).2 _ hp
  saving_reaches h hp := by
    have hopened := (opened_of_openStore (opening_archive_eq_ok h).2).1
    exact hp.saveStore (isFolder_storeFile_eq_false hopened.file)
      (Clear.isFolder_eq_false (forall_sideFiles.1 hopened.clear).1)
  spares data s disk := sameBelow_saveStore data s disk.files

end Database

end

end Perdure
