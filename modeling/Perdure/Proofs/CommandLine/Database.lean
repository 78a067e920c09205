import Perdure.CommandLine.Database
import Perdure.Proofs.Deployment.Unit
import Perdure.Proofs.Files.Route
import Perdure.Proofs.Store.Basic

/-!
# What is relied on of a database

A store of which new states were saved is found with these states when its folder is opened again.
A database touches nothing but what is its own: the folders on the way are left, and so are the
units.

## Main definitions

* `Store.Restates` — a store with the records of another, but for their states.
* `Database.Lawful` — what is relied on of a database.
* `Database.kept` — a database that keeps one store beside the files.

## Main results

* `Database.Lawful.openPlace_saving` — a place is opened again with what was saved there.
-/

namespace Perdure

/-- A record without its state. -/
def Record.bare (r : Record) : Record := { r with state := none }

/-- A store with the records of another, but for their states. -/
def Store.Restates (s s' : Store) : Prop :=
  ∀ id, (s.get? id).map Record.bare = (s'.get? id).map Record.bare

/-- What is relied on of a database. -/
structure Database.Lawful {σ : Type} (db : Database σ) : Prop where
  /-- Where the states of a store were replaced after it was opened, the store is opened again with
  the new states, and nothing is changed then. -/
  reopens {place : String} {data : Path} {disk disk' : Disk σ} {s s' : Store}
    (h : db.opening place data disk = (disk', .ok s)) (hs : s'.Restates s) :
    db.opening place data (db.saving data s' disk') = (db.saving data s' disk', .ok s')
  /-- Opening a store takes no folder away. -/
  opening_reaches {place : String} {data p : Path} {disk disk' : Disk σ} {s : Store}
    (h : db.opening place data disk = (disk', .ok s)) (hp : disk.files.Reaches p) :
    disk'.files.Reaches p
  /-- Saving a store that was opened takes no folder away. -/
  saving_reaches {place : String} {data p : Path} {disk disk' : Disk σ} {s s' : Store}
    (h : db.opening place data disk = (disk', .ok s)) (hp : disk'.files.Reaches p) :
    (db.saving data s' disk').files.Reaches p
  /-- Saving a store leaves the units. -/
  spares (data : Path) (s : Store) (disk : Disk σ) :
    (db.saving data s disk).files.SameBelow disk.files (deployFolder data)

namespace Database

variable {σ : Type} {db : Database σ} {place : String} {data : Path} {disk disk' : Disk σ}
  {s s' : Store}

/-- What is done when a place is opened: its folder is made, and the store in it is opened. -/
theorem openPlace_eq_ok (h : openPlace db place disk = (disk', .ok (data, s))) :
    ∃ files, disk.files.makePlace place = (files, some data) ∧
      db.opening place data { disk with files } = (disk', .ok s) := by
  unfold openPlace at h
  split at h
  · cases h
  · next files found hmade =>
    rcases hopen : db.opening place found { disk with files } with ⟨left, e | s₁⟩
    · rw [hopen] at h
      cases h
    · rw [hopen] at h
      cases h
      exact ⟨files, hmade, hopen⟩

/-- A place that leads to a folder without a change is opened as the store of the folder is. -/
theorem openPlace_of_makePlace (hplace : disk.files.makePlace place = (disk.files, some data))
    (hopen : db.opening place data disk = (disk, .ok s)) :
    openPlace db place disk = (disk, .ok (data, s)) := by
  unfold openPlace
  rw [hplace]
  show ((db.opening place data disk).1, (db.opening place data disk).2.map (data, ·)) = _
  rw [hopen]
  rfl

/-- **A place is opened again with what was saved there**, and nothing is changed then. -/
theorem Lawful.openPlace_saving (hdb : db.Lawful)
    (h : openPlace db place disk = (disk', .ok (data, s))) (hs : s'.Restates s) :
    openPlace db place (db.saving data s' disk') = (db.saving data s' disk', .ok (data, s')) := by
  obtain ⟨files, hmade, hopen⟩ := openPlace_eq_ok h
  -- the folders on the way are left, so that the way leads to the same place
  have hagain : (db.saving data s' disk').files.makePlace place =
      ((db.saving data s' disk').files, some data) := by
    unfold FileTree.makePlace at hmade ⊢
    split at hmade
    · cases hmade
    · next hplace =>
      rw [if_neg hplace]
      exact FileTree.makeRoute_again disk.files.reaches_nil hmade fun p hp =>
        (hdb.saving_reaches hopen (hdb.opening_reaches hopen hp)).isFolder
  exact openPlace_of_makePlace hagain (hdb.reopens hopen hs)

/-- A database that keeps one store beside the files. -/
def kept : Database Store where
  opening _ _ disk := (disk, .ok disk.held)
  saving _ s disk := { disk with held := s }

theorem lawful_kept : kept.Lawful where
  reopens _ _ := rfl
  opening_reaches h hp := by
    cases h
    exact hp
  saving_reaches _ hp := hp
  spares _ _ _ := fun _ _ => rfl

end Database

end Perdure
