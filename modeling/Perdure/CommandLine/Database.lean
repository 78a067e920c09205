import Perdure.Files.Route
import Perdure.Store.Basic

/-!
# Databases

The store of a data folder is kept by a database, which is the work of others.  All that a command
asks of it is to open the store of a folder, and to save what became of the store.  What it holds to
that end may lie in files or elsewhere.

## Main definitions

* `Disk` — files, and what databases hold beside them.
* `Database` — how the store of a folder is opened and saved.
* `openPlace` — make the folder that a text leads to, and open its store.
* `deployFolder` — the folder of the units.
-/

namespace Perdure

/-- Files, and what databases hold beside them. -/
structure Disk (σ : Type) where
  files : FileTree
  held : σ

/-- Why a store cannot be opened. -/
inductive OpenError where
  /-- There is no way to the file. -/
  | unreachable
  /-- What stands there is no store. -/
  | unreadable
deriving DecidableEq, Repr

/-- How the store of a folder is opened and saved. -/
structure Database (σ : Type) where
  /-- Open the store of a folder that is there, and that was asked for by a text: the disk
  afterwards, and the store. -/
  opening : String → Path → Disk σ → Disk σ × Except OpenError Store
  /-- Save what became of the store of a folder. -/
  saving : Path → Store → Disk σ → Disk σ

/-- Make the folder that a text leads to and open its store: the disk afterwards, and the folder with
its store. -/
def openPlace {σ : Type} (db : Database σ) (place : String) (disk : Disk σ) :
    Disk σ × Except OpenError (Path × Store) :=
  match disk.files.makePlace place with
  | (files, none) => ({ disk with files }, .error .unreachable)
  | (files, some data) =>
    let (disk, opened) := db.opening place data { disk with files }
    (disk, opened.map (data, ·))

/-- The folder of the units. -/
def deployFolder (data : Path) : Path := data ++ ["deploy"]

end Perdure
