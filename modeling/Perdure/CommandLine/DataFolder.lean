import Perdure.CommandLine.Database
import Perdure.Store.Archive

/-!
# A database in one file

The database that the program comes with keeps the store of a folder in one file, as an archive.

Beside the file of the store there is room for two side files, in which a change is noted before it
is made; what one of them holds from a change that broke off is dropped, but a folder in its place
makes the store unusable.

## Main definitions

* `storeFile`, `sideFiles` — what lies in the folder.
* `openStore`, `saveStore` — the store of a folder that is there.
* `Database.archive` — the database.
-/

namespace Perdure

/-- The file of the store. -/
def storeFile (data : Path) : Path := data ++ ["tidewater.db"]

/-- The side file through which a change goes. -/
def journalFile (data : Path) : Path := data ++ ["tidewater.db-journal"]

/-- The side files of the store. -/
def sideFiles (data : Path) : List Path := [journalFile data, data ++ ["tidewater.db-wal"]]

/-- How many bytes the path of a store may have. -/
def storePathLimit : Nat := 504

/-- How many bytes a path on the way to a store may have. -/
def storeReachLimit : Nat := 511

/-- Write a store, unless it stands there already.  After a change its journal is gone. -/
def saveStore (data : Path) (s : Store) (t : FileTree) : FileTree :=
  if t.read? (storeFile data) = some s.toBytes then t
  else (t.remove (journalFile data)).write (storeFile data) s.toBytes

/-- Drop what a side file holds. -/
def dropNotes (t : FileTree) (p : Path) : FileTree :=
  if ((t.read? p).getD []).isEmpty then t else t.remove p

/-- Open the store of a folder, which must be there: the files afterwards, and the store.  Its file
is made if it is missing, even where the store cannot be used in the end. -/
def openStore (data : Path) (t : FileTree) : FileTree × Except OpenError Store :=
  if !t.isFolder data || t.isFolder (storeFile data) || storePathLimit < (storeFile data).size then
    (t, .error .unreachable)
  else
    let bytes := (t.read? (storeFile data)).getD []
    let t := t.write (storeFile data) bytes
    match Store.ofBytes? bytes with
    | none => (t, .error .unreadable)
    | some s =>
      if (sideFiles data).any t.isFolder then (t, .error .unreadable)
      else (saveStore data s ((sideFiles data).foldl dropNotes t), .ok s)

/-- A database that keeps the store of a folder in one file. -/
def Database.archive : Database Unit where
  opening place data disk :=
    if storeReachLimit < (Route.ofText place).reach [] then (disk, .error .unreachable)
    else
      let (files, opened) := openStore data disk.files
      ({ disk with files }, opened)
  saving data s disk := { disk with files := saveStore data s disk.files }

end Perdure
