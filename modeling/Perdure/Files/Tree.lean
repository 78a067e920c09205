import Perdure.Table

/-!
# File trees

Folders and files by their paths.  A path is the list of names from the top down; the top itself is
a folder that is always there.

## Main definitions

* `Path`, `Entry`, `FileTree` — the entries by their paths.
* `FileTree.children` — what a folder holds, in the order of names.
* `FileTree.read?`, `write`, `create`, `remove` — what is done with files.
-/

namespace Perdure

/-- The names from the top down. -/
abbrev Path := List String

namespace Path

/-- A path as text. -/
def text (p : Path) : String := String.intercalate "/" p

/-- How many bytes a path has, written from the top with a slash before each name. -/
def size (p : Path) : Nat := p.foldl (fun n name => n + name.utf8ByteSize + 1) 0

end Path

/-- What stands at a path. -/
inductive Entry where
  | folder
  | file (bytes : List UInt8)
deriving DecidableEq, Repr

/-- Folders and files by their paths. -/
abbrev FileTree := Table Path Entry

namespace FileTree

/-- What stands at a path. -/
def entry? (t : FileTree) (p : Path) : Option Entry :=
  if p.isEmpty then some .folder else t.get? p

/-- Is there a folder at the path? -/
def isFolder (t : FileTree) (p : Path) : Bool := t.entry? p = some .folder

/-- The bytes of the file at a path. -/
def read? (t : FileTree) (p : Path) : Option (List UInt8) :=
  match t.entry? p with
  | some (.file bytes) => some bytes
  | _ => none

/-- Is there a file at the path? -/
def isFile (t : FileTree) (p : Path) : Bool := (t.read? p).isSome

/-- The name of a path that lies directly in a folder. -/
def nameIn? (folder : Path) (p : Path) : Option String :=
  match p.drop folder.length with
  | [name] => if p.take folder.length = folder then some name else none
  | _ => none

/-- What a folder holds, in the order of names. -/
def children (t : FileTree) (folder : Path) : List (String × Entry) :=
  t.entries.filterMap fun e => (nameIn? folder e.1).map (·, e.2)

/-- How many bytes a name may have. -/
def nameLimit : Nat := 255

/-- Write a file in a folder that is there. -/
def write (t : FileTree) (p : Path) (bytes : List UInt8) : FileTree := t.insert p (.file bytes)

/-- Remove what stands at a path, and all below it. -/
def remove (t : FileTree) (p : Path) : FileTree := t.filter fun e => !p.isPrefixOf e.1

/-- What came of the wish for a new file. -/
inductive Creation where
  | created (t : FileTree)
  /-- Something stands there already. -/
  | present
  /-- The name is too long. -/
  | refused

/-- Create an empty file, unless something stands there already. -/
def create (t : FileTree) (folder : Path) (name : String) : Creation :=
  if nameLimit < name.utf8ByteSize then .refused
  else match t.entry? (folder ++ [name]) with
    | some _ => .present
    | none => .created (t.write (folder ++ [name]) [])

end FileTree

end Perdure
