import Perdure.Files.Tree

/-!
# Routes

A written path says how to walk from the top: a name leads down, two dots lead up, a single dot
stays.  A route is walked against a tree and not shortened beforehand, because two dots can only
leave a folder that is there: what is missing is made on the way, and no file is walked through.

## Main definitions

* `Route`, `Route.ofText` — a written path as its steps.
* `Route.target`, `Route.reach` — where a route leads, and the longest path on the way.
* `FileTree.makeRoute` — walk a route and make the folders that are missing.
* `FileTree.makeFolders?`, `FileTree.makePlace` — the same for a path and for a text.
-/

namespace Perdure

/-- One step of a written path. -/
inductive Route.Step where
  | stay
  | up
  | down (name : String)
deriving DecidableEq, Repr

/-- The steps of a written path. -/
abbrev Route := List Route.Step

namespace Route

/-- The step that a name between two slashes stands for. -/
def Step.ofName (name : List Char) : Step :=
  if name = ['.'] then .stay
  else if name = ['.', '.'] then .up
  else .down (String.ofList name)

/-- The route that a text describes; nothing between two slashes is no step. -/
def ofText (s : String) : Route :=
  ((s.toList.splitOn '/').filter fun name => !name.isEmpty).map Step.ofName

/-- Is there nothing left but to stay? -/
def isStill (r : Route) : Bool := !r.isEmpty && r.all (· = .stay)

/-- Where a step leads. -/
def Step.next (here : Path) : Step → Path
  | .stay => here
  | .up => here.dropLast
  | .down name => here ++ [name]

/-- Where a route leads from the top. -/
def target (r : Route) : Path := r.foldl Step.next []

/-- How many bytes the longest path has that a route comes through. -/
def reach (here : Path) : Route → Nat
  | [] => here.size
  | step :: rest => max here.size (reach (step.next here) rest)

end Route

namespace FileTree

/-- Walk a route from a folder that is there, and make the folders that are missing: the tree as far
as it came, and the folder at the end.  A file is in the way, a name must not be too long, and a dot
at the end asks for a folder that is there already. -/
def makeRoute (here : Path) : Route → FileTree → FileTree × Option Path
  | [], t => (t, some here)
  | .stay :: rest, t => makeRoute here rest t
  | .up :: rest, t => makeRoute here.dropLast rest t
  | .down name :: rest, t =>
    let p := here ++ [name]
    match t.entry? p with
    | some (.file _) => (t, none)
    | some .folder => makeRoute p rest t
    | none =>
      if nameLimit < name.utf8ByteSize || Route.isStill rest then (t, none)
      else makeRoute p rest (t.insert p .folder)

/-- Make a folder and the folders it lies in. -/
def makeFolders? (t : FileTree) (p : Path) : Option FileTree :=
  match t.makeRoute [] (p.map .down) with
  | (t, some _) => some t
  | (_, none) => none

/-- How many bytes a written path may have. -/
def placeLimit : Nat := 4095

/-- Make the folder that a text leads to: the tree as far as it came, and the folder. -/
def makePlace (t : FileTree) (text : String) : FileTree × Option Path :=
  if placeLimit < text.utf8ByteSize then (t, none) else t.makeRoute [] (Route.ofText text)

end FileTree

end Perdure
