import Perdure.Json.Fields

/-!
# Remap tables

A deployment may rename the shapes of stored states.  A table maps old names to new ones; names are
followed through the table until one is not remapped, which a table with a loop never reaches.

## Main definitions

* `RemapTable` — old names and the names that replace them.
* `RemapTable.resolve` — the name at the end of a chain of replacements.
* `RemapTable.apply` — resolve every shape of a document.
-/

namespace Perdure

/-- Old names and the names that replace them. -/
abbrev RemapTable := Table String String

/-- A name whose replacements run in a circle. -/
structure UnresolvedShape where
  shape : String
deriving DecidableEq, Repr

namespace RemapTable

/-- Follow replacements, so many of them at most. -/
def follow (t : RemapTable) : (steps : Nat) → String → Option String
  | 0, _ => none
  | steps + 1, shape => match t.get? shape with
    | none => some shape
    | some next => t.follow steps next

/-- The name at the end of a chain of replacements.  A chain longer than the table repeats. -/
def resolve (t : RemapTable) (shape : String) : Except UnresolvedShape String :=
  match t.follow (t.size + 1) shape with
  | some name => .ok name
  | none => .error ⟨shape⟩

mutual

/-- Resolve every shape of a document; members are visited in their order. -/
def apply (t : RemapTable) : Json → Except UnresolvedShape Json
  | .arr items => do pure (.arr (← t.applyItems items))
  | .obj members => do pure (.obj (← t.applyMembers members))
  | v => .ok v

/-- Resolve the shapes of each item. -/
def applyItems (t : RemapTable) : List Json → Except UnresolvedShape (List Json)
  | [] => .ok []
  | v :: rest => do
    let v ← t.apply v
    pure (v :: (← t.applyItems rest))

/-- Resolve the shapes of each member.  A shape is a string under the key `shape`. -/
def applyMembers (t : RemapTable) :
    List (String × Json) → Except UnresolvedShape (List (String × Json))
  | [] => .ok []
  | (k, .str s) :: rest => do
    let s ← if k = "shape" then t.resolve s else pure s
    pure ((k, .str s) :: (← t.applyMembers rest))
  | (k, v) :: rest => do
    let v ← t.apply v
    pure ((k, v) :: (← t.applyMembers rest))

end

/-- The written form. -/
def toJson (t : RemapTable) : Json := .obj (t.entries.map fun e => (e.1, .str e.2))

/-- Read a table; of equal names the last one counts. -/
def ofJson? : Json → Option RemapTable
  | .obj members => do
    let entries ← members.mapM fun m => do pure (m.1, ← m.2.string?)
    pure (Table.ofList entries)
  | _ => none

end RemapTable

end Perdure
