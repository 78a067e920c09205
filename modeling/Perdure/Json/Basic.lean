import Perdure.Table

/-!
# JSON values

A value as the text gives it: members keep their order and may repeat, numbers keep their literal
unless they are natural numbers.  Text can be grammatical and still denote nothing (half of a
surrogate pair, a number beyond every double); such a part is `undenoted`, and only a reader that
skips it can accept the text around it.

## Main definitions

* `Json` — a value.
* `Json.depth`, `Json.sound` — nesting, and "every part denotes something".
* `Json.collapse` — the value as a finite map sees it: sorted members, the last of equal keys.
-/

namespace Perdure

/-- A JSON value as written. -/
inductive Json where
  | null
  | bool (b : Bool)
  /-- A number without sign, fraction or exponent. -/
  | nat (n : Nat)
  /-- Any other number, as its literal. -/
  | number (literal : String)
  | str (s : String)
  | arr (items : List Json)
  | obj (members : List (String × Json))
  /-- Grammatical text that denotes no value. -/
  | undenoted
deriving Inhabited, BEq, Repr

namespace Json

/-- How deep lists and objects may be nested. -/
def depthLimit : Nat := 127

mutual

/-- The nesting of lists and objects; a scalar has none. -/
def depth : Json → Nat
  | .arr items => depthOfItems items + 1
  | .obj members => depthOfMembers members + 1
  | _ => 0

/-- The deepest of several items. -/
def depthOfItems : List Json → Nat
  | [] => 0
  | v :: rest => max v.depth (depthOfItems rest)

/-- The deepest of several members. -/
def depthOfMembers : List (String × Json) → Nat
  | [] => 0
  | (_, v) :: rest => max v.depth (depthOfMembers rest)

end

mutual

/-- Does every part denote something? -/
def denotes : Json → Bool
  | .undenoted => false
  | .arr items => itemsDenote items
  | .obj members => membersDenote members
  | _ => true

/-- Does every item denote something? -/
def itemsDenote : List Json → Bool
  | [] => true
  | v :: rest => v.denotes && itemsDenote rest

/-- Does every member denote something? -/
def membersDenote : List (String × Json) → Bool
  | [] => true
  | (_, v) :: rest => v.denotes && membersDenote rest

end

/-- A value that a reader can take in below `above` enclosing lists and objects. -/
def sound (v : Json) (above : Nat) : Bool := v.denotes && v.depth + above ≤ depthLimit

/-- Put a member in key order, in exchange for one with the same key. -/
def placeMember (k : String) (v : Json) : List (String × Json) → List (String × Json) :=
  Table.place k v

mutual

/-- Objects as finite maps: members sorted, and the last of equal keys. -/
def collapse : Json → Json
  | .arr items => .arr (collapseItems items)
  | .obj members => .obj (collapseMembers [] members)
  | v => v

/-- Collapse every item. -/
def collapseItems : List Json → List Json
  | [] => []
  | v :: rest => v.collapse :: collapseItems rest

/-- Collapse members into those already placed. -/
def collapseMembers (placed : List (String × Json)) :
    List (String × Json) → List (String × Json)
  | [] => placed
  | (k, v) :: rest => collapseMembers (placeMember k v.collapse placed) rest

end

/-- The first member with the given key. -/
def member? (v : Json) (key : String) : Option Json :=
  match v with
  | .obj members => members.lookup key
  | _ => none

/-- The text of a string. -/
def string? : Json → Option String
  | .str s => some s
  | _ => none

/-- A natural number below a bound. -/
def natBelow? (bound : Nat) : Json → Option Nat
  | .nat n => if n < bound then some n else none
  | _ => none

/-- A natural number of 64 bits. -/
def word64? : Json → Option Nat := natBelow? UInt64.size

/-- A natural number of 32 bits. -/
def word32? : Json → Option Nat := natBelow? UInt32.size

/-- A truth value. -/
def bool? : Json → Option Bool
  | .bool b => some b
  | _ => none

/-- Items that all decode. -/
def list? {α : Type} (item : Json → Option α) : Json → Option (List α)
  | .arr items => items.mapM item
  | _ => none

/-- `null`, or a value that decodes. -/
def option? {α : Type} (value : Json → Option α) : Json → Option (Option α)
  | .null => some none
  | v => (value v).map some

/-- A value or `null`. -/
def ofOption {α : Type} (value : α → Json) : Option α → Json
  | none => .null
  | some a => value a

end Json

end Perdure
