import Perdure.Json.Basic

/-!
# Records in JSON

A record is read from an object by the names of its fields, unknown names being passed over, or
from a list by their order.  A known name may not repeat.  A variant names its case under a tag;
its fields stand beside the tag, or follow it when the variant is a list.

## Main definitions

* `Json.Slot` — what the text gives for one field.
* `Json.slots?` — the slots of a record.
* `Json.tagged?` — the tag of a variant, and the value that holds its fields.
-/

namespace Perdure

namespace Json

/-- What the text gives for one field of a record. -/
inductive Slot where
  | given (v : Json)
  /-- The object lacks the name. -/
  | absent
  /-- The list is too short. -/
  | beyond
deriving Repr

namespace Slot

/-- A field that must be there. -/
def required {α : Type} (decode : Json → Option α) : Slot → Option α
  | .given v => decode v
  | _ => none

/-- A field that an object may lack and that may be `null`. -/
def optional {α : Type} (decode : Json → Option α) : Slot → Option (Option α)
  | .given v => v.option? decode
  | .absent => some none
  | .beyond => none

/-- A field with a value to fall back on. -/
def withDefault {α : Type} (fallback : α) (decode : Json → Option α) : Slot → Option α
  | .given v => decode v
  | _ => some fallback

end Slot

/-- The value of the one member with this name; `none` if the name repeats. -/
def slotNamed? (members : List (String × Json)) (name : String) : Option Slot :=
  match members.filter (·.1 == name) with
  | [] => some .absent
  | [(_, v)] => some (.given v)
  | _ => none

/-- The items of a list as the slots of so many fields. -/
def slotsInOrder? : (count : Nat) → List Json → Option (List Slot)
  | 0, [] => some []
  | 0, _ :: _ => none
  | n + 1, [] => (slotsInOrder? n []).map (.beyond :: ·)
  | n + 1, v :: rest => (slotsInOrder? n rest).map (.given v :: ·)

/-- The slots of a record with the given field names. -/
def slots? (names : List String) : Json → Option (List Slot)
  | .obj members => names.mapM (slotNamed? members)
  | .arr items => slotsInOrder? names.length items
  | _ => none

/-- The tag of a variant and the value that holds its fields. -/
def tagged? (tag : String) : Json → Option (String × Json)
  | .obj members => match slotNamed? members tag with
    | some (.given (.str case)) => some (case, .obj (members.filter (·.1 != tag)))
    | _ => none
  | .arr (.str case :: rest) => some (case, .arr rest)
  | _ => none

/-- The fields of a written record that are not left out. -/
def record (fields : List (Option (String × Json))) : Json := .obj (fields.filterMap id)

/-- A field that is always written. -/
def field (name : String) (v : Json) : Option (String × Json) := some (name, v)

/-- A field that is left out when there is nothing to write. -/
def fieldIf (name : String) (written : Bool) (v : Json) : Option (String × Json) :=
  if written then some (name, v) else none

/-- A field that is left out when it is `none`. -/
def fieldOf {α : Type} (name : String) (value : α → Json) : Option α → Option (String × Json)
  | none => none
  | some a => some (name, value a)

end Json

end Perdure
