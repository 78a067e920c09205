import Perdure.Json.Printer
import Perdure.Json.Reader
import Perdure.Store.Basic

/-!
# Archives

The bytes by which a store outlives the program: a signature, and the records in JSON, each beside
the hexadecimal digits of its state.

## Main definitions

* `Store.signature` — what an archive begins with.
* `Store.toBytes`, `Store.ofBytes?` — a store as bytes.
-/

namespace Perdure

/-- A record with its state. -/
def Record.archived (r : Record) : Json := Json.record
  [Json.field "record" r.toJson,
   Json.field "state" (Json.ofOption (fun bytes => .str (Text.hex bytes)) r.state)]

/-- Read a record with its state. -/
def Record.ofArchived? (v : Json) : Option Record := do
  match ← v.slots? ["record", "state"] with
  | [record, state] =>
    let r ← record.required Record.ofJson?
    let state ← state.optional fun v => do Text.ofHex? (← v.string?).toList
    pure { r with state }
  | _ => none

namespace Store

/-- What an archive begins with.  The first byte occurs in no text, so that no text is taken for an
archive. -/
def signature : List UInt8 := 0xFF :: "store 1\n".toUTF8.toList

/-- The bytes of a store. -/
def toBytes (s : Store) : List UInt8 :=
  signature ++ (Json.arr (s.toList.map Record.archived)).render.toUTF8.toList

/-- The store that bytes hold.  It is empty where they are too few to be anything: none, or one. -/
def ofBytes? (bytes : List UInt8) : Option Store :=
  if bytes.length ≤ 1 then some ∅
  else if !signature.isPrefixOf bytes then none
  else do
    let v ← (Json.readDocument (bytes.drop signature.length)).toOption
    let records ← v.list? Record.ofArchived?
    pure (records.foldl Store.insert ∅)

end Store

end Perdure
