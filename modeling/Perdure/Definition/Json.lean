import Perdure.Definition.Process
import Perdure.Json.Fields
import Perdure.Json.Printer
import Perdure.Json.Reader

/-!
# Definitions as JSON

The written form of definitions and their parts, and its readers.  An activity is always an
object: the fields of its kind stand beside its own.

## Main definitions

* `Definition.toJson`, `Definition.ofJson?` — the written form and its reader.
* `Definition.ofText` — a definition from text, validated.
-/

namespace Perdure

open Json (Slot)

/-! ### Parts -/

/-- A reference to an activity. -/
def ActivityId.ofJson? (v : Json) : Option ActivityId := v.word32?

namespace Deadline

/-- The written form: an object whose one name tells the kind. -/
def toJson : Deadline → Json
  | .delay duration => .obj [("for", .str duration)]
  | .instant timestamp => .obj [("until", .str timestamp)]

/-- Read a deadline. -/
def ofJson? : Json → Option Deadline
  | .obj [("for", .str duration)] => some (.delay duration)
  | .obj [("until", .str timestamp)] => some (.instant timestamp)
  | _ => none

end Deadline

namespace Alarm

/-- The written form; expressions that are not given are left out. -/
def toJson (a : Alarm) : Json := Json.record
  [Json.fieldOf "for" .str a.delay, Json.fieldOf "until" .str a.instant,
   Json.fieldOf "repeat" .str a.repetition, Json.field "activity" (.nat a.activity)]

/-- Read an alarm. -/
def ofJson? (v : Json) : Option Alarm := do
  match ← v.slots? ["for", "until", "repeat", "activity"] with
  | [delay, instant, repetition, activity] =>
    pure { delay := ← delay.withDefault none (Json.option? Json.string?)
           instant := ← instant.withDefault none (Json.option? Json.string?)
           repetition := ← repetition.withDefault none (Json.option? Json.string?)
           activity := ← activity.required ActivityId.ofJson? }
  | _ => none

end Alarm

namespace Agent

/-- A set of names. -/
def namesJson (names : KeySet String) : Json := .arr (names.keys.map .str)

/-- The written form; empty sets are left out. -/
def toJson (a : Agent) : Json := Json.record
  [Json.fieldIf "incoming_links" (!a.incomingLinks.isEmpty) (namesJson a.incomingLinks),
   Json.fieldIf "outgoing_links" (!a.outgoingLinks.isEmpty) (namesJson a.outgoingLinks),
   Json.fieldIf "variables_read" (!a.variablesRead.isEmpty) (namesJson a.variablesRead),
   Json.fieldIf "variables_written" (!a.variablesWritten.isEmpty) (namesJson a.variablesWritten),
   Json.fieldIf "nested" (!a.nested.isEmpty) (.arr (a.nested.keys.map .nat))]

/-- Read a set of names. -/
def names? (v : Json) : Option (KeySet String) := (v.list? Json.string?).map .ofMembers

/-- Read an agent. -/
def ofJson? (v : Json) : Option Agent := do
  match ← v.slots? ["incoming_links", "outgoing_links", "variables_read", "variables_written",
      "nested"] with
  | [incoming, outgoing, read, written, nested] =>
    pure { incomingLinks := ← incoming.withDefault ∅ names?
           outgoingLinks := ← outgoing.withDefault ∅ names?
           variablesRead := ← read.withDefault ∅ names?
           variablesWritten := ← written.withDefault ∅ names?
           nested := ← nested.withDefault ∅ fun v =>
             (v.list? ActivityId.ofJson?).map .ofMembers }
  | _ => none

end Agent

/-! ### Activities -/

namespace ActivityKind

/-- The names of the kinds, in the order by which a kind may also be numbered. -/
def names : List String := ["empty", "throw", "wait", "sequence", "scope"]

/-- The written fields: the name of the kind, then what it holds. -/
def fields : ActivityKind → List (Option (String × Json))
  | .empty => [Json.field "type" (.str "empty")]
  | .throw fault => [Json.field "type" (.str "throw"), Json.field "fault" (.str fault)]
  | .wait deadline => [Json.field "type" (.str "wait"), Json.field "deadline" deadline.toJson]
  | .sequence children =>
    [Json.field "type" (.str "sequence"), Json.field "children" (.arr (children.map .nat))]
  | .scope body alarms compensation =>
    [Json.field "type" (.str "scope"), Json.field "body" (.nat body),
     Json.fieldIf "alarms" (!alarms.isEmpty) (.arr (alarms.map Alarm.toJson)),
     Json.fieldOf "compensation" .nat compensation]

/-- Read the fields of a kind. -/
def ofFields? (name : String) (v : Json) : Option ActivityKind :=
  match name with
  | "empty" => do
    let _ ← v.slots? []
    pure .empty
  | "throw" => do
    match ← v.slots? ["fault"] with
    | [fault] => pure (.throw (← fault.required Json.string?))
    | _ => none
  | "wait" => do
    match ← v.slots? ["deadline"] with
    | [deadline] => pure (.wait (← deadline.required Deadline.ofJson?))
    | _ => none
  | "sequence" => do
    match ← v.slots? ["children"] with
    | [children] => pure (.sequence (← children.required (Json.list? ActivityId.ofJson?)))
    | _ => none
  | "scope" => do
    match ← v.slots? ["body", "alarms", "compensation"] with
    | [body, alarms, compensation] =>
      pure (.scope (← body.required ActivityId.ofJson?)
        (← alarms.withDefault [] (Json.list? Alarm.ofJson?))
        (← compensation.withDefault none (Json.option? ActivityId.ofJson?)))
    | _ => none
  | _ => none

/-- Replace the number of a kind by its name. -/
def nameNumbered : String × Json → String × Json
  | ("type", .nat n) => match names[n]? with
    | some name => ("type", .str name)
    | none => ("type", .nat n)
  | member => member

/-- Read a kind from the members of its activity. -/
def ofMembers? (members : List (String × Json)) : Option ActivityKind := do
  let (name, v) ← (Json.obj (members.map nameNumbered)).tagged? "type"
  ofFields? name v

/-- Read a kind that stands alone. -/
def ofJson? (v : Json) : Option ActivityKind := do
  let (name, v) ← v.tagged? "type"
  ofFields? name v

end ActivityKind

namespace Activity

/-- The fields of an activity that do not belong to its kind. -/
def ownFields : List String := ["id", "name", "agent"]

/-- The written form. -/
def toJson (a : Activity) : Json := Json.record <|
  [Json.field "id" (.nat a.id), Json.fieldOf "name" .str a.name,
   Json.fieldIf "agent" (!a.agent.isEmpty) a.agent.toJson] ++ a.kind.fields

/-- Read an activity that lies below `above` lists and objects.  The members that may belong to
its kind are taken in as a whole, so they must be sound. -/
def ofJson? (above : Nat) : Json → Option Activity
  | .obj members => do
    let others := members.filter fun m => !ownFields.contains m.1
    if !others.all (fun m => m.2.sound (above + 1)) then none
    match ← (Json.obj members).slots? ownFields with
    | [id, name, agent] =>
      pure { id := ← id.required ActivityId.ofJson?
             name := ← name.optional Json.string?
             agent := ← agent.withDefault {} Agent.ofJson?
             kind := ← ActivityKind.ofMembers? others }
    | _ => none
  | _ => none

end Activity

/-! ### Definitions -/

namespace Definition

/-- The written form. -/
def toJson (d : Definition) : Json := Json.record
  [Json.field "process_id" (.str d.processId), Json.field "name" (.str d.name),
   Json.field "root" (.nat d.root),
   Json.field "activities" (.arr (d.activities.map Activity.toJson))]

/-- Read a definition, without asking whether it is valid. -/
def ofJson? (v : Json) : Option Definition := do
  match ← v.slots? ["process_id", "name", "root", "activities"] with
  | [processId, name, root, activities] =>
    pure { processId := ← processId.required Json.string?
           name := ← name.required Json.string?
           root := ← root.required ActivityId.ofJson?
           activities := ← activities.required (Json.list? (Activity.ofJson? 2)) }
  | _ => none

/-- The written text. -/
def text (d : Definition) : String := d.toJson.render

/-- Read a JSON value as a valid definition. -/
def ofJson (v : Json) : Except DefinitionError Definition :=
  match ofJson? v with
  | none => .error .unreadable
  | some d => do
    d.validate
    pure d

/-- Read text as a valid definition. -/
def ofText (text : String) : Except DefinitionError Definition :=
  match Json.readText? text with
  | none => .error .unreadable
  | some v => ofJson v

end Definition

end Perdure
