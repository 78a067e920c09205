import Perdure.Definition.Json
import Perdure.Instance.State
import Perdure.Time.Printer
import Perdure.Time.Relaxed

/-!
# Instance states as JSON

The written form of soups and all they hold, and its readers.  Variants are objects whose `shape`
names the case.

## Main definitions

* `InstanceSoup.toJson`, `InstanceSoup.ofJson?` — the written form of a soup and its reader.
-/

namespace Perdure

open Json (Slot)

/-- The tag that names the case of a variant. -/
def shapeTag : String := "shape"

/-- A written variant: its case, then its fields. -/
def variant (shape : String) (fields : List (Option (String × Json))) : Json :=
  Json.record (Json.field shapeTag (.str shape) :: fields)

/-! ### Scalars -/

/-- An instant. -/
def Instant.toJson (t : Instant) : Json := .str t.text

/-- Read an instant. -/
def Instant.ofJson? (v : Json) : Option Instant := do Instant.ofStored? (← v.string?)

/-- Read a channel. -/
def Channel.ofJson? (v : Json) : Option Channel := v.word64?

/-- Read the decimal text of a channel, as it stands in the key of a map. -/
def Channel.ofKey? (key : String) : Option Channel :=
  let cs := key.toList
  if cs.isEmpty || !cs.all Char.isDigit || (cs.head? = some '0' && cs.length ≠ 1) then none
  else
    let n := Text.ofDigits (cs.filterMap Text.digit?)
    if n < UInt64.size then some n else none

/-! ### Faults and compensations -/

namespace Fault

/-- The written form. -/
def toJson (f : Fault) : Json := Json.record
  [Json.field "name" (.str f.name), Json.fieldOf "explanation" .str f.explanation]

/-- Read a fault. -/
def ofJson? (v : Json) : Option Fault := do
  match ← v.slots? ["name", "explanation"] with
  | [name, explanation] =>
    pure { name := ← name.required Json.string?
           explanation := ← explanation.withDefault none (Json.option? Json.string?) }
  | _ => none

end Fault

namespace Compensation

/-- The written form. -/
def toJson (c : Compensation) : Json := Json.record
  [Json.field "scope_instance" (.nat c.scopeInstance), Json.field "scope" (.nat c.scope),
   Json.field "activity" (.nat c.activity)]

/-- Read a handler. -/
def ofJson? (v : Json) : Option Compensation := do
  match ← v.slots? ["scope_instance", "scope", "activity"] with
  | [scopeInstance, scope, activity] =>
    pure { scopeInstance := ← scopeInstance.required Json.word64?
           scope := ← scope.required ActivityId.ofJson?
           activity := ← activity.required ActivityId.ofJson? }
  | _ => none

end Compensation

namespace Compensations

/-- The written form. -/
def toJson (cs : Compensations) : Json := .arr (cs.keys.map Compensation.toJson)

/-- Read a set of handlers. -/
def ofJson? (v : Json) : Option Compensations :=
  (v.list? Compensation.ofJson?).map KeySet.ofMembers

end Compensations

/-! ### Messages -/

namespace Message

/-- The written form. -/
def toJson : Message → Json
  | .completed fault compensations => variant "completed"
      [Json.fieldOf "fault" Fault.toJson fault,
       Json.fieldIf "compensations" (!compensations.isEmpty)
         (Compensations.toJson compensations)]
  | .failure reason => variant "failure" [Json.field "reason" (.str reason)]
  | .compensate scope reply => variant "compensate"
      [Json.field "scope" (.nat scope), Json.field "reply" (.nat reply)]
  | m => variant m.shape []

/-- Read a message. -/
def ofJson? (v : Json) : Option Message := do
  let (shape, v) ← v.tagged? shapeTag
  let bare (m : Message) : Option Message := (v.slots? []).map fun _ => m
  match shape with
  | "stop" => bare .stop
  | "terminate" => bare .terminate
  | "timeout" => bare .timeout
  | "timer-cancelled" => bare .timerCancelled
  | "cancelled" => bare .cancelled
  | "completed" => match ← v.slots? ["fault", "compensations"] with
    | [fault, compensations] =>
      pure (.completed (← fault.withDefault none (Json.option? Fault.ofJson?))
        (← compensations.withDefault ∅ Compensations.ofJson?))
    | _ => none
  | "failure" => match ← v.slots? ["reason"] with
    | [reason] => pure (.failure (← reason.required Json.string?))
    | _ => none
  | "compensate" => match ← v.slots? ["scope", "reply"] with
    | [scope, reply] =>
      pure (.compensate (← scope.required ActivityId.ofJson?) (← reply.required Channel.ofJson?))
    | _ => none
  | _ => none

end Message

/-! ### Activities under way -/

namespace Run

/-- The written form. -/
def toJson (r : Run) : Json := Json.record
  [Json.field "id" (.nat r.id), Json.field "activity" (.nat r.activity),
   Json.field "termination" (.nat r.termination), Json.field "parent" (.nat r.parent)]

/-- Read a run. -/
def ofJson? (v : Json) : Option Run := do
  match ← v.slots? ["id", "activity", "termination", "parent"] with
  | [id, activity, termination, parent] =>
    pure { id := ← id.required Json.word64?
           activity := ← activity.required ActivityId.ofJson?
           termination := ← termination.required Channel.ofJson?
           parent := ← parent.required Channel.ofJson? }
  | _ => none

end Run

namespace SequenceRun

/-- The written form. -/
def toJson (s : SequenceRun) : Json := Json.record
  [Json.field "info" s.run.toJson, Json.field "position" (.nat s.position),
   Json.field "compensations" (Compensations.toJson s.compensations),
   Json.field "terminated" (.bool s.terminated)]

/-- Read a sequence. -/
def ofJson? (v : Json) : Option SequenceRun := do
  match ← v.slots? ["info", "position", "compensations", "terminated"] with
  | [run, position, compensations, terminated] =>
    pure { run := ← run.required Run.ofJson?
           position := ← position.required Json.word64?
           compensations := ← compensations.withDefault ∅ Compensations.ofJson?
           terminated := ← terminated.withDefault false Json.bool? }
  | _ => none

end SequenceRun

namespace AlarmLink

/-- The written form. -/
def toJson (l : AlarmLink) : Json := Json.record
  [Json.field "parent" (.nat l.parent), Json.field "termination" (.nat l.termination),
   Json.field "control" (.nat l.control), Json.field "done" (.bool l.done)]

/-- Read a link. -/
def ofJson? (v : Json) : Option AlarmLink := do
  match ← v.slots? ["parent", "termination", "control", "done"] with
  | [parent, termination, control, done] =>
    pure { parent := ← parent.required Channel.ofJson?
           termination := ← termination.required Channel.ofJson?
           control := ← control.required Channel.ofJson?
           done := ← done.withDefault false Json.bool? }
  | _ => none

end AlarmLink

namespace ScopeRun

/-- The written form. -/
def toJson (s : ScopeRun) : Json := Json.record
  [Json.field "info" s.run.toJson, Json.field "body" (Json.ofOption Run.toJson s.body),
   Json.field "handlers" (.arr (s.handlers.map AlarmLink.toJson)),
   Json.field "compensations" (Compensations.toJson s.compensations),
   Json.fieldOf "fault" Fault.toJson s.fault, Json.field "terminating" (.bool s.terminating)]

/-- Read a scope. -/
def ofJson? (v : Json) : Option ScopeRun := do
  match ← v.slots? ["info", "body", "handlers", "compensations", "fault", "terminating"] with
  | [run, body, handlers, compensations, fault, terminating] =>
    pure { run := ← run.required Run.ofJson?
           body := ← body.optional Run.ofJson?
           handlers := ← handlers.required (Json.list? AlarmLink.ofJson?)
           compensations := ← compensations.withDefault ∅ Compensations.ofJson?
           fault := ← fault.withDefault none (Json.option? Fault.ofJson?)
           terminating := ← terminating.withDefault false Json.bool? }
  | _ => none

end ScopeRun

namespace AlarmRef

/-- The written form. -/
def toJson (a : AlarmRef) : Json := Json.record
  [Json.field "scope" (.nat a.scope), Json.field "index" (.nat a.index)]

/-- Read the place of an alarm. -/
def ofJson? (v : Json) : Option AlarmRef := do
  match ← v.slots? ["scope", "index"] with
  | [scope, index] =>
    pure { scope := ← scope.required ActivityId.ofJson?
           index := ← index.required Json.word32? }
  | _ => none

end AlarmRef

namespace AlarmRun

/-- The written form. -/
def toJson (a : AlarmRun) : Json := Json.record
  [Json.field "alarm" a.alarm.toJson, Json.field "scope_instance" (.nat a.scopeInstance),
   Json.field "parent" (.nat a.parent), Json.field "termination" (.nat a.termination),
   Json.field "control" (.nat a.control),
   Json.field "compensations" (Compensations.toJson a.compensations)]

/-- Read an alarm under way. -/
def ofJson? (v : Json) : Option AlarmRun := do
  match ← v.slots? ["alarm", "scope_instance", "parent", "termination", "control",
      "compensations"] with
  | [alarm, scopeInstance, parent, termination, control, compensations] =>
    pure { alarm := ← alarm.required AlarmRef.ofJson?
           scopeInstance := ← scopeInstance.required Json.word64?
           parent := ← parent.required Channel.ofJson?
           termination := ← termination.required Channel.ofJson?
           control := ← control.required Channel.ofJson?
           compensations := ← compensations.withDefault ∅ Compensations.ofJson? }
  | _ => none

end AlarmRun

/-! ### Tasks and receivers -/

namespace Task

/-- The written form. -/
def toJson : Task → Json
  | .activity run => variant "activity" [Json.field "info" run.toJson]
  | .sequenceStep sequence => variant "sequence-step" [Json.field "sequence" sequence.toJson]
  | .scopeActive scope => variant "scope-active" [Json.field "scope" scope.toJson]
  | .alarmStart alarm => variant "alarm-start" [Json.field "alarm" alarm.toJson]
  | .alarmWait alarm deadline => variant "alarm-wait"
      [Json.field "alarm" alarm.toJson,
       Json.field "deadline" (Json.ofOption Instant.toJson deadline)]
  | .alarmFire alarm => variant "alarm-fire" [Json.field "alarm" alarm.toJson]
  | .alarmActive alarm child stopped => variant "alarm-active"
      [Json.field "alarm" alarm.toJson, Json.field "child" child.toJson,
       Json.field "stopped" (.bool stopped)]

/-- Read a task. -/
def ofJson? (v : Json) : Option Task := do
  let (shape, v) ← v.tagged? shapeTag
  match shape with
  | "activity" => match ← v.slots? ["info"] with
    | [run] => pure (.activity (← run.required Run.ofJson?))
    | _ => none
  | "sequence-step" => match ← v.slots? ["sequence"] with
    | [sequence] => pure (.sequenceStep (← sequence.required SequenceRun.ofJson?))
    | _ => none
  | "scope-active" => match ← v.slots? ["scope"] with
    | [scope] => pure (.scopeActive (← scope.required ScopeRun.ofJson?))
    | _ => none
  | "alarm-start" => match ← v.slots? ["alarm"] with
    | [alarm] => pure (.alarmStart (← alarm.required AlarmRun.ofJson?))
    | _ => none
  | "alarm-wait" => match ← v.slots? ["alarm", "deadline"] with
    | [alarm, deadline] =>
      pure (.alarmWait (← alarm.required AlarmRun.ofJson?) (← deadline.optional Instant.ofJson?))
    | _ => none
  | "alarm-fire" => match ← v.slots? ["alarm"] with
    | [alarm] => pure (.alarmFire (← alarm.required AlarmRun.ofJson?))
    | _ => none
  | "alarm-active" => match ← v.slots? ["alarm", "child", "stopped"] with
    | [alarm, child, stopped] =>
      pure (.alarmActive (← alarm.required AlarmRun.ofJson?) (← child.required Run.ofJson?)
        (← stopped.required Json.bool?))
    | _ => none
  | _ => none

end Task

namespace Receiver

/-- The written form. -/
def toJson : Receiver → Json
  | .waitActivity run timer => variant "wait-activity"
      [Json.field "info" run.toJson, Json.field "timer" (.nat timer)]
  | .sequenceWaiting sequence child => variant "sequence-waiting"
      [Json.field "sequence" sequence.toJson, Json.field "child" child.toJson]
  | .scopeWaiting scope => variant "scope-waiting" [Json.field "scope" scope.toJson]
  | .alarmWaiting alarm timer => variant "alarm-waiting"
      [Json.field "alarm" alarm.toJson, Json.field "timer" (Json.ofOption .nat timer)]
  | .alarmActive alarm child stopped => variant "alarm-active"
      [Json.field "alarm" alarm.toJson, Json.field "child" child.toJson,
       Json.field "stopped" (.bool stopped)]

/-- Read a receiver. -/
def ofJson? (v : Json) : Option Receiver := do
  let (shape, v) ← v.tagged? shapeTag
  match shape with
  | "wait-activity" => match ← v.slots? ["info", "timer"] with
    | [run, timer] =>
      pure (.waitActivity (← run.required Run.ofJson?) (← timer.required Channel.ofJson?))
    | _ => none
  | "sequence-waiting" => match ← v.slots? ["sequence", "child"] with
    | [sequence, child] =>
      pure (.sequenceWaiting (← sequence.required SequenceRun.ofJson?)
        (← child.required Run.ofJson?))
    | _ => none
  | "scope-waiting" => match ← v.slots? ["scope"] with
    | [scope] => pure (.scopeWaiting (← scope.required ScopeRun.ofJson?))
    | _ => none
  | "alarm-waiting" => match ← v.slots? ["alarm", "timer"] with
    | [alarm, timer] =>
      pure (.alarmWaiting (← alarm.required AlarmRun.ofJson?) (← timer.optional Channel.ofJson?))
    | _ => none
  | "alarm-active" => match ← v.slots? ["alarm", "child", "stopped"] with
    | [alarm, child, stopped] =>
      pure (.alarmActive (← alarm.required AlarmRun.ofJson?) (← child.required Run.ofJson?)
        (← stopped.required Json.bool?))
    | _ => none
  | _ => none

end Receiver

/-! ### Shared data -/

namespace Request

/-- The written form. -/
def toJson (r : Request) : Json := Json.record
  [Json.field "partner_link" (.str r.partnerLink), Json.field "operation" (.str r.operation),
   Json.fieldOf "correlation_key" .str r.correlationKey, Json.field "channel" (.nat r.channel),
   Json.fieldOf "message_exchange" .str r.messageExchange]

/-- Read a request. -/
def ofJson? (v : Json) : Option Request := do
  match ← v.slots? ["partner_link", "operation", "correlation_key", "channel",
      "message_exchange"] with
  | [partnerLink, operation, correlationKey, channel, messageExchange] =>
    pure { partnerLink := ← partnerLink.required Json.string?
           operation := ← operation.required Json.string?
           correlationKey := ← correlationKey.withDefault none (Json.option? Json.string?)
           channel := ← channel.required Channel.ofJson?
           messageExchange := ← messageExchange.withDefault none (Json.option? Json.string?) }
  | _ => none

end Request

namespace RequestState

/-- The shape of the older form. -/
def listShape : String := "outstanding-requests/v1"

/-- The shape of the newer form. -/
def managerShape : String := "request-manager/v2"

/-- The written form. -/
def toJson : RequestState → Json
  | .list requests => variant listShape
      [Json.field "requests" (.arr (requests.map Request.toJson))]
  | .manager m => variant managerShape
      [Json.field "entries" (.arr (m.entries.map Request.toJson))]

/-- Read either form.  The newer one may not name a conversation twice. -/
def ofJson? (v : Json) : Option RequestState := do
  let (shape, v) ← v.tagged? shapeTag
  if shape = listShape then
    match ← v.slots? ["requests"] with
    | [requests] => pure (.list (← requests.withDefault [] (Json.list? Request.ofJson?)))
    | _ => none
  else if shape = managerShape then
    match ← v.slots? ["entries"] with
    | [entries] =>
      let entries ← entries.withDefault [] (Json.list? Request.ofJson?)
      pure (.manager (← (RequestManager.ofList entries).toOption))
    | _ => none
  else none

end RequestState

namespace RootLink

/-- The written form. -/
def toJson (l : RootLink) : Json := Json.record
  [Json.field "termination" (.nat l.termination), Json.field "parent" (.nat l.parent)]

/-- Read a link. -/
def ofJson? (v : Json) : Option RootLink := do
  match ← v.slots? ["termination", "parent"] with
  | [termination, parent] =>
    pure { termination := ← termination.required Channel.ofJson?
           parent := ← parent.required Channel.ofJson? }
  | _ => none

end RootLink

namespace Shared

/-- The written form. -/
def toJson (g : Shared) : Json := Json.record
  [Json.fieldOf "root" RootLink.toJson g.root, Json.field "requests" g.requests.toJson]

/-- Read the shared data, the requests in the given way. -/
def read? (requestState : Json → Option RequestState) (v : Json) : Option Shared := do
  match ← v.slots? ["root", "requests"] with
  | [root, requests] =>
    pure { root := ← root.withDefault none (Json.option? RootLink.ofJson?)
           requests := ← requests.required requestState }
  | _ => none

/-- Read the shared data inside a document. -/
def ofJson? : Json → Option Shared := read? RequestState.ofJson?

/-- Read shared data that stand alone.  The requests are taken in as a whole, so they must be
sound. -/
def ofText? : Json → Option Shared :=
  read? fun v => if v.sound 1 then RequestState.ofJson? v else none

end Shared

/-! ### Effects -/

namespace Effect

/-- The written form. -/
def toJson : Effect → Json
  | .registerTimer channel deadline => variant "register-timer"
      [Json.field "channel" (.nat channel), Json.field "deadline" deadline.toJson]
  | .cancelTimer channel => variant "cancel-timer" [Json.field "channel" (.nat channel)]

/-- Read an effect. -/
def ofJson? (v : Json) : Option Effect := do
  let (shape, v) ← v.tagged? shapeTag
  match shape with
  | "register-timer" => match ← v.slots? ["channel", "deadline"] with
    | [channel, deadline] =>
      pure (.registerTimer (← channel.required Channel.ofJson?)
        (← deadline.required Instant.ofJson?))
    | _ => none
  | "cancel-timer" => match ← v.slots? ["channel"] with
    | [channel] => pure (.cancelTimer (← channel.required Channel.ofJson?))
    | _ => none
  | _ => none

end Effect

/-! ### Soups -/

/-- The written form of an arm. -/
def Arm.toJson (a : Arm Receiver) : Json := Json.record
  [Json.field "channel" (.nat a.channel), Json.field "handler" a.handler.toJson]

/-- Read an arm. -/
def Arm.ofJson? (v : Json) : Option (Arm Receiver) := do
  match ← v.slots? ["channel", "handler"] with
  | [channel, handler] =>
    pure { channel := ← channel.required Channel.ofJson?
           handler := ← handler.required Receiver.ofJson? }
  | _ => none

/-- The written form of a choice. -/
def Choice.toJson (c : Choice Receiver) : Json := Json.record
  [Json.field "arms" (.arr (c.arms.map Arm.toJson))]

/-- Read a choice. -/
def Choice.ofJson? (v : Json) : Option (Choice Receiver) := do
  match ← v.slots? ["arms"] with
  | [arms] => pure { arms := ← arms.required (Json.list? Arm.ofJson?) }
  | _ => none

/-- The written form of a table of channels: an object whose keys are decimal numbers. -/
def Channel.tableJson {ν : Type} (value : ν → Json) (t : Table Channel ν) : Json :=
  .obj (t.entries.map fun e => (toString e.1, value e.2))

/-- Read a table of channels. -/
def Channel.table? {ν : Type} (value : Json → Option ν) : Json → Option (Table Channel ν)
  | .obj members => do
    let entries ← members.mapM fun m => do pure (← Channel.ofKey? m.1, ← value m.2)
    pure (Table.ofList entries)
  | _ => none

namespace InstanceSoup

/-- The written form.  Effects not yet handed over are not part of it. -/
def toJson (s : InstanceSoup) : Json := Json.record
  [Json.field "global" s.global.toJson, Json.field "next_channel" (.nat s.nextChannel),
   Json.field "next_monotonic" (.nat s.nextMonotonic),
   Json.field "runnables" (.arr (s.runnables.map Task.toJson)),
   Json.field "choices" (.arr (s.choices.map Choice.toJson)),
   Json.field "messages" (Channel.tableJson (fun q => .arr (q.map Message.toJson)) s.messages),
   Json.field "closed" (.arr (s.closed.keys.map .nat)),
   Json.field "timers" (Channel.tableJson Instant.toJson s.timers)]

/-- Read a soup. -/
def ofJson? (v : Json) : Option InstanceSoup := do
  match ← v.slots? ["global", "next_channel", "next_monotonic", "runnables", "choices",
      "messages", "closed", "timers"] with
  | [shared, nextChannel, nextMonotonic, runnables, choices, messages, closed, timers] =>
    pure { global := ← shared.required Shared.ofJson?
           nextChannel := ← nextChannel.required Json.word64?
           nextMonotonic := ← nextMonotonic.required Json.word64?
           runnables := ← runnables.required (Json.list? Task.ofJson?)
           choices := ← choices.required (Json.list? Choice.ofJson?)
           messages := ← messages.required (Channel.table? (Json.list? Message.ofJson?))
           closed := ← closed.required fun v =>
             (v.list? Channel.ofJson?).map KeySet.ofMembers
           timers := ← timers.required (Channel.table? Instant.ofJson?) }
  | _ => none

end InstanceSoup

end Perdure
