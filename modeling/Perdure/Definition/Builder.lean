import Perdure.Definition.Process

/-!
# Building definitions

Definitions, alarms and agents put together piece by piece.  A builder of alarms or agents takes
each field once.

## Main definitions

* `Definition.Builder` — activities collected so far.
* `Alarm.Builder`, `Agent.Builder` — fields set so far.
-/

namespace Perdure

/-- Fill a field that is still empty. -/
def setOnce {α : Type} (field : String) (slot : Option α) (value : α) :
    Except DefinitionError (Option α) :=
  if slot.isSome then .error (.alreadySet field) else .ok (some value)

/-! ### Alarms -/

/-- The fields of an alarm that are timed by an expression. -/
inductive AlarmField where
  | delay
  | instant
  | repetition
deriving DecidableEq, Repr

/-- The written name of a field. -/
def AlarmField.name : AlarmField → String
  | .delay => "for"
  | .instant => "until"
  | .repetition => "repeat"

/-- An alarm of which fields are still being set. -/
structure Alarm.Builder where
  activity : ActivityId
  delay : Option String := none
  instant : Option String := none
  repetition : Option String := none
deriving DecidableEq, Repr

namespace Alarm.Builder

/-- Set one field. -/
def set (b : Builder) (field : AlarmField) (expression : String) :
    Except DefinitionError Builder :=
  match field with
  | .delay => do pure { b with delay := ← setOnce field.name b.delay expression }
  | .instant => do pure { b with instant := ← setOnce field.name b.instant expression }
  | .repetition => do pure { b with repetition := ← setOnce field.name b.repetition expression }

/-- The finished alarm, unless its first firing is timed twice. -/
def build (b : Builder) : Except DefinitionError Alarm :=
  let alarm : Alarm := ⟨b.delay, b.instant, b.repetition, b.activity⟩
  if alarm.isConflicting then .error (.conflictingTiming b.activity) else .ok alarm

end Alarm.Builder

/-! ### Agents -/

/-- A field of an agent with the members it is set to. -/
inductive AgentField where
  | incomingLinks (names : List String)
  | outgoingLinks (names : List String)
  | variablesRead (names : List String)
  | variablesWritten (names : List String)
  | nested (activities : List ActivityId)
deriving DecidableEq, Repr

/-- The written name of a field. -/
def AgentField.name : AgentField → String
  | .incomingLinks _ => "incoming_links"
  | .outgoingLinks _ => "outgoing_links"
  | .variablesRead _ => "variables_read"
  | .variablesWritten _ => "variables_written"
  | .nested _ => "nested"

/-- An agent of which fields are still being set. -/
structure Agent.Builder where
  incomingLinks : Option (KeySet String) := none
  outgoingLinks : Option (KeySet String) := none
  variablesRead : Option (KeySet String) := none
  variablesWritten : Option (KeySet String) := none
  nested : Option (KeySet ActivityId) := none
deriving DecidableEq, Repr

namespace Agent.Builder

/-- Set one field. -/
def set (b : Builder) (field : AgentField) : Except DefinitionError Builder :=
  match field with
  | .incomingLinks names => do
    pure { b with incomingLinks := ← setOnce field.name b.incomingLinks (.ofMembers names) }
  | .outgoingLinks names => do
    pure { b with outgoingLinks := ← setOnce field.name b.outgoingLinks (.ofMembers names) }
  | .variablesRead names => do
    pure { b with variablesRead := ← setOnce field.name b.variablesRead (.ofMembers names) }
  | .variablesWritten names => do
    pure { b with variablesWritten := ← setOnce field.name b.variablesWritten (.ofMembers names) }
  | .nested activities => do
    pure { b with nested := ← setOnce field.name b.nested (.ofMembers activities) }

/-- The finished agent; what was not set is empty. -/
def build (b : Builder) : Agent :=
  { incomingLinks := b.incomingLinks.getD ∅
    outgoingLinks := b.outgoingLinks.getD ∅
    variablesRead := b.variablesRead.getD ∅
    variablesWritten := b.variablesWritten.getD ∅
    nested := b.nested.getD ∅ }

end Agent.Builder

/-! ### Definitions -/

/-- A definition whose activities are still being collected. -/
structure Definition.Builder where
  processId : String
  name : String
  activities : List Activity := []
deriving DecidableEq, Repr

namespace Definition.Builder

/-- Add an activity and tell its index, which is a word of 32 bits. -/
def activity (b : Builder) (name : String) (kind : ActivityKind) (agent : Agent := {}) :
    ActivityId × Builder :=
  let id := b.activities.length % UInt32.size
  (id, { b with activities := b.activities ++ [{ id, name := some name, agent, kind }] })

/-- Add an activity that is to be defined later. -/
def reserve (b : Builder) (name : String) : ActivityId × Builder := b.activity name .empty

/-- Say what an activity does that was added before. -/
def define (b : Builder) (id : ActivityId) (kind : ActivityKind) :
    Except DefinitionError Builder :=
  if id < b.activities.length then
    .ok { b with activities := b.activities.modify id fun a => { a with kind } }
  else .error (.unknownActivity id)

/-- The finished definition, if it is valid. -/
def build (b : Builder) (root : ActivityId) : Except DefinitionError Definition := do
  let d : Definition := ⟨b.processId, b.name, root, b.activities⟩
  d.validate
  pure d

end Definition.Builder

end Perdure
