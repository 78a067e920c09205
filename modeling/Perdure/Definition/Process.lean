import Perdure.Definition.Activity

/-!
# Process definitions

A definition is a list of activities and the index of its root.  It is valid when each activity
stands at its own index, every reference leads to an activity and no alarm is timed twice.

## Main definitions

* `Definition` — a process and its activities.
* `DefinitionError` — what can be wrong with a definition.
* `Definition.validate` — the first fault of a definition.
-/

namespace Perdure

/-- What can be wrong with a definition. -/
inductive DefinitionError where
  /-- The text is no definition. -/
  | unreadable
  /-- A field of a builder is given twice. -/
  | alreadySet (field : String)
  /-- A reference leads nowhere. -/
  | unknownActivity (id : ActivityId)
  /-- An activity stands at an index that is not its own. -/
  | idMismatch (index : Nat) (found : ActivityId)
  /-- An alarm of this activity is timed both by a duration and by an instant. -/
  | conflictingTiming (activity : ActivityId)
deriving DecidableEq, Repr

/-- The wording of a fault. -/
def DefinitionError.message : DefinitionError → String
  | .unreadable => "the text is no process definition"
  | .alreadySet field => s!"field '{field}' is already set"
  | .unknownActivity id => s!"activity {ActivityId.text id} does not exist"
  | .idMismatch index found => s!"activity at index {index} declares id {ActivityId.text found}"
  | .conflictingTiming activity =>
    s!"alarm on activity {ActivityId.text activity} sets both 'for' and 'until'"

/-- A process definition. -/
structure Definition where
  processId : String
  name : String
  /-- The activity that an instance starts with. -/
  root : ActivityId
  activities : List Activity
deriving DecidableEq, Repr

namespace Definition

/-- The activity at an index. -/
def activity? (d : Definition) (id : ActivityId) : Option Activity := d.activities[id]?

/-- Does the reference lead to an activity? -/
def resolve (d : Definition) (id : ActivityId) : Except DefinitionError Unit :=
  if id < d.activities.length then .ok () else .error (.unknownActivity id)

/-- The first activity that stands at an index other than its own. -/
def checkIds : (index : Nat) → List Activity → Except DefinitionError Unit
  | _, [] => .ok ()
  | index, a :: rest =>
    if a.id = index then checkIds (index + 1) rest else .error (.idMismatch index a.id)

/-- The first fault of one activity: its references, then its nested ones, then its alarms. -/
def checkActivity (d : Definition) (a : Activity) : Except DefinitionError Unit := do
  a.kind.references.forM d.resolve
  a.agent.nested.keys.forM d.resolve
  if a.kind.alarms.any Alarm.isConflicting then throw (.conflictingTiming a.id)

/-- The first fault of a definition: misplaced activities, then the root, then each activity. -/
def validate (d : Definition) : Except DefinitionError Unit := do
  checkIds 0 d.activities
  d.resolve d.root
  d.activities.forM d.checkActivity

end Definition

end Perdure
