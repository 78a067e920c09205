import Perdure.Checkpoint
import Perdure.Engine.Host
import Perdure.Instance.Program

/-!
# The engine

An engine runs the instances of the processes deployed to it.  A run loads the state of an
instance, reduces it until nothing is left to do, and stores what came of it before it asks for
timers: a new state, the completion of the instance, or its failure.  The clock may move on while it
lasts, or be set by hand and stand still.

## Main definitions

* `Engine`, `Deployed` — the deployed processes, and how instances are run.
* `EngineError` — why an operation of the engine fails.
* `Engine.reduceBy` — one run of an instance, under a clock.
* `Engine.startBy`, `Engine.deliverBy`, `Engine.terminateBy` — what can be asked under a clock.
* `Engine.reduce`, `Engine.start`, `Engine.deliver`, `Engine.terminate` — the same at one instant.
* `Engine.status` — how an instance stands.
* `Engine.recover` — ask again for the timers of all active instances.
-/

namespace Perdure

/-- A deployed process: its script, and the renamed shapes of its stored states. -/
structure Deployed where
  script : Script
  remap : RemapTable

/-- The deployed processes, and how instances are run. -/
structure Engine where
  evaluator : Occasion → Evaluator := fun _ => .literal
  /-- The limit on the reductions of one run. -/
  limit : Nat := defaultLimit
  processes : Table String Deployed := ∅

/-- Why an operation fails. -/
inductive EngineError where
  | unknownProcess (processId : String)
  /-- The instance has no root activity to speak to. -/
  | notStarted (id : InstanceId)
  | corruptState (id : InstanceId) (source : CorruptState)
  | reduction (id : InstanceId) (source : ReductionError RunError)
  | store (source : StoreError)
deriving DecidableEq, Repr

/-- The wording of an error; the source of an error has its own. -/
def EngineError.message : EngineError → String
  | .unknownProcess processId => s!"process not registered: {processId}"
  | .notStarted id => s!"instance {id.text} has no root activity"
  | .corruptState id _ => s!"instance {id.text} has corrupt state"
  | .reduction id _ => s!"reduction of instance {id.text} failed"
  | .store source => s!"store error: {source.message}"

/-- What a run starts with beside the stored state. -/
inductive Injection where
  /-- Nothing: what is ready to run is run. -/
  | start
  | message (channel : Channel) (m : Message)
  /-- The root activity is told to terminate. -/
  | terminate
deriving DecidableEq, Repr

/-- The soup that a run starts with. -/
def Injection.into (i : Injection) (id : InstanceId) (soup : InstanceSoup) :
    Except EngineError InstanceSoup :=
  match i with
  | .start => .ok soup
  | .message channel m => .ok (soup.send channel m)
  | .terminate => match soup.global.root with
    | some root => .ok (soup.send root.termination .terminate)
    | none => .error (.notStarted id)

/-- The fault with which an activity completed, if this is its completion. -/
def Message.completion? : Message → Option (Option Fault)
  | .completed fault _ => some fault
  | _ => none

/-- Take the messages of the root activity; the first completion among them counts. -/
def takeCompletion (soup : InstanceSoup) : Option (Option Fault) × InstanceSoup :=
  match soup.global.root with
  | none => (none, soup)
  | some root =>
    let (messages, soup) := soup.takeMessages root.parent
    (messages.findSome? Message.completion?, soup)

/-- The state that a record still has to run from. -/
def Record.pending? (r : Record) : Option (List UInt8) :=
  if r.status.isFinal then none else r.state

namespace Engine

/-- Deploy a process; it takes the place of one with the same name. -/
def register (e : Engine) (d : Definition) (remap : RemapTable) : Engine :=
  { e with processes := e.processes.insert d.processId ⟨⟨d, e.evaluator⟩, remap⟩ }

/-- The deployed process of a name. -/
def deployed (e : Engine) (processId : String) : Except EngineError Deployed :=
  match e.processes.get? processId with
  | some d => .ok d
  | none => .error (.unknownProcess processId)

/-- The deployed processes with their renamed shapes. -/
def remaps (e : Engine) : List (String × RemapTable) :=
  e.processes.entries.map fun p => (p.1, p.2.remap)

/-- Why an instance breaks that stops without completing. -/
def strandedReason : String := "no listener left without completing"

/-- Ask for what an effect wishes. -/
def enact (id : InstanceId) : Effect → Action
  | .registerTimer channel deadline => .registerTimer id channel deadline
  | .cancelTimer channel => .cancelTimer id channel

/-- The change that stores what a run came to, and the status after it. -/
def verdict (now : Instant) (id : InstanceId) (rest : Rest) (completion : Option (Option Fault))
    (soup : InstanceSoup) : Change × Status :=
  match completion with
  | some fault =>
    let status := if fault.isSome then .faulted else .completed
    (.complete id status (fault.map (·.name)) now, status)
  | none => match rest with
    | .terminated => (.markBroken id strandedReason, .broken)
    | .suspended => (.setState id (Checkpoint.write soup), .active)

/-- Store what a run came to; then ask for its timers, and after the end of the instance cancel
those that are still armed. -/
def settle (now : Instant) (id : InstanceId) (outcome : Outcome Shared Task Receiver Message) :
    Access EngineError Status := do
  let (effects, soup) := outcome.soup.drainEffects
  let (completion, soup) := takeCompletion soup
  let (change, status) := verdict now id outcome.rest completion soup
  (Access.change change).relabel .store
  effects.forM fun effect => Access.timer (enact id effect)
  if status.isFinal then
    soup.timers.keys.forM fun channel => Access.timer (.cancelTimer id channel)
  pure status

/-- One run of an instance, under a clock that may move on after each reduction: it is looked at once
in each, and once more for the time of completion.  An instance that came to its end drops what is
sent to it; one whose run fails breaks, and its state stays as it was. -/
def reduceBy (e : Engine) (clock : Nat → Instant) (id : InstanceId) (i : Injection) :
    Access EngineError Status := do
  let record ← (Access.record id).relabel .store
  match record.pending? with
  | none => pure record.status
  | some bytes => do
    let process ← Access.ofExcept (e.deployed record.processId)
    let soup ← Access.ofExcept ((Checkpoint.read process.remap bytes).mapError (.corruptState id))
    let soup ← Access.ofExcept (i.into id soup)
    match (process.script.program.executeBy clock e.limit soup).outcome with
    | .ok outcome => settle (clock outcome.reductions) id outcome
    | .error source => do
      (Access.change (.markBroken id (source.message RunError.message))).relabel .store
      throw (.reduction id source)

/-- Create an instance under a new name and run it until it waits. -/
def startBy (e : Engine) (clock : Nat → Instant) (id : InstanceId) (createdAt : Instant)
    (processId : String) : Access EngineError Status := do
  let process ← Access.ofExcept (e.deployed processId)
  let state := some (Checkpoint.write process.script.newSoup)
  (Access.change (.create { instanceId := id, processId, state, createdAt })).relabel .store
  e.reduceBy clock id .start

/-- Deliver a message to a channel of an instance and run it. -/
def deliverBy (e : Engine) (clock : Nat → Instant) (id : InstanceId) (channel : Channel)
    (m : Message) : Access EngineError Status :=
  e.reduceBy clock id (.message channel m)

/-- Tell the root activity of an instance to terminate, and run the instance. -/
def terminateBy (e : Engine) (clock : Nat → Instant) (id : InstanceId) : Access EngineError Status :=
  e.reduceBy clock id .terminate

/-! ### The clock set by hand -/

/-- One run of an instance at one instant. -/
def reduce (e : Engine) (now : Instant) (id : InstanceId) (i : Injection) :
    Access EngineError Status :=
  e.reduceBy (fun _ => now) id i

/-- Start an instance at one instant. -/
def start (e : Engine) (now : Instant) (id : InstanceId) (createdAt : Instant)
    (processId : String) : Access EngineError Status :=
  e.startBy (fun _ => now) id createdAt processId

/-- Deliver a message at one instant. -/
def deliver (e : Engine) (now : Instant) (id : InstanceId) (channel : Channel) (m : Message) :
    Access EngineError Status :=
  e.deliverBy (fun _ => now) id channel m

/-- Tell an instance to terminate at one instant. -/
def terminate (e : Engine) (now : Instant) (id : InstanceId) : Access EngineError Status :=
  e.terminateBy (fun _ => now) id

/-! ### Standing and recovery -/

/-- How an instance stands. -/
def status (id : InstanceId) : Access EngineError Status := do
  let record ← (Access.record id).relabel .store
  pure record.status

/-- Ask again for the timers of one instance; a state that cannot be read has none. -/
def recoverInstance (remap : RemapTable) (id : InstanceId) : Access EngineError Nat := do
  match ← (Access.state id).relabel .store with
  | none => pure 0
  | some bytes => match Checkpoint.read remap bytes with
    | .error _ => pure 0
    | .ok soup => do
      soup.timers.entries.forM fun armed => Access.timer (.registerTimer id armed.1 armed.2)
      pure soup.timers.size

/-- Add up what is done for each of several things. -/
def total {α : Type} (count : α → Access EngineError Nat) : List α → Access EngineError Nat
  | [] => pure 0
  | a :: rest => do
    let n ← count a
    pure (n + (← total count rest))

/-- Ask again for the timers of all active instances of deployed processes; their number. -/
def recover (e : Engine) : Access EngineError Nat :=
  total (fun process => do
    let ids ← (Access.active process.1).relabel .store
    total (recoverInstance process.2) ids) e.remaps

end Engine

end Perdure
