import Perdure.Engine.Basic
import Perdure.Proofs.Engine.Host

/-!
# One run of an instance

What the operations of an engine do to a host.  All of them are confined to the instance they are
about.  On a store that works, a run that comes to rest stores its verdict and then asks for timers;
a run that fails marks the instance; and nothing is done to an instance that is over or missing.

## Main definitions

* `Engine.proceed` — a run from a soup that is read back.
* `Operation`, `Engine.serveBy` — what an engine is called for, under a clock.
* `EngineCall`, `Engine.serve` — the same at one instant.

## Main results

* `Engine.confined_reduce`, `Engine.confined_serve` — an operation is work on its instance alone.
* `Engine.perform_settle`, `Engine.perform_proceed_of_error` — what is stored and asked for when a
  run comes to rest, or fails.
* `Engine.perform_reduce` — what a run does to an instance that is still active.
-/

namespace Perdure

open Access (perform_bind perform_record perform_change perform_forM_timer)

namespace Engine

variable {e : Engine} {clock : Nat → Instant} {now : Instant} {id : InstanceId} {h : Host}

/-- What a run does once it has its soup. -/
def proceed (e : Engine) (clock : Nat → Instant) (id : InstanceId) (script : Script)
    (soup : InstanceSoup) : Access EngineError Status :=
  match (script.program.executeBy clock e.limit soup).outcome with
  | .ok outcome => settle (clock outcome.reductions) id outcome
  | .error source => do
    (Access.change (.markBroken id (source.message RunError.message))).relabel .store
    throw (.reduction id source)

/-! ### Work on one instance alone -/

theorem target_verdict (now : Instant) (id : InstanceId) (rest : Rest)
    (completion : Option (Option Fault)) (soup : InstanceSoup) :
    (verdict now id rest completion soup).1.target = id := by
  cases completion with
  | some fault => rfl
  | none => cases rest <;> rfl

theorem verdict_ne_create (now : Instant) (id : InstanceId) (rest : Rest)
    (completion : Option (Option Fault)) (soup : InstanceSoup) (r : Record) :
    (verdict now id rest completion soup).1 ≠ .create r := by
  cases completion with
  | some fault => exact nofun
  | none => cases rest <;> exact nofun

theorem subject_enact (effect : Effect) : (enact id effect).subject = id := by
  cases effect <;> rfl

theorem isTimer_enact (effect : Effect) : (enact id effect).isTimer = true := by
  cases effect <;> rfl

/-- All that a run which came to rest asks for after its verdict are timers. -/
theorem isTimer_of_mem_asked {effects : List Effect} {armed : List Channel} {a : Action}
    (ha : a ∈ effects.map (enact id) ++ armed.map (.cancelTimer id)) : a.isTimer = true := by
  rcases List.mem_append.1 ha with ha | ha
  · obtain ⟨effect, -, rfl⟩ := List.mem_map.1 ha
    exact isTimer_enact effect
  · obtain ⟨channel, -, rfl⟩ := List.mem_map.1 ha
    rfl

/-- What is done when a run comes to rest, its verdict given. -/
theorem settle_eq (outcome : Outcome Shared Task Receiver Message)
    {completion : Option (Option Fault)} {soup : InstanceSoup}
    (hc : takeCompletion outcome.soup.drainEffects.2 = (completion, soup)) {change : Change}
    {status : Status} (hv : verdict now id outcome.rest completion soup = (change, status)) :
    settle now id outcome = (do
      (Access.change change).relabel .store
      outcome.soup.outbox.forM fun effect => Access.timer (enact id effect)
      (if status.isFinal then soup.timers.keys else []).forM fun channel =>
        Access.timer (.cancelTimer id channel)
      pure status) := by
  unfold settle
  have hdrain : outcome.soup.drainEffects = (outcome.soup.outbox, outcome.soup.drainEffects.2) := rfl
  rw [hdrain]
  simp only [hc, hv]
  split <;> rfl

theorem confined_settle (outcome : Outcome Shared Task Receiver Message) :
    (settle now id outcome).Confined id := by
  rcases hc : takeCompletion outcome.soup.drainEffects.2 with ⟨completion, soup⟩
  rcases hv : verdict now id outcome.rest completion soup with ⟨change, status⟩
  have htarget := target_verdict now id outcome.rest completion soup
  rw [hv] at htarget
  rw [settle_eq outcome hc hv]
  apply Access.Confined.bind ((Access.Confined.change htarget).relabel _)
  intro _
  apply Access.Confined.bind (.forM fun effect => .timer (subject_enact effect))
  intro _
  apply Access.Confined.bind (.forM fun channel => .timer (by rfl))
  intro _
  exact .pure id status

/-- A run is work on its instance alone. -/
theorem confined_reduce (i : Injection) : (e.reduceBy clock id i).Confined id := by
  unfold reduceBy
  apply Access.Confined.bind ((Access.Confined.record id id).relabel _)
  intro record
  split
  · exact .pure id _
  · apply Access.Confined.bind (.ofExcept id _)
    intro process
    apply Access.Confined.bind (.ofExcept id _)
    intro soup
    apply Access.Confined.bind (.ofExcept id _)
    intro sent
    split
    · exact confined_settle _
    · apply Access.Confined.bind (.relabel (.change (by rfl)) _)
      intro _
      exact .throw id _

/-- The start of an instance is work on this instance alone. -/
theorem confined_start (createdAt : Instant) (processId : String) :
    (e.startBy clock id createdAt processId).Confined id := by
  unfold startBy
  apply Access.Confined.bind (.ofExcept id _)
  intro process
  apply Access.Confined.bind (.relabel (.change (by rfl)) _)
  intro _
  exact confined_reduce .start

/-! ### Runs on a store that works -/

/-- A change of an instance that is there is made. -/
theorem perform_change_of_get? (hf : h.failing = []) {c : Change} {r : Record}
    (hc : ∀ s, c ≠ .create s) (hr : h.store.get? c.target = some r) :
    ((Access.change c).relabel EngineError.store).perform h = (.ok (), { h with
      store := h.store.insert (c.update r), journal := h.journal ++ [.change c] }) := by
  apply Access.perform_relabel_of_ok
  rw [perform_change (by simp [hf]), Change.apply_of_get? hc hr]

/-- The record of an instance that is there is found. -/
theorem perform_record_of_get? (hf : h.failing = []) {r : Record} (hr : h.store.get? id = some r) :
    ((Access.record id).relabel EngineError.store).perform h = (.ok r, h) := by
  apply Access.perform_relabel_of_ok
  rw [perform_record hf, Store.record_of_get? hr]

/-- A run that comes to rest stores its verdict; then it asks for the timers that it wished for, and
after the end of the instance cancels those still armed. -/
theorem perform_settle (hf : h.failing = []) {r : Record} (hr : h.store.get? id = some r)
    (outcome : Outcome Shared Task Receiver Message) {completion : Option (Option Fault)}
    {soup : InstanceSoup} (hc : takeCompletion outcome.soup.drainEffects.2 = (completion, soup))
    {change : Change} {status : Status}
    (hv : verdict now id outcome.rest completion soup = (change, status)) :
    (settle now id outcome).perform h = (.ok status, { h with
      store := h.store.insert (change.update r)
      journal := h.journal ++ .change change :: (outcome.soup.outbox.map (enact id) ++
        (if status.isFinal then soup.timers.keys else []).map (.cancelTimer id)) }) := by
  have htarget := target_verdict now id outcome.rest completion soup
  have hcreate := verdict_ne_create now id outcome.rest completion soup
  rw [hv] at htarget hcreate
  have hchange := perform_change_of_get? hf hcreate (htarget ▸ hr)
  rw [settle_eq outcome hc hv, perform_bind, hchange]
  simp only [perform_bind, perform_forM_timer, Access.perform_pure, List.append_assoc,
    List.nil_append, List.cons_append]

/-- Nothing is done to an instance that is missing. -/
theorem perform_reduce_of_missing (hf : h.failing = []) (hr : h.store.get? id = none)
    (i : Injection) : (e.reduceBy clock id i).perform h = (.error (.store (.notFound id)), h) := by
  unfold reduceBy
  rw [perform_bind, Access.perform_relabel, perform_record hf, Store.record_of_missing hr]
  rfl

/-- Nothing is done to an instance that is over. -/
theorem perform_reduce_of_final (hf : h.failing = []) {r : Record} (hr : h.store.get? id = some r)
    (hfinal : r.status.isFinal = true) (i : Injection) :
    (e.reduceBy clock id i).perform h = (.ok r.status, h) := by
  have hpending : r.pending? = none := if_pos hfinal
  unfold reduceBy
  rw [perform_bind, perform_record_of_get? hf hr]
  simp only [hpending]
  rfl

/-- A run of an active instance puts something into the stored soup and proceeds from there. -/
theorem perform_reduce (hf : h.failing = []) {r : Record} (hr : h.store.get? id = some r)
    {bytes : List UInt8} (hb : r.pending? = some bytes) {d : Deployed}
    (hd : e.processes.get? r.processId = some d) {soup : InstanceSoup}
    (hread : Checkpoint.read d.remap bytes = .ok soup) (i : Injection) :
    (e.reduceBy clock id i).perform h = match i.into id soup with
      | .error refusal => (.error refusal, h)
      | .ok sent => (e.proceed clock id d.script sent).perform h := by
  have hdeployed : e.deployed r.processId = .ok d := by
    unfold deployed
    rw [hd]
  have hsoup : (Checkpoint.read d.remap bytes).mapError (.corruptState id) =
      (.ok soup : Except EngineError InstanceSoup) := by
    rw [hread]
    rfl
  unfold reduceBy
  rw [perform_bind, perform_record_of_get? hf hr]
  simp only [hb, perform_bind, Access.perform_ofExcept, hdeployed, hsoup]
  cases i.into id soup with
  | error refusal => rfl
  | ok sent => rfl

/-- A run that fails marks its instance, whose state stays. -/
theorem perform_proceed_of_error (hf : h.failing = []) {r : Record}
    (hr : h.store.get? id = some r) {script : Script} {soup : InstanceSoup}
    {source : ReductionError RunError}
    (ho : (script.program.executeBy clock e.limit soup).outcome = .error source)
    {change : Change} (hc : change = .markBroken id (source.message RunError.message)) :
    (e.proceed clock id script soup).perform h = (.error (.reduction id source), { h with
      store := h.store.insert (change.update r), journal := h.journal ++ [.change change] }) := by
  have hcreate (new : Record) : change ≠ .create new := by
    rw [hc]
    exact nofun
  have htarget : change.target = id := by rw [hc]; rfl
  have hchange := perform_change_of_get? hf hcreate (htarget ▸ hr)
  unfold proceed
  rw [ho]
  dsimp only
  rw [perform_bind, ← hc, hchange]
  rfl

/-- An instance of an unknown process is not started. -/
theorem perform_start_of_unknown {processId : String} (hd : e.processes.get? processId = none)
    (createdAt : Instant) :
    (e.startBy clock id createdAt processId).perform h = (.error (.unknownProcess processId), h) := by
  have hdeployed : e.deployed processId = .error (.unknownProcess processId) := by
    unfold deployed
    rw [hd]
  unfold startBy
  rw [perform_bind, hdeployed]
  rfl

/-- The start of an instance adds its record and runs it, unless its name is taken. -/
theorem perform_start (hf : h.failing = []) {processId : String} {d : Deployed}
    (hd : e.processes.get? processId = some d) (createdAt : Instant) {r : Record}
    (hr : r = { instanceId := id, processId, createdAt
                state := some (Checkpoint.write d.script.newSoup) }) :
    (e.startBy clock id createdAt processId).perform h = match h.store.get? id with
      | some _ => (.error (.store (.alreadyExists id)), h)
      | none => (e.reduceBy clock id .start).perform
          { h with store := h.store.insert r, journal := h.journal ++ [.change (.create r)] } := by
  have hdeployed : e.deployed processId = .ok d := by
    unfold deployed
    rw [hd]
  subst hr
  unfold startBy
  rw [perform_bind, hdeployed, Access.perform_ofExcept]
  dsimp only
  rw [perform_bind, Access.perform_relabel, perform_change (by simp [hf])]
  unfold Change.apply
  dsimp only
  cases h.store.get? id <;> rfl

/-- The start of an instance whose name is free proceeds from a new soup, if that is read back from
the state that the start creates. -/
theorem perform_start_of_free (hf : h.failing = []) {processId : String} {d : Deployed}
    (hd : e.processes.get? processId = some d) (createdAt : Instant) {r : Record}
    (hr : r = { instanceId := id, processId, createdAt
                state := some (Checkpoint.write d.script.newSoup) })
    (hfree : h.store.get? id = none)
    (hread : Checkpoint.read d.remap (Checkpoint.write d.script.newSoup) = .ok d.script.newSoup) :
    (e.startBy clock id createdAt processId).perform h =
      (e.proceed clock id d.script d.script.newSoup).perform
        { h with store := h.store.insert r, journal := h.journal ++ [.change (.create r)] } := by
  have hget : (h.store.insert r).get? id = some r := h.store.get?_insert_self (by rw [hr])
  have hworks : ({ h with store := h.store.insert r
                          journal := h.journal ++ [.change (.create r)] } : Host).failing = [] := hf
  have hpending : r.pending? = some (Checkpoint.write d.script.newSoup) := by rw [hr]; rfl
  have hprocess : e.processes.get? r.processId = some d := by rw [hr]; exact hd
  rw [perform_start hf hd createdAt hr, hfree]
  exact perform_reduce hworks hget hpending hprocess hread .start

end Engine

/-! ### Calls -/

/-- What can be asked of an engine about an instance. -/
inductive Operation where
  | start (createdAt : Instant) (processId : String)
  | deliver (channel : Channel) (m : Message)
  | terminate
deriving DecidableEq, Repr

/-- Do what an engine is called for about an instance, under a clock that may move on. -/
def Engine.serveBy (e : Engine) (clock : Nat → Instant) (id : InstanceId) :
    Operation → Access EngineError Status
  | .start createdAt processId => e.startBy clock id createdAt processId
  | .deliver channel m => e.deliverBy clock id channel m
  | .terminate => e.terminateBy clock id

/-- An operation, the instance it is about, and the time that the clock shows as long as it lasts. -/
structure EngineCall where
  now : Instant
  id : InstanceId
  operation : Operation
deriving DecidableEq, Repr

/-- Do what an engine is called for. -/
def Engine.serve (e : Engine) (c : EngineCall) : Access EngineError Status :=
  match c.operation with
  | .start createdAt processId => e.start c.now c.id createdAt processId
  | .deliver channel m => e.deliver c.now c.id channel m
  | .terminate => e.terminate c.now c.id

/-- A call is served under a clock that stands still. -/
theorem Engine.serve_eq (e : Engine) (c : EngineCall) :
    e.serve c = e.serveBy (fun _ => c.now) c.id c.operation := by
  unfold serve serveBy
  cases c.operation <;> rfl

/-- What an engine is called for about one instance is work on this instance alone. -/
theorem Engine.confined_serve (e : Engine) (c : EngineCall) : (e.serve c).Confined c.id := by
  rw [serve_eq]
  cases c.operation with
  | start createdAt processId => exact confined_start createdAt processId
  | deliver | terminate => exact confined_reduce _

end Perdure
