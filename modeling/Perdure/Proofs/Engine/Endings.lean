import Perdure.Proofs.Engine.Run
import Perdure.Proofs.Instance.Completion
import Perdure.Proofs.Instance.Steady

/-!
# How operations end

An operation may end early in many places: a name is not known, a state cannot be read, the store
refuses, or one of thousands of reductions fails.  Nothing of a run is stored before it has come to
rest, and no timer is asked for before that is stored.  So there are three ways for a run to end,
on any host: nothing is done; its instance is marked as broken and keeps its state; or its verdict
is stored, and timers are asked for after that.

## Main definitions

* `Host.make` — a host whose store took a change.
* `Engine.Ends` — how a run can end.
* `Engine.newborn?`, `Engine.origin?` — the record that an operation creates, and the one that it
  runs its instance from.

## Main results

* `Engine.ends_reduce` — every run ends in one of these ways.
* `Engine.error_keeps_state` — an operation that fails leaves what is stored as it was.
-/

namespace Perdure

open Access (perform_bind perform_forM_timer)

/-- A host whose store took a change of a record that was there. -/
def Host.make (h : Host) (c : Change) (r : Record) : Host :=
  { h with store := h.store.insert (c.update r), journal := h.journal ++ [.change c] }

namespace Access

/-- A change of a record that was there is made, or the call is refused. -/
theorem update_cases {c : Change} (hc : ∀ new, c ≠ .create new) (h : Host) :
    (∃ r, h.store.get? c.target = some r ∧ (change c).perform h = (.ok (), h.make c r)) ∨
      ∃ refusal, (change c).perform h = (.error refusal, h) := by
  rcases change_cases c h with hrefused | ⟨store, happly, hmade⟩
  · exact .inr hrefused
  · rcases Change.exists_of_apply happly with ⟨new, he, -, -⟩ | ⟨r, hr, rfl⟩
    · exact absurd he (hc new)
    · exact .inl ⟨r, hr, hmade⟩

/-- A record is created if its name is free, or the call is refused. -/
theorem create_cases (r : Record) (h : Host) :
    (h.store.get? r.instanceId = none ∧
      (change (.create r)).perform h = (.ok (), h.make (.create r) r)) ∨
    ∃ refusal, (change (.create r)).perform h = (.error refusal, h) := by
  rcases change_cases (.create r) h with hrefused | ⟨store, happly, hmade⟩
  · exact .inr hrefused
  · cases hfree : h.store.get? r.instanceId with
    | some taken =>
      rw [Change.apply, hfree] at happly
      cases happly
    | none =>
      rw [Change.apply, hfree] at happly
      cases happly
      exact .inl ⟨rfl, hmade⟩

end Access

/-- A record with a state to run from is active. -/
theorem Record.active_of_pending? {r : Record} {bytes : List UInt8}
    (hb : r.pending? = some bytes) : r.status = .active ∧ r.state = some bytes := by
  unfold pending? at hb
  split at hb
  · cases hb
  · next hfinal =>
    refine ⟨?_, hb⟩
    cases hr : r.status with
    | active => rfl
    | completed | faulted | broken => exact absurd (by rw [hr]; rfl) hfinal

namespace Engine

variable {e : Engine} {clock : Nat → Instant} {now : Instant} {id : InstanceId} {h : Host}

/-- How a run of an instance can end, whether the store works or not. -/
inductive Ends (id : InstanceId) (h : Host) : Except EngineError Status × Host → Prop
  /-- Nothing was done, and no reduction was to blame for it. -/
  | quiet {result : Except EngineError Status}
      (hno : ∀ who source, result ≠ .error (.reduction who source)) : Ends id h (result, h)
  /-- A reduction failed; the instance is marked. -/
  | failed {r : Record} {bytes : List UInt8} {change : Change} (hr : h.store.get? id = some r)
      (hb : r.pending? = some bytes) (source : ReductionError RunError)
      (hc : change = .markBroken id (source.message RunError.message)) :
      Ends id h (.error (.reduction id source), h.make change r)
  /-- The verdict is stored, and timers are asked for after that. -/
  | rested {r : Record} {bytes : List UInt8} {change : Change} {status : Status}
      {asked : List Action} (hr : h.store.get? id = some r) (hb : r.pending? = some bytes)
      (hc : change.target = id) (hasked : ∀ a ∈ asked, a.isTimer = true) :
      Ends id h (.ok status,
        { h.make change r with journal := (h.make change r).journal ++ asked })

/-! ### Runs -/

/-- A change of a record that is there is made, or refused by a store that fails. -/
theorem perform_change_cases {c : Change} {r : Record} (hc : ∀ new, c ≠ .create new)
    (hr : h.store.get? c.target = some r) :
    ((Access.change c).relabel EngineError.store).perform h = (.ok (), h.make c r) ∨
      ∃ refusal, ((Access.change c).relabel EngineError.store).perform h =
        (.error (.store refusal), h) := by
  rw [Access.perform_relabel]
  rcases Access.update_cases hc h with ⟨r', hr', hmade⟩ | ⟨refusal, hrefused⟩
  · obtain rfl : r = r' := Option.some.inj (hr.symm.trans hr')
    rw [hmade]
    exact .inl rfl
  · rw [hrefused]
    exact .inr ⟨refusal, rfl⟩

/-- A run that came to rest ends well if its verdict is stored. -/
theorem ends_settle {r : Record} {bytes : List UInt8} (hr : h.store.get? id = some r)
    (hb : r.pending? = some bytes) (outcome : Outcome Shared Task Receiver Message) :
    Ends id h ((settle now id outcome).perform h) := by
  rcases hcompletion : takeCompletion outcome.soup.drainEffects.2 with ⟨completion, soup⟩
  rcases hv : verdict now id outcome.rest completion soup with ⟨change, status⟩
  have htarget := target_verdict now id outcome.rest completion soup
  have hcreate := verdict_ne_create now id outcome.rest completion soup
  rw [hv] at htarget hcreate
  rw [settle_eq outcome hcompletion hv, perform_bind]
  rcases perform_change_cases hcreate (htarget ▸ hr) with hmade | ⟨refusal, hrefused⟩
  · rw [hmade]
    simp only [perform_bind, perform_forM_timer, Access.perform_pure, List.append_assoc]
    exact .rested hr hb htarget fun _ ha => isTimer_of_mem_asked ha
  · rw [hrefused]
    exact .quiet nofun

/-- A run that failed ends with its mark if that is stored. -/
theorem ends_proceed {r : Record} {bytes : List UInt8} (hr : h.store.get? id = some r)
    (hb : r.pending? = some bytes) (script : Script) (soup : InstanceSoup) :
    Ends id h ((e.proceed clock id script soup).perform h) := by
  unfold proceed
  cases (script.program.executeBy clock e.limit soup).outcome with
  | ok outcome => exact ends_settle hr hb outcome
  | error source =>
    generalize hc : Change.markBroken id (source.message RunError.message) = change
    have hcreate (new : Record) : change ≠ .create new := by
      rw [← hc]
      exact nofun
    have htarget : change.target = id := by rw [← hc]; rfl
    dsimp only
    rw [perform_bind, hc]
    rcases perform_change_cases hcreate (htarget ▸ hr) with hmade | ⟨refusal, hrefused⟩
    · rw [hmade]
      exact .failed hr hb source hc.symm
    · rw [hrefused]
      exact .quiet nofun

/-- Where a value is missing for another reason than a reduction, nothing is done. -/
theorem Ends.ofExcept {α : Type} {value : Except EngineError α} {next : α → Access EngineError Status}
    (hno : ∀ who source, value ≠ .error (.reduction who source))
    (hn : ∀ a, value = .ok a → Ends id h ((next a).perform h)) :
    Ends id h ((Access.ofExcept value >>= next).perform h) := by
  rw [perform_bind, Access.perform_ofExcept]
  cases value with
  | ok a => exact hn a rfl
  | error refusal =>
    refine .quiet fun who source he => hno who source ?_
    cases he
    rfl

/-- Every run ends in one of these ways. -/
theorem ends_reduce (e : Engine) (clock : Nat → Instant) (id : InstanceId) (i : Injection)
    (h : Host) : Ends id h ((e.reduceBy clock id i).perform h) := by
  unfold reduceBy
  rw [perform_bind, Access.perform_relabel]
  rcases Access.record_cases id h with ⟨refusal, hrefused⟩ | ⟨r, hr, hfound⟩
  · rw [hrefused]
    exact .quiet nofun
  · rw [hfound]
    dsimp only [Except.mapError]
    cases hb : r.pending? with
    | none => exact .quiet nofun
    | some bytes =>
      apply Ends.ofExcept
      · unfold deployed
        split <;> exact nofun
      intro process _
      apply Ends.ofExcept
      · cases Checkpoint.read process.remap bytes <;> exact nofun
      intro soup _
      apply Ends.ofExcept
      · unfold Injection.into
        split
        · exact nofun
        · exact nofun
        · split <;> exact nofun
      intro sent _
      exact ends_proceed hr hb process.script sent

/-- A run that ends with an error did nothing, or marked its instance. -/
theorem Ends.of_error {did : Except EngineError Status × Host} (hd : Ends id h did)
    {refusal : EngineError} (herr : did.1 = .error refusal) :
    (did.2 = h ∧ ∀ who source, refusal ≠ .reduction who source) ∨
    ∃ r bytes source, h.store.get? id = some r ∧ r.pending? = some bytes ∧
      refusal = .reduction id source ∧
      did.2 = h.make (.markBroken id (source.message RunError.message)) r := by
  cases hd with
  | quiet hno =>
    refine .inl ⟨rfl, fun who source he => hno who source ?_⟩
    rw [← he]
    exact herr
  | failed hr hb source hc =>
    cases herr
    subst hc
    exact .inr ⟨_, _, source, hr, hb, rfl, rfl⟩
  | rested => cases herr

/-! ### Operations -/

/-- The record that a call creates, if it starts an instance of a deployed process. -/
def newborn? (e : Engine) (c : EngineCall) : Option Record :=
  match c.operation with
  | .start createdAt processId => (e.processes.get? processId).map fun d =>
    { instanceId := c.id, processId, createdAt, state := some (Checkpoint.write d.script.newSoup) }
  | _ => none

/-- The record from which a call runs its instance; a start creates it, if its name is free. -/
def origin? (e : Engine) (c : EngineCall) (s : Store) : Option Record :=
  match c.operation with
  | .start .. => match s.get? c.id with
    | some _ => none
    | none => e.newborn? c
  | _ => s.get? c.id

theorem newborn?_start {c : EngineCall} {createdAt : Instant} {processId : String} {d : Deployed}
    (hc : c.operation = .start createdAt processId) (hd : e.processes.get? processId = some d) :
    e.newborn? c = some { instanceId := c.id, processId, createdAt
                          state := some (Checkpoint.write d.script.newSoup) } := by
  unfold newborn?
  rw [hc]
  dsimp only
  rw [hd]
  rfl

/-- A record that a call creates is active, and its state is a new soup of its process. -/
theorem exists_of_newborn? {c : EngineCall} {r : Record} (hnew : e.newborn? c = some r) :
    (∃ createdAt, c.operation = .start createdAt r.processId) ∧ r.instanceId = c.id ∧
      r.status = .active ∧ ∃ d, e.processes.get? r.processId = some d ∧
        r.state = some (Checkpoint.write d.script.newSoup) := by
  unfold newborn? at hnew
  split at hnew
  · next createdAt processId hc =>
    obtain ⟨d, hd, rfl⟩ := Option.map_eq_some_iff.1 hnew
    exact ⟨⟨createdAt, hc⟩, rfl, rfl, d, hd, rfl⟩
  · cases hnew

/-- The host from which a call runs its instance: a start creates the record first. -/
inductive Begins (e : Engine) (c : EngineCall) (h : Host) : Host → Prop
  | stored (ho : e.origin? c h.store = h.store.get? c.id) : Begins e c h h
  | created {r : Record} (hnew : e.newborn? c = some r) (hid : r.instanceId = c.id)
      (hfree : h.store.get? c.id = none) : Begins e c h (h.make (.create r) r)

namespace Begins

variable {c : EngineCall} {h₀ : Host}

/-- What is run is the record that the call runs its instance from. -/
theorem origin?_eq (hb : Begins e c h h₀) : e.origin? c h.store = h₀.store.get? c.id := by
  cases hb with
  | stored ho => exact ho
  | @created r hnew hid hfree =>
    obtain ⟨⟨createdAt, hc⟩, -⟩ := exists_of_newborn? hnew
    have hget : (h.make (.create r) r).store.get? c.id = some r := h.store.get?_insert_self hid
    unfold origin?
    rw [hc, hget]
    dsimp only
    rw [hfree, hnew]

/-- Only a record is created before the run. -/
theorem journal_eq (hb : Begins e c h h₀) :
    ∃ changes : List Change, h₀.journal = h.journal ++ changes.map .change := by
  cases hb with
  | stored => exact ⟨[], (List.append_nil _).symm⟩
  | @created r => exact ⟨[.create r], rfl⟩

theorem store_eq (hb : Begins e c h h₀) : h₀.store = h.store ∨
    ∃ r, e.newborn? c = some r ∧ h.store.get? c.id = none ∧ h₀.store = h.store.insert r := by
  cases hb with
  | stored => exact .inl rfl
  | created hnew _ hfree => exact .inr ⟨_, hnew, hfree, rfl⟩

end Begins

/-- A start does nothing, or creates a record and runs the instance from there. -/
theorem perform_start_cases {c : EngineCall} {createdAt : Instant} {processId : String}
    (hc : c.operation = .start createdAt processId) (h : Host) :
    (∃ refusal, (∀ who source, refusal ≠ .reduction who source) ∧
      (e.start c.now c.id createdAt processId).perform h = (.error refusal, h)) ∨
    ∃ r, e.newborn? c = some r ∧ r.instanceId = c.id ∧ h.store.get? c.id = none ∧
      (e.start c.now c.id createdAt processId).perform h =
        (e.reduce c.now c.id .start).perform (h.make (.create r) r) := by
  unfold start startBy
  cases hd : e.processes.get? processId with
  | none =>
    have hunknown : e.deployed processId = .error (.unknownProcess processId) := by
      unfold deployed
      rw [hd]
    rw [perform_bind, hunknown]
    exact .inl ⟨.unknownProcess processId, nofun, rfl⟩
  | some d =>
    have hknown : e.deployed processId = .ok d := by
      unfold deployed
      rw [hd]
    rw [newborn?_start hc hd, perform_bind, hknown, Access.perform_ofExcept]
    dsimp only
    rw [perform_bind, Access.perform_relabel]
    rcases Access.create_cases _ h with ⟨hfree, hmade⟩ | ⟨refusal, hrefused⟩
    · rw [hmade]
      exact .inr ⟨_, rfl, rfl, hfree, rfl⟩
    · rw [hrefused]
      exact .inl ⟨.store refusal, nofun, rfl⟩

/-- A call does nothing, or its run ends in one of the ways of a run. -/
theorem ends_serve (e : Engine) (c : EngineCall) (h : Host) :
    (∃ refusal, (∀ who source, refusal ≠ .reduction who source) ∧
      (e.serve c).perform h = (.error refusal, h)) ∨
    ∃ h₀, Begins e c h h₀ ∧ Ends c.id h₀ ((e.serve c).perform h) := by
  unfold serve
  cases hc : c.operation with
  | start createdAt processId =>
    rcases perform_start_cases hc h with hrefused | ⟨r, hnew, hid, hfree, hrun⟩
    · exact .inl hrefused
    · refine .inr ⟨_, .created hnew hid hfree, ?_⟩
      dsimp only
      rw [hrun]
      exact ends_reduce e _ c.id .start _
  | deliver channel m =>
    refine .inr ⟨h, .stored ?_, ends_reduce e _ c.id _ h⟩
    unfold origin?
    rw [hc]
  | terminate =>
    refine .inr ⟨h, .stored ?_, ends_reduce e _ c.id _ h⟩
    unfold origin?
    rw [hc]

/-- **An operation that fails leaves what is stored as it was.**  On any host and whatever the
engine, a failed operation asks for no timer and changes no record but that of its instance.  If a
reduction failed, after however many others, the record from which the instance was run is marked
as broken, with the error as its fault and the bytes of its state as they were before.  For any
other error nothing is changed, but that a start may have created its record by then, which stays
active with the state of a new instance. -/
theorem error_keeps_state (e : Engine) (h : Host) (c : EngineCall) {refusal : EngineError}
    (herr : ((e.serve c).perform h).1 = .error refusal) :
    let after := ((e.serve c).perform h).2
    (∃ changes : List Change, after.journal = h.journal ++ changes.map .change) ∧
    (∀ other, other ≠ c.id → after.store.get? other = h.store.get? other) ∧
    (∀ id source, refusal = .reduction id source →
      id = c.id ∧ ∃ r bytes, e.origin? c h.store = some r ∧ r.status = .active ∧
        r.state = some bytes ∧ after.store.get? id = some
          { r with status := .broken, fault := some (source.message RunError.message) }) ∧
    ((∀ id source, refusal ≠ .reduction id source) →
      after.store = h.store ∨ ∃ r, e.newborn? c = some r ∧ h.store.get? c.id = none ∧
        after.store = h.store.insert r) := by
  intro after
  have hothers := (e.confined_serve c h).others
  rcases e.ends_serve c h with ⟨other, hno, hdid⟩ | ⟨h₀, hbegin, hend⟩
  · have hafter : after = h := congrArg Prod.snd hdid
    rw [hdid] at herr
    cases herr
    refine ⟨⟨[], ?_⟩, hothers, fun id source he => absurd he (hno id source), fun _ => .inl ?_⟩
    · rw [hafter, List.map_nil, List.append_nil]
    · rw [hafter]
  · obtain ⟨changes, hjournal⟩ := hbegin.journal_eq
    rcases hend.of_error herr with ⟨hafter, hno⟩ | ⟨r, bytes, source, hr, hb, rfl, hafter⟩
    · have hafter : after = h₀ := hafter
      rw [hafter]
      exact ⟨⟨changes, hjournal⟩, hafter ▸ hothers, fun id source he => absurd he (hno id source),
        fun _ => hbegin.store_eq⟩
    · obtain ⟨hactive, hstate⟩ := Record.active_of_pending? hb
      refine ⟨⟨changes ++ [.markBroken c.id (source.message RunError.message)], ?_⟩, hothers, ?_,
        fun hno => absurd rfl (hno c.id source)⟩
      · show ((e.serve c).perform h).2.journal = _
        rw [hafter]
        show h₀.journal ++ _ = _
        rw [hjournal, List.map_append, List.append_assoc]
        rfl
      · intro id source' he
        cases he
        refine ⟨rfl, r, bytes, by rw [hbegin.origin?_eq, hr], hactive, hstate, ?_⟩
        show ((e.serve c).perform h).2.store.get? c.id = _
        rw [hafter]
        exact Store.get?_insert_update hr _

/-- An engine for a day's wait beside an alarm that has no time. -/
def brittle : Engine :=
  ({ limit := 100
     evaluator := fun occasion =>
      { duration := fun e => match e with
          | "day" => .ok 86400000000000
          | _ => .error (.invalid ⟨e, .other "no duration"⟩)
        deadline := fun _ => .ok occasion.now } } : Engine).register
    { processId := "brittle", name := "brittle", root := 0
      activities :=
        [{ id := 0, name := none, kind := .scope 1 [⟨some "never", none, none, 2⟩] none },
         { id := 1, name := none, kind := .wait (.delay "day") },
         { id := 2, name := none, kind := .empty }] } ∅

/-- The start of such an instance. -/
def brittleStart : EngineCall := ⟨⟨0, 0⟩, 1, .start ⟨0, 0⟩ "brittle"⟩

/-- The body asks for its timer before the alarm fails; nothing of this is left but the record of a
new instance, marked as broken. -/
theorem error_keeps_state_brittle :
    ∃ source, ((brittle.serve brittleStart).perform {}).1 = .error (.reduction 1 source) ∧
    source.message RunError.message =
      "process error: invalid process: cannot evaluate 'never': no duration" ∧
    ∃ r bytes, brittle.newborn? brittleStart = some r ∧ r.state = some bytes ∧
      ((brittle.serve brittleStart).perform {}).2.store.get? 1 = some
        { r with status := .broken, fault := some (source.message RunError.message) } ∧
      ∃ changes : List Change,
        ((brittle.serve brittleStart).perform {}).2.journal = changes.map .change := by
  obtain ⟨d, hd, hroot, hremap, hfails⟩ : ∃ d, brittle.processes.get? "brittle" = some d ∧
      d.script.definition.root < 2 ^ 32 ∧ d.remap = ∅ ∧
      d.script.program.execute ⟨0, 0⟩ brittle.limit d.script.newSoup =
        .error (.process (.invalidProcess ⟨"never", .other "no duration"⟩)) :=
    ⟨_, rfl, by decide, rfl, by decide +kernel⟩
  have hread : Checkpoint.read d.remap (Checkpoint.write d.script.newSoup) =
      .ok d.script.newSoup := by
    rw [hremap]
    exact Checkpoint.read_write (Script.steady_newSoup _ hroot).fits
  have herr : ((brittle.serve brittleStart).perform {}).1 =
      .error (.reduction 1 (.process (.invalidProcess ⟨"never", .other "no duration"⟩))) := by
    have hby := (Program.execute_eq _ _ _ _).symm.trans hfails
    show ((brittle.start ⟨0, 0⟩ 1 ⟨0, 0⟩ "brittle").perform {}).1 = _
    rw [start, perform_start_of_free rfl hd ⟨0, 0⟩ rfl rfl hread,
      perform_proceed_of_error rfl (Store.get?_insert_self _ rfl) hby rfl]
  obtain ⟨⟨changes, hjournal⟩, -, hbroken, -⟩ := error_keeps_state brittle {} brittleStart herr
  obtain ⟨-, r, bytes, horigin, -, hstate, hafter⟩ := hbroken 1 _ rfl
  exact ⟨_, herr, by decide, r, bytes, horigin, hstate, hafter, changes, hjournal⟩

end Engine

end Perdure
