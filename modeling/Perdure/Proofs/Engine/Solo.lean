import Mathlib.Data.List.Infix
import Perdure.Proofs.Engine.Run
import Perdure.Proofs.Instance.History

/-!
# Every instance is a machine of its own

An engine keeps many instances in one store.  It reads the state of an instance back for every
operation, stores what becomes of it, and serves the instances in whatever order it is called.
Seen from one instance, none of this shows: what its operations come to, which timers are asked
for, and what is stored of it, are as with a machine that keeps the soup of this one instance in
memory and hears of its own operations only.

## Main definitions

* `Solo` — an instance kept in memory, with what is left of it once it is over.
* `Solo.ask` — what such an instance does when it is asked for something.
* `Engine.watch`, `Solo.watch` — all that can be seen of an instance in a history.
* `Mirrors` — the record of an instance agrees with the instance in memory.

## Main results

* `follows_ask` — an operation on an instance does as the instance in memory does.
* `Engine.Fits.watch_eq_solo` — no history of an engine differs from what its instances do alone.
-/

namespace Perdure

/-! ### What can be seen of an instance -/

/-- What is stored of how an instance stands. -/
structure Standing where
  status : Status
  fault : Option String
  /-- The bytes of the state. -/
  state : Option (List UInt8)
deriving DecidableEq

/-- How the instance of a record stands. -/
def Record.standing (r : Record) : Standing := ⟨r.status, r.fault, r.state⟩

/-- What an action asks the timers of an instance to do. -/
def Action.effectFor? (id : InstanceId) : Action → Option Effect
  | .change _ => none
  | .registerTimer id' channel deadline =>
    if id' = id then some (.registerTimer channel deadline) else none
  | .cancelTimer id' channel => if id' = id then some (.cancelTimer channel) else none

/-- What can be seen of an instance when an operation is done. -/
structure Sight where
  /-- What the operation came to, if it was one on this instance. -/
  result : Option (Except EngineError Status)
  /-- What the timers of the instance were asked to do, in order. -/
  calls : List Effect
  /-- How the instance stands in the store afterwards. -/
  standing : Option Standing

/-- What is seen of an instance when a host becomes another in a call. -/
def Sight.ofHosts (id : InstanceId) (c : EngineCall) (h : Host)
    (did : Except EngineError Status × Host) : Sight where
  result := if c.id = id then some did.1 else none
  calls := (did.2.journal.drop h.journal.length).filterMap (Action.effectFor? id)
  standing := (did.2.store.get? id).map Record.standing

/-- All that is seen of an instance in a history. -/
def Engine.watch (e : Engine) (id : InstanceId) : Host → List EngineCall → List Sight
  | _, [] => []
  | h, c :: rest =>
    let did := (e.serve c).perform h
    .ofHosts id c h did :: watch e id did.2 rest

/-! ### An instance in memory -/

/-- An instance by itself. -/
inductive Solo where
  | unborn
  /-- Its soup is kept in memory. -/
  | live (script : Script) (soup : InstanceSoup)
  /-- It came to its end; what is stored of it stays. -/
  | ended (standing : Standing)

/-- What an operation comes to, and what the timers of the instance are asked to do. -/
structure Reply where
  result : Except EngineError Status
  calls : List Effect := []

namespace Solo

/-- How the instance stands: as long as it lives, its state is the written soup. -/
def standing : Solo → Option Standing
  | .unborn => none
  | .live _ soup => some ⟨.active, none, some (Checkpoint.write soup)⟩
  | .ended standing => some standing

/-- Take the messages that the root activity has sent to the outside. -/
def heard (soup : InstanceSoup) : List Message × InstanceSoup :=
  match soup.global.root with
  | some root => soup.takeMessages root.parent
  | none => ([], soup)

/-- What becomes of an instance that came to rest, its effects and its first completion given.  At
its end the timers still armed are cancelled.  An instance that stops without completing keeps the
state it had `before`. -/
def conclude (script : Script) (before : InstanceSoup) (rest : Rest) (effects : List Effect)
    (completion : Option (Option Fault)) (soup : InstanceSoup) : Reply × Solo :=
  let cancels := soup.timers.keys.map .cancelTimer
  match completion with
  | some none => (⟨.ok .completed, effects ++ cancels⟩, .ended ⟨.completed, none, none⟩)
  | some (some fault) =>
    (⟨.ok .faulted, effects ++ cancels⟩, .ended ⟨.faulted, some fault.name, none⟩)
  | none => match rest with
    | .terminated => (⟨.ok .broken, effects ++ cancels⟩, .ended
        ⟨.broken, some "no listener left without completing", some (Checkpoint.write before)⟩)
    | .suspended => (⟨.ok .active, effects⟩, .live script soup)

/-- An instance comes to rest: its effects are handed over, and of the messages of the root activity
the first completion decides. -/
def settle (script : Script) (before : InstanceSoup)
    (outcome : Outcome Shared Task Receiver Message) : Reply × Solo :=
  let drained := outcome.soup.drainEffects
  let heard := heard drained.2
  conclude script before outcome.rest drained.1 (heard.1.findSome? Message.completion?) heard.2

/-- One run of an instance, from its soup with what was put in.  If the run fails, the instance
breaks and keeps the state it had `before`. -/
def run (limit : Nat) (now : Instant) (id : InstanceId) (script : Script)
    (before sent : InstanceSoup) : Reply × Solo :=
  match script.program.execute now limit sent with
  | .ok outcome => settle script before outcome
  | .error source => (⟨.error (.reduction id source), []⟩, .ended
      ⟨.broken, some (source.message RunError.message), some (Checkpoint.write before)⟩)

/-- What an instance does with what is put into its soup, unless there is nowhere to put it.  Once
it is over it drops everything. -/
def hear (limit : Nat) (now : Instant) (id : InstanceId) (solo : Solo)
    (put : InstanceSoup → Except EngineError InstanceSoup) : Reply × Solo :=
  match solo with
  | .unborn => (⟨.error (.store (.notFound id)), []⟩, solo)
  | .ended standing => (⟨.ok standing.status, []⟩, solo)
  | .live script soup => match put soup with
    | .ok sent => run limit now id script soup sent
    | .error refusal => (⟨.error refusal, []⟩, solo)

/-- What an instance does when it is asked for something. -/
def ask (e : Engine) (now : Instant) (id : InstanceId) (solo : Solo) : Operation → Reply × Solo
  | .start _ processId => match e.processes.get? processId with
    | none => (⟨.error (.unknownProcess processId), []⟩, solo)
    | some d => match solo with
      | .unborn => run e.limit now id d.script d.script.newSoup d.script.newSoup
      | _ => (⟨.error (.store (.alreadyExists id)), []⟩, solo)
  | .deliver channel m => solo.hear e.limit now id fun soup => .ok (soup.send channel m)
  | .terminate => solo.hear e.limit now id fun soup => match soup.global.root with
    | some root => .ok (soup.send root.termination .terminate)
    | none => .error (.notStarted id)

/-- The instance after a call, of which it hears only if the call is about itself. -/
def next (e : Engine) (id : InstanceId) (solo : Solo) (c : EngineCall) : Solo :=
  if c.id = id then (solo.ask e c.now id c.operation).2 else solo

/-- What is seen of the instance in a call. -/
def sight (e : Engine) (id : InstanceId) (solo : Solo) (c : EngineCall) : Sight :=
  if c.id = id then
    let (reply, solo) := solo.ask e c.now id c.operation
    ⟨some reply.result, reply.calls, solo.standing⟩
  else ⟨none, [], solo.standing⟩

/-- All that is seen of the instance in a history. -/
def watch (e : Engine) (id : InstanceId) : Solo → List EngineCall → List Sight
  | _, [] => []
  | solo, c :: rest => solo.sight e id c :: watch e id (solo.next e id c) rest

/-- The instance after a history. -/
def after (e : Engine) (id : InstanceId) (solo : Solo) (history : List EngineCall) : Solo :=
  history.foldl (next e id) solo

/-- The counters of the soup in memory are words. -/
def Counted : Solo → Prop
  | .live _ soup => soup.Counted
  | _ => True

end Solo

instance : (solo : Solo) → Decidable solo.Counted
  | .live _ soup => inferInstanceAs (Decidable soup.Counted)
  | .unborn => .isTrue trivial
  | .ended _ => .isTrue trivial

/-! ### What is taken for granted -/

/-- The deployed scripts fit, and no shape that a soup is stored with is renamed. -/
structure Engine.Fits (e : Engine) : Prop where
  script : ∀ {processId d}, e.processes.get? processId = some d → d.script.Fits
  remap : ∀ {processId d}, e.processes.get? processId = some d → d.remap.Spares InstanceSoup.shapes

/-- The numbers of what is put into a soup are words. -/
def Injection.Fits : Injection → Prop
  | .message channel m => channel < 2 ^ 64 ∧ m.Fits
  | _ => True

/-- The numbers of an operation are words. -/
def Operation.Fits : Operation → Prop
  | .deliver channel m => channel < 2 ^ 64 ∧ m.Fits
  | _ => True

/-- The clock of a call shows a valid time, and the numbers of its operation are words. -/
structure EngineCall.Fits (c : EngineCall) : Prop where
  now : c.now.Valid
  operation : c.operation.Fits

/-! ### The record and the instance in memory -/

/-- The record of an instance agrees with the instance in memory. -/
inductive Mirrors (e : Engine) : Solo → Option Record → Prop
  | unborn : Mirrors e .unborn none
  | live {script : Script} {soup : InstanceSoup} {r : Record} {remap : RemapTable}
      (hd : e.processes.get? r.processId = some ⟨script, remap⟩) (hstatus : r.status = .active)
      (hfault : r.fault = none) (hstate : r.state = some (Checkpoint.write soup))
      (hsteady : soup.Steady Instant.Valid) (houtbox : soup.outbox = []) :
      Mirrors e (.live script soup) (some r)
  | ended {r : Record} {standing : Standing} (hstanding : r.standing = standing)
      (hfinal : standing.status.isFinal = true) : Mirrors e (.ended standing) (some r)

/-- What was done on a host follows what an instance in memory does. -/
structure Follows (e : Engine) (id : InstanceId) (h : Host)
    (did : Except EngineError Status × Host) (told : Reply × Solo) : Prop where
  result : did.1 = told.1.result
  journal : ∃ acts, did.2.journal = h.journal ++ acts ∧
    acts.filterMap (Action.effectFor? id) = told.1.calls
  mirrors : Mirrors e told.2 (did.2.store.get? id)

variable {e : Engine} {id : InstanceId} {h : Host} {solo : Solo}

/-- A record that agrees with an instance in memory shows how it stands. -/
theorem Mirrors.standing {stored : Option Record} (hm : Mirrors e solo stored) :
    stored.map Record.standing = solo.standing := by
  cases hm with
  | unborn => rfl
  | live _ hstatus hfault hstate =>
    simp only [Option.map_some, Solo.standing, Record.standing, hstatus, hfault, hstate]
  | ended hstanding =>
    rw [Option.map_some, hstanding]
    rfl

/-! ### Runs -/

/-- The root activity is told to stop, if it has started. -/
theorem Injection.into_terminate_eq_ok {id : InstanceId} {soup sent : InstanceSoup}
    (h : Injection.terminate.into id soup = .ok sent) :
    ∃ root, soup.global.root = some root ∧ sent = soup.send root.termination .terminate := by
  unfold into at h
  dsimp only at h
  split at h
  · next root hroot =>
    cases h
    exact ⟨root, hroot, rfl⟩
  · cases h

/-- What is put into a lasting soup leaves it lasting. -/
theorem Soup.Lasting.into {T : Instant → Prop} {Q : Part → Prop} {soup sent : InstanceSoup}
    {id : InstanceId} {i : Injection} (h : soup.Lasting T Q) (hi : i.Fits)
    (hsent : i.into id soup = .ok sent) : sent.Lasting T Q := by
  cases i with
  | start =>
    cases hsent
    exact h
  | message channel m =>
    cases hsent
    exact h.send hi.1 hi.2
  | terminate =>
    obtain ⟨root, hroot, rfl⟩ := Injection.into_terminate_eq_ok hsent
    exact h.send (h.others.global.root root hroot).termination trivial

/-- The first completion among the messages heard is the one that is taken. -/
theorem takeCompletion_eq (soup : InstanceSoup) :
    takeCompletion soup =
      ((Solo.heard soup).1.findSome? Message.completion?, (Solo.heard soup).2) := by
  unfold takeCompletion Solo.heard
  cases soup.global.root with
  | none => rfl
  | some root => rfl

/-- What is heard is taken out of the queues and changes nothing else. -/
theorem heard_frame (soup : InstanceSoup) :
    (Solo.heard soup).2 = { soup with messages := (Solo.heard soup).2.messages } := by
  unfold Solo.heard
  cases soup.global.root with
  | none => rfl
  | some root => rfl

theorem Soup.Lasting.heard {T : Instant → Prop} {Q : Part → Prop} {soup : InstanceSoup}
    (hs : soup.Lasting T Q) : (Solo.heard soup).2.Lasting T Q := by
  unfold Solo.heard
  cases soup.global.root with
  | none => exact hs
  | some root => exact hs.takeMessages root.parent

/-- What an instance asks its timers for is what is written down for it. -/
theorem filterMap_effectFor?_enact (effects : List Effect) :
    (effects.map (Engine.enact id)).filterMap (Action.effectFor? id) = effects := by
  rw [List.filterMap_map]
  apply Json.filterMap_eq_self
  intro effect _
  cases effect <;> exact if_pos rfl

theorem filterMap_effectFor?_cancelTimer (armed : List Channel) :
    (armed.map (.cancelTimer id)).filterMap (Action.effectFor? id) =
      armed.map Effect.cancelTimer := by
  have hmap : armed.map (Action.cancelTimer id) =
      (armed.map Effect.cancelTimer).map (Engine.enact id) := by
    rw [List.map_map]
    rfl
  rw [hmap, filterMap_effectFor?_enact]

variable {now : Instant} {r : Record} {script : Script} {before : InstanceSoup}
  {outcome : Outcome Shared Task Receiver Message}

/-- A run that comes to rest follows whatever has its result and its calls and agrees with the
record that it leaves. -/
theorem follows_of_verdict (hf : h.failing = []) (hr : h.store.get? id = some r)
    {completion : Option (Option Fault)} {soup : InstanceSoup}
    (hc : takeCompletion outcome.soup.drainEffects.2 = (completion, soup)) {change : Change}
    {status : Status} (hv : Engine.verdict now id outcome.rest completion soup = (change, status))
    {told : Reply × Solo} (hresult : told.1.result = .ok status)
    (hcalls : told.1.calls = outcome.soup.outbox ++
      (if status.isFinal then soup.timers.keys else []).map .cancelTimer)
    (hmirrors : Mirrors e told.2 (some (change.update r))) :
    Follows e id h ((Engine.settle now id outcome).perform h) told := by
  rw [Engine.perform_settle hf hr outcome hc hv]
  refine { result := hresult.symm, journal := ⟨_, rfl, ?_⟩, mirrors := ?_ }
  · rw [hcalls, List.filterMap_cons_none rfl, List.filterMap_append, filterMap_effectFor?_enact,
      filterMap_effectFor?_cancelTimer]
  · rw [Store.get?_insert_update hr]
    exact hmirrors

/-- The process of an instance in memory is deployed. -/
theorem Mirrors.exists_remap (hm : Mirrors e (.live script before) (some r)) :
    ∃ remap, e.processes.get? r.processId = some ⟨script, remap⟩ := by
  cases hm with
  | live hd => exact ⟨_, hd⟩

/-- A record that agrees with an instance in memory still does so when it is marked as broken. -/
theorem Mirrors.broken (hm : Mirrors e (.live script before) (some r)) (reason : String) :
    Mirrors e (.ended ⟨.broken, some reason, some (Checkpoint.write before)⟩)
      (some { r with status := .broken, fault := some reason }) := by
  cases hm with
  | live _ _ _ hstate =>
    apply Mirrors.ended
    · rw [← hstate]
      rfl
    · rfl

/-- A record that agrees with an instance in memory goes on to do so when the new state is stored. -/
theorem Mirrors.stored (hm : Mirrors e (.live script before) (some r)) {soup : InstanceSoup}
    (hsteady : soup.Steady Instant.Valid) (houtbox : soup.outbox = []) :
    Mirrors e (.live script soup) (some { r with state := some (Checkpoint.write soup) }) := by
  cases hm with
  | live hd hstatus hfault => exact .live hd hstatus hfault rfl hsteady houtbox

/-- A run that comes to rest does what follows from its first completion. -/
theorem follows_conclude (hf : h.failing = []) (hr : h.store.get? id = some r)
    (hm : Mirrors e (.live script before) (some r)) {completion : Option (Option Fault)}
    {soup : InstanceSoup} (hc : takeCompletion outcome.soup.drainEffects.2 = (completion, soup))
    (houtbox : soup.outbox = [])
    (hsteady : completion = none → outcome.rest = .suspended → soup.Steady Instant.Valid) :
    Follows e id h ((Engine.settle now id outcome).perform h)
      (Solo.conclude script before outcome.rest outcome.soup.outbox completion soup) := by
  -- the first completion decides; without one the instance is stored, or stranded if nobody waits
  cases completion with
  | some fault =>
    cases fault with
    | none => exact follows_of_verdict hf hr hc rfl rfl rfl (.ended rfl rfl)
    | some fault => exact follows_of_verdict hf hr hc rfl rfl rfl (.ended rfl rfl)
  | none =>
    cases hrest : outcome.rest with
    | terminated =>
      have hv : Engine.verdict now id outcome.rest none soup =
          (.markBroken id Engine.strandedReason, .broken) := by
        rw [hrest]
        rfl
      exact follows_of_verdict hf hr hc hv rfl rfl (hm.broken _)
    | suspended =>
      have hv : Engine.verdict now id outcome.rest none soup =
          (.setState id (Checkpoint.write soup), .active) := by
        rw [hrest]
        rfl
      refine follows_of_verdict hf hr hc hv rfl ?_ (hm.stored (hsteady rfl hrest) houtbox)
      exact (List.append_nil _).symm

/-- What is put into an active instance is put into the soup that it has in memory. -/
theorem Mirrors.perform_reduce (hm : Mirrors e (.live script before) (some r)) (he : e.Fits)
    (hf : h.failing = []) (hr : h.store.get? id = some r) (i : Injection) :
    (e.reduce now id i).perform h = match i.into id before with
      | .error refusal => (.error refusal, h)
      | .ok sent => (e.proceed (fun _ => now) id script sent).perform h := by
  cases hm with
  | @live _ _ _ remap hd hstatus _ hstate hsteady houtbox =>
    have hpending : r.pending? = some (Checkpoint.write before) := by
      unfold Record.pending?
      rw [hstatus]
      exact hstate
    -- the stored state holds no effects, and neither does the soup in memory
    have hread : Checkpoint.read remap (Checkpoint.write before) = .ok before := by
      rw [Checkpoint.read_write_of_spares (he.remap hd) hsteady.fits, ← houtbox]
    exact Engine.perform_reduce hf hr hpending hd hread i

/-- A run of an active instance does what it does in memory. -/
theorem follows_run (he : e.Fits) (hf : h.failing = []) (hr : h.store.get? id = some r)
    (hm : Mirrors e (.live script before) (some r)) (hnow : now.Valid) {sent : InstanceSoup}
    (hsent : sent.Steady Instant.Valid)
    (hw : (Solo.run e.limit now id script before sent).2.Counted) :
    Follows e id h ((e.proceed (fun _ => now) id script sent).perform h)
      (Solo.run e.limit now id script before sent) := by
  unfold Solo.run at hw ⊢
  cases ho : script.program.execute now e.limit sent with
  | error source =>
    have hfails := (Program.execute_eq _ _ _ _).symm.trans ho
    rw [Engine.perform_proceed_of_error hf hr hfails rfl]
    refine { result := rfl, journal := ⟨_, rfl, rfl⟩, mirrors := ?_ }
    rw [Store.get?_insert_update hr]
    exact hm.broken _
  | ok outcome =>
    rw [ho] at hw
    unfold Engine.proceed
    rw [← Program.execute_eq, ho]
    refine follows_conclude hf hr hm (takeCompletion_eq _) ?_ ?_
    · rw [heard_frame]
      rfl
    · intro hnone hrest
      obtain ⟨remap, hd⟩ := hm.exists_remap
      -- the counters of a soup that goes on are those that the run ended with
      have hcounted : outcome.soup.Counted := by
        dsimp only [Solo.settle] at hw
        rw [hnone, hrest] at hw
        have hw : (Solo.heard outcome.soup.drainEffects.2).2.Counted := hw
        rw [heard_frame] at hw
        exact ⟨hw.channels, hw.numbers⟩
      exact ((he.script hd).over.steady_of_execute hnow hsent ho hcounted).drainEffects.heard

/-! ### Operations -/

/-- Where nothing is done, an instance in memory does nothing either. -/
theorem follows_of_idle (hm : Mirrors e solo (h.store.get? id)) (result : Except EngineError Status) :
    Follows e id h (result, h) (⟨result, []⟩, solo) where
  result := rfl
  journal := ⟨[], (List.append_nil _).symm, rfl⟩
  mirrors := hm

/-- The record of a new instance does not ask for timers. -/
theorem Follows.after_create {told : Reply × Solo} {store : Store}
    {did : Except EngineError Status × Host}
    (hd : Follows e id { h with store, journal := h.journal ++ [.change (.create r)] } did told) :
    Follows e id h did told where
  result := hd.result
  journal := by
    obtain ⟨acts, hacts, hcalls⟩ := hd.journal
    refine ⟨.change (.create r) :: acts, ?_, ?_⟩
    · rw [hacts, List.append_assoc]
      rfl
    · rw [List.filterMap_cons_none rfl, hcalls]
  mirrors := hd.mirrors

/-- The start of an instance does what it does in memory. -/
theorem follows_start (he : e.Fits) (hf : h.failing = []) (hm : Mirrors e solo (h.store.get? id))
    (hnow : now.Valid) (createdAt : Instant) (processId : String)
    (hw : (solo.ask e now id (.start createdAt processId)).2.Counted) :
    Follows e id h ((e.start now id createdAt processId).perform h)
      (solo.ask e now id (.start createdAt processId)) := by
  unfold Solo.ask at hw ⊢
  dsimp only at hw ⊢
  cases hd : e.processes.get? processId with
  | none =>
    rw [Engine.start, Engine.perform_start_of_unknown hd]
    exact follows_of_idle hm _
  | some d =>
    rw [hd] at hw
    have hmirrors := hm
    generalize hr : ({ instanceId := id, processId, createdAt
                       state := some (Checkpoint.write d.script.newSoup) } : Record) = r
    rw [Engine.start, Engine.perform_start hf hd createdAt hr.symm]
    generalize h.store.get? id = stored at hm
    cases hm with
    | live | ended => exact follows_of_idle hmirrors _
    | unborn =>
      -- the record of the new instance holds what the instance has in memory
      have hnew := (he.script hd).steady_newSoup
      have hlive : Mirrors e (.live d.script d.script.newSoup) (some r) := by
        subst hr
        exact .live hd rfl rfl rfl hnew rfl
      have hget : (h.store.insert r).get? id = some r :=
        h.store.get?_insert_self (by rw [← hr])
      have hworks : ({ h with store := h.store.insert r
                              journal := h.journal ++ [.change (.create r)] } : Host).failing = [] :=
        hf
      apply Follows.after_create
      rw [← Engine.reduce, hlive.perform_reduce he hworks hget]
      exact follows_run he hworks hget hlive hnow hnew hw

/-- Whatever is put into an instance, it does what it does in memory. -/
theorem follows_hear (he : e.Fits) (hf : h.failing = []) (hm : Mirrors e solo (h.store.get? id))
    (hnow : now.Valid) {i : Injection} (hi : i.Fits)
    (hw : (solo.hear e.limit now id (i.into id)).2.Counted) :
    Follows e id h ((e.reduce now id i).perform h) (solo.hear e.limit now id (i.into id)) := by
  have hmirrors := hm
  generalize hstored : h.store.get? id = stored at hm
  -- only an active instance has a state to put something into
  cases hm with
  | unborn =>
    rw [Engine.reduce, Engine.perform_reduce_of_missing hf hstored]
    exact follows_of_idle hmirrors _
  | ended hstanding hfinal =>
    subst hstanding
    rw [Engine.reduce, Engine.perform_reduce_of_final hf hstored hfinal]
    exact follows_of_idle hmirrors _
  | @live script soup r remap hd hstatus hfault hstate hsteady houtbox =>
    rw [hstored] at hmirrors
    unfold Solo.hear at hw ⊢
    dsimp only at hw ⊢
    cases hsent : i.into id soup with
    | ok sent =>
      rw [hsent] at hw
      rw [hmirrors.perform_reduce he hf hstored i, hsent]
      exact follows_run he hf hstored hmirrors hnow (hsteady.into hi hsent) hw
    | error refusal =>
      rw [hmirrors.perform_reduce he hf hstored i, hsent]
      exact follows_of_idle (hstored ▸ hmirrors) _

/-- An operation on an instance does as the instance does in memory. -/
theorem follows_ask (he : e.Fits) (hf : h.failing = []) (hm : Mirrors e solo (h.store.get? id))
    {c : EngineCall} (hc : c.Fits) (hid : c.id = id)
    (hw : (solo.ask e c.now id c.operation).2.Counted) :
    Follows e id h ((e.serve c).perform h) (solo.ask e c.now id c.operation) := by
  obtain ⟨now, cid, operation⟩ := c
  subst hid
  cases operation with
  | start createdAt processId => exact follows_start he hf hm hc.now createdAt processId hw
  | deliver channel m => exact follows_hear (i := .message channel m) he hf hm hc.now hc.operation hw
  | terminate => exact follows_hear (i := .terminate) he hf hm hc.now trivial hw

/-! ### Histories -/

/-- What is done about another instance is no call for the timers of this one. -/
theorem Action.effectFor?_of_subject_ne {a : Action} (ha : a.subject ≠ id) :
    a.effectFor? id = none := by
  cases a with
  | change c => rfl
  | registerTimer | cancelTimer => exact if_neg ha

/-- What is seen of an instance in a call about another one is nothing new. -/
theorem sight_of_ne (hm : Mirrors e solo (h.store.get? id)) {c : EngineCall} (hid : c.id ≠ id) :
    Sight.ofHosts id c h ((e.serve c).perform h) = solo.sight e id c := by
  obtain ⟨-, hothers, acts, hjournal, hacts⟩ := e.confined_serve c h
  have hcalls : acts.filterMap (Action.effectFor? id) = [] := by
    rw [List.filterMap_eq_nil_iff]
    intro a ha
    apply Action.effectFor?_of_subject_ne
    rw [hacts a ha]
    exact hid
  unfold Sight.ofHosts Solo.sight
  rw [if_neg hid, if_neg hid, hjournal, List.drop_left, hcalls, hothers id hid.symm, hm.standing]

/-- What is seen of an instance in a call about itself is what it does in memory. -/
theorem Follows.sight_eq {c : EngineCall} (hid : c.id = id)
    {did : Except EngineError Status × Host}
    (hd : Follows e id h did (solo.ask e c.now id c.operation)) :
    Sight.ofHosts id c h did = solo.sight e id c := by
  obtain ⟨acts, hjournal, hcalls⟩ := hd.journal
  unfold Sight.ofHosts Solo.sight
  rw [if_pos hid, if_pos hid, hjournal, List.drop_left, hcalls, hd.mirrors.standing, hd.result]

/-- One call shows of an instance what the instance in memory shows, and keeps the two together. -/
theorem sight_and_mirrors (he : e.Fits) (hf : h.failing = []) (hm : Mirrors e solo (h.store.get? id))
    {c : EngineCall} (hc : c.Fits) (hw : (solo.next e id c).Counted) :
    Sight.ofHosts id c h ((e.serve c).perform h) = solo.sight e id c ∧
      Mirrors e (solo.next e id c) (((e.serve c).perform h).2.store.get? id) := by
  unfold Solo.next at hw ⊢
  by_cases hid : c.id = id
  · rw [if_pos hid] at hw ⊢
    have hfollows := follows_ask he hf hm hc hid hw
    exact ⟨hfollows.sight_eq hid, hfollows.mirrors⟩
  · rw [if_neg hid]
    have hothers := (e.confined_serve c h).others id fun heq => hid heq.symm
    refine ⟨sight_of_ne hm hid, ?_⟩
    rw [hothers]
    exact hm

/-- From agreeing hosts and instances on, a history shows the same of both. -/
theorem watch_eq_of_mirrors (he : e.Fits) {history : List EngineCall} (hf : h.failing = [])
    (hm : Mirrors e solo (h.store.get? id)) (hcalls : ∀ c ∈ history, c.Fits)
    (hw : ∀ past, past <+: history → (solo.after e id past).Counted) :
    e.watch id h history = solo.watch e id history := by
  -- along the history, what one call leaves is what the rest of it starts from
  induction history generalizing h solo with
  | nil => rfl
  | cons c rest ih =>
    have hfirst : (solo.next e id c).Counted := hw [c] ⟨rest, rfl⟩
    obtain ⟨hsight, hmirrors⟩ :=
      sight_and_mirrors he hf hm (hcalls c List.mem_cons_self) hfirst
    have hfailing : ((e.serve c).perform h).2.failing = [] := by
      rw [(e.confined_serve c h).failing, hf]
    have hrest := ih hfailing hmirrors (fun d hd => hcalls d (List.mem_cons_of_mem c hd)) <| by
      intro past hpast
      exact hw (c :: past) (List.prefix_cons_inj c |>.2 hpast)
    unfold Engine.watch Solo.watch
    dsimp only
    rw [hsight, hrest]

/-- Each instance of an engine behaves as a machine of its own.  In every history of operations on
any number of instances, in any order and each at a time that the clock was set to, all that is seen
of an instance is what is seen of one that is kept in memory and hears of its own operations only:
the results of its operations, the calls for its timers in their order, and after every operation
its stored status, fault and state.  The scripts deployed fit, no shape that is in use is renamed, and the instance
never uses up the words for its channels and numbers. -/
theorem Engine.Fits.watch_eq_solo (he : e.Fits) (id : InstanceId) {history : List EngineCall}
    (hcalls : ∀ c ∈ history, c.Fits)
    (hw : ∀ past, past <+: history → (Solo.unborn.after e id past).Counted) :
    e.watch id {} history = Solo.unborn.watch e id history :=
  watch_eq_of_mirrors he rfl .unborn hcalls hw

/-- An engine to which vigils are deployed, which used to write one of its shapes in another way. -/
def vigils : Engine :=
  ({ evaluator := Script.vigil.evaluator, limit := 100 } : Engine).register Script.vigil.definition
    (Table.ofList [("wait", "wait-activity")])

theorem vigils_fits : vigils.Fits := by
  have hget {processId : String} {d : Deployed} (hd : vigils.processes.get? processId = some d) :
      d = ⟨Script.vigil, Table.ofList [("wait", "wait-activity")]⟩ := by
    unfold vigils Engine.register at hd
    rw [Table.get?_insert] at hd
    split at hd
    · exact (Option.some.inj hd).symm
    · cases hd
  refine { script := ?_, remap := ?_ }
  · intro _ d hd
    rw [hget hd]
    exact Script.vigil_fits
  · intro _ d hd
    rw [hget hd]
    unfold RemapTable.Spares
    decide +kernel

/-- Two vigils start; the second is told to stop, then an alarm of the first goes off, and when the
first is told to stop as well, another timeout comes too late. -/
def vigilCalls : List EngineCall :=
  [⟨⟨0, 0⟩, 1, .start ⟨0, 0⟩ "vigil"⟩, ⟨⟨0, 0⟩, 2, .start ⟨0, 0⟩ "vigil"⟩,
    ⟨⟨1, 0⟩, 2, .terminate⟩, ⟨⟨3600, 0⟩, 1, .deliver 9 .timeout⟩, ⟨⟨3601, 0⟩, 1, .terminate⟩,
    ⟨⟨7200, 0⟩, 1, .deliver 12 .timeout⟩]

theorem vigilCalls_fit : ∀ c ∈ vigilCalls, c.Fits := by
  intro c hc
  simp only [vigilCalls, List.mem_cons, List.not_mem_nil, or_false] at hc
  rcases hc with rfl | rfl | rfl | rfl | rfl | rfl
  all_goals exact { now := ⟨by decide, .inl (by decide)⟩, operation := by trivial }

/-- The first of two vigils is seen to do what it does alone, whatever becomes of the second. -/
theorem watch_eq_solo_vigil :
    vigils.Fits ∧ (∀ c ∈ vigilCalls, c.Fits) ∧
    (∀ past, past <+: vigilCalls → (Solo.unborn.after vigils 1 past).Counted) ∧
    vigils.watch 1 {} vigilCalls = Solo.unborn.watch vigils 1 vigilCalls ∧
    (vigils.watch 1 {} vigilCalls).map Sight.calls =
      [[.registerTimer 8 ⟨86400, 0⟩, .registerTimer 9 ⟨3600, 0⟩], [], [],
        [.registerTimer 12 ⟨7200, 0⟩], [.cancelTimer 8, .cancelTimer 12], []] := by
  have hw (past : List EngineCall) (hpast : past <+: vigilCalls) :
      (Solo.unborn.after vigils 1 past).Counted := by
    have hall : ∀ past ∈ vigilCalls.inits, (Solo.unborn.after vigils 1 past).Counted := by
      decide +kernel
    exact hall past ((List.mem_inits past vigilCalls).2 hpast)
  have hsame := vigils_fits.watch_eq_solo 1 vigilCalls_fit hw
  refine ⟨vigils_fits, vigilCalls_fit, hw, hsame, ?_⟩
  rw [hsame]
  decide +kernel

end Perdure
