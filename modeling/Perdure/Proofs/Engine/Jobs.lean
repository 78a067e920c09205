import Perdure.Proofs.Engine.Endings
import Perdure.Proofs.Engine.Lifecycle
import Perdure.Proofs.Engine.Renewal

/-!
# Runs and renewals cut in two

A run loads the record of an instance and goes on from there to what it stores; a renewal does the
same from the state alone.  Whatever happens to the record in between, what the second half stores
never makes an instance active again, and where a run tells that the lock may be forgotten the
instance is over.

## Main definitions

* `Engine.resume`, `Migration.resume` — a run and a renewal after they have loaded.
* `Job` — a run or a renewal, and the calls that fail while it lasts.
* `Job.load`, `Job.finish`, `Job.whole` — its halves, and all of it.
* `Store.Alive` — the instance is active.
* `Store.Lingers` — the instance is over and has a state.

## Main results

* `Job.finish_load` — the two halves of a job come to the whole.
* `Job.alive_of_finish`, `Job.not_alive_of_finish` — what the second half does to an instance.
* `Job.finish_of_renewed` — after the end of an instance a half that loaded before another renewal
  still does what the whole would do now.
-/

namespace Perdure

open Access (perform_bind perform_forM_timer)

/-! ### After loading -/

/-- What is left of a run once the record is loaded. -/
def Engine.resume (e : Engine) (clock : Nat → Instant) (id : InstanceId) (i : Injection)
    (r : Record) : Access EngineError Status :=
  match r.pending? with
  | none => pure r.status
  | some bytes => do
    let process ← Access.ofExcept (e.deployed r.processId)
    let soup ← Access.ofExcept ((Checkpoint.read process.remap bytes).mapError (.corruptState id))
    let soup ← Access.ofExcept (i.into id soup)
    e.proceed clock id process.script soup

/-- What is left of a renewal once the state is loaded. -/
def Migration.resume (remap : RemapTable) (id : InstanceId) (state : Option (List UInt8)) :
    Access MigrationError Unit := do
  match state with
  | none => pure ()
  | some bytes => match ← Access.ofExcept (renewed? remap bytes) with
    | none => pure ()
    | some bytes => (Access.change (.setState id bytes)).relabel .store

theorem Engine.reduceBy_eq (e : Engine) (clock : Nat → Instant) (id : InstanceId) (i : Injection) :
    e.reduceBy clock id i = (Access.record id).relabel .store >>= e.resume clock id i := rfl

theorem Migration.ofInstance_eq (remap : RemapTable) (id : InstanceId) :
    ofInstance remap id = (Access.state id).relabel .store >>= resume remap id := rfl

/-- Does a run let the lock of its instance be forgotten?  It does when it has stored the end of the
instance. -/
def Record.forgets (r : Record) : Except EngineError Status → Bool
  | .ok status => r.pending?.isSome && status.isFinal
  | .error _ => false

/-! ### Jobs -/

/-- What is to be done at an instance. -/
inductive Errand where
  | run (e : Engine) (clock : Nat → Instant) (i : Injection)
  | renew (remap : RemapTable)

/-- What is to be done, and the kinds of calls that fail while it is done. -/
structure Job where
  errand : Errand
  failing : List CallKind := []

/-- What a job has loaded. -/
inductive Found where
  | record (r : Except EngineError Record)
  | state (s : Except MigrationError (Option (List UInt8)))

namespace Job

/-- The host of a job. -/
def host (job : Job) (store : Store) : Host := { store, failing := job.failing }

/-- Load what the job starts from. -/
def load (id : InstanceId) (job : Job) (store : Store) : Found :=
  match job.errand with
  | .run .. => .record (((Access.record id).relabel .store).perform (job.host store)).1
  | .renew _ => .state (((Access.state id).relabel .store).perform (job.host store)).1

/-- Do the job from what was loaded: the store after it, and is the lock to be forgotten? -/
def finish (id : InstanceId) (job : Job) (found : Found) (store : Store) : Store × Bool :=
  match job.errand, found with
  | .run e clock i, .record (.ok r) =>
    let done := (e.resume clock id i r).perform (job.host store)
    (done.2.store, r.forgets done.1)
  | .renew remap, .state (.ok s) =>
    (((Migration.resume remap id s).perform (job.host store)).2.store, false)
  | _, _ => (store, false)

/-- The store after the job is done as a whole. -/
def whole (id : InstanceId) (job : Job) (store : Store) : Store :=
  match job.errand with
  | .run e clock i => ((e.reduceBy clock id i).perform (job.host store)).2.store
  | .renew remap => ((Migration.ofInstance remap id).perform (job.host store)).2.store

end Job

namespace Job

variable {id : InstanceId} {job : Job} {store : Store}

/-- The two halves of a job come to the whole. -/
theorem finish_load (id : InstanceId) (job : Job) (store : Store) :
    (job.finish id (job.load id store) store).1 = job.whole id store := by
  obtain ⟨errand, failing⟩ := job
  unfold whole finish load
  cases errand with
  | run e clock i =>
    dsimp only
    rw [Engine.reduceBy_eq, Access.perform_bind, Access.perform_relabel]
    rcases Access.record_cases id (host ⟨.run e clock i, failing⟩ store) with
      ⟨refusal, hload⟩ | ⟨r, -, hload⟩ <;> rw [hload] <;> rfl
  | renew remap =>
    dsimp only
    rw [Migration.ofInstance_eq, Access.perform_bind, Access.perform_relabel]
    rcases Access.state_cases id (host ⟨.renew remap, failing⟩ store) with
      ⟨refusal, hload⟩ | ⟨r, -, hload⟩ <;> rw [hload] <;> rfl

end Job

/-! ### What a job stores -/

/-- A change that makes no instance active that was not. -/
def Change.Settles (c : Change) : Prop :=
  ∀ r : Record, (c.update r).status = .active → r.status = .active

/-- From one store to the next the record of an instance stays or takes a change, and it does not
become active. -/
inductive Store.Settled (id : InstanceId) (s : Store) : Store → Prop
  | same : Settled id s s
  | made {c : Change} {y : Record} (hy : s.get? id = some y) (hc : c.Settles) :
      Settled id s (s.insert (c.update y))

/-- An instance is there and active. -/
def Store.Alive (id : InstanceId) (s : Store) : Prop :=
  ∃ r, s.get? id = some r ∧ r.status = .active

/-- An instance is over, and a state of it is there all the same.  The end of an instance takes its
state away, unless it is broken. -/
def Store.Lingers (id : InstanceId) (s : Store) : Prop :=
  ∃ r, s.get? id = some r ∧ r.status ≠ .active ∧ r.state ≠ none

theorem Store.Lingers.not_alive {id : InstanceId} {s : Store} (h : s.Lingers id) :
    ¬ s.Alive id := by
  rintro ⟨r, hr, hactive⟩
  obtain ⟨r', hr', hover, -⟩ := h
  cases hr.symm.trans hr'
  exact hover hactive

theorem Store.Settled.alive {id : InstanceId} {s s' : Store} (h : s.Settled id s')
    (halive : s'.Alive id) : s.Alive id := by
  cases h with
  | same => exact halive
  | made hy hc =>
    obtain ⟨r, hr, hactive⟩ := halive
    rw [Store.get?_insert_update hy] at hr
    cases hr
    exact ⟨_, hy, hc _ hactive⟩

namespace Engine

variable {now : Instant} {id : InstanceId} {r : Record}

theorem settles_verdict (now : Instant) (id : InstanceId) (rest : Rest)
    (completion : Option (Option Fault)) (soup : InstanceSoup) :
    (verdict now id rest completion soup).1.Settles := by
  intro r hr
  cases completion with
  | some fault => cases fault <;> cases hr
  | none => cases rest with
    | terminated => cases hr
    | suspended => exact hr

/-- Where the verdict is final, the record is. -/
theorem status_update_verdict {rest : Rest} {completion : Option (Option Fault)}
    {soup : InstanceSoup} (hf : (verdict now id rest completion soup).2.isFinal = true)
    (y : Record) : ((verdict now id rest completion soup).1.update y).status ≠ .active := by
  cases completion with
  | some fault => cases fault <;> exact nofun
  | none => cases rest with
    | terminated => exact nofun
    | suspended => cases hf

/-- What comes of a run from a record that was loaded. -/
structure Comes (id : InstanceId) (r : Record) (h : Host)
    (done : Except EngineError Status × Host) : Prop where
  settled : h.store.Settled id done.2.store
  /-- Where the lock is to be forgotten, the instance is over. -/
  final : r.forgets done.1 = true → ∀ y, done.2.store.get? id = some y → y.status ≠ .active

theorem Comes.error {source : EngineError} : Comes id r h (.error source, h) :=
  ⟨.same, nofun⟩

theorem comes_settle (outcome : Outcome Shared Task Receiver Message) :
    Comes id r h ((settle now id outcome).perform h) := by
  rcases hcompletion : takeCompletion outcome.soup.drainEffects.2 with ⟨completion, soup⟩
  rcases hv : verdict now id outcome.rest completion soup with ⟨change, status⟩
  have htarget := target_verdict now id outcome.rest completion soup
  have hcreate := verdict_ne_create now id outcome.rest completion soup
  have hsettles := settles_verdict now id outcome.rest completion soup
  have hfinal := @status_update_verdict now id outcome.rest completion soup
  rw [hv] at htarget hcreate hsettles hfinal
  rw [settle_eq outcome hcompletion hv, perform_bind, Access.perform_relabel]
  rcases Access.update_cases hcreate h with ⟨y, hy, hmade⟩ | ⟨refusal, hrefused⟩
  · rw [htarget] at hy
    rw [hmade]
    simp only [Except.mapError, perform_bind, perform_forM_timer, Access.perform_pure]
    refine ⟨.made hy hsettles, fun hforgets z hz => ?_⟩
    rw [Host.make, Store.get?_insert_update hy] at hz
    cases hz
    exact hfinal ((Bool.and_eq_true _ _).mp hforgets).2 y
  · rw [hrefused]
    exact .error

theorem comes_resume (e : Engine) (clock : Nat → Instant) (id : InstanceId) (i : Injection)
    (r : Record) (h : Host) : Comes id r h ((e.resume clock id i r).perform h) := by
  unfold resume
  cases hb : r.pending? with
  | none =>
    refine ⟨.same, fun hforgets => ?_⟩
    have hpending := ((Bool.and_eq_true _ _).mp hforgets).1
    rw [hb] at hpending
    cases hpending
  | some bytes =>
    dsimp only
    rw [perform_bind, Access.perform_ofExcept]
    cases e.deployed r.processId with
    | error source => exact .error
    | ok process =>
      dsimp only
      rw [perform_bind, Access.perform_ofExcept]
      cases (Checkpoint.read process.remap bytes).mapError (EngineError.corruptState id) with
      | error source => exact .error
      | ok soup =>
        dsimp only
        rw [perform_bind, Access.perform_ofExcept]
        cases i.into id soup with
        | error source => exact .error
        | ok sent =>
          dsimp only
          unfold proceed
          cases (process.script.program.executeBy clock e.limit sent).outcome with
          | ok outcome => exact comes_settle outcome
          | error source =>
            dsimp only
            rw [perform_bind, Access.perform_relabel]
            rcases Access.update_cases (c := .markBroken id (source.message RunError.message))
              nofun h with ⟨y, hy, hmade⟩ | ⟨refusal, hrefused⟩
            · rw [hmade]
              exact ⟨.made hy nofun, nofun⟩
            · rw [hrefused]
              exact .error

end Engine

namespace Migration

variable {remap : RemapTable} {id : InstanceId} {h : Host}

/-- A renewal stores the renewed state or nothing. -/
theorem resume_cases (remap : RemapTable) (id : InstanceId) (state : Option (List UInt8))
    (h : Host) :
    ((resume remap id state).perform h).2.store = h.store ∨
      ∃ bytes new y, state = some bytes ∧ renewed? remap bytes = .ok (some new) ∧
        h.store.get? id = some y ∧
        ((resume remap id state).perform h).2.store = h.store.insert { y with state := some new } := by
  unfold resume
  cases state with
  | none => exact .inl rfl
  | some bytes =>
    dsimp only
    rw [perform_bind, Access.perform_ofExcept]
    cases hnew : renewed? remap bytes with
    | error e => exact .inl rfl
    | ok renewed => cases renewed with
      | none => exact .inl rfl
      | some new =>
        dsimp only
        rw [Access.perform_relabel]
        rcases Access.update_cases (c := .setState id new) nofun h with
          ⟨y, hy, hmade⟩ | ⟨refusal, hrefused⟩
        · rw [hmade]
          exact .inr ⟨bytes, new, y, rfl, hnew, hy, rfl⟩
        · rw [hrefused]
          exact .inl rfl

end Migration

namespace Job

variable {id : InstanceId} {job : Job} {found : Found} {store : Store}

theorem settled_finish (id : InstanceId) (job : Job) (found : Found) (store : Store) :
    store.Settled id (job.finish id found store).1 := by
  unfold finish
  split
  · next e clock i r _ => exact (Engine.comes_resume e clock id i r (job.host store)).settled
  · next remap state _ =>
    rcases Migration.resume_cases remap id state (job.host store) with
      hsame | ⟨_, new, y, -, -, hy, hmade⟩
    · rw [hsame]
      exact .same
    · rw [hmade]
      exact .made (c := .setState id new) hy fun _ hactive => hactive
  · exact .same

/-- What a job stores makes no instance active. -/
theorem alive_of_finish (h : (job.finish id found store).1.Alive id) : store.Alive id :=
  (settled_finish id job found store).alive h

/-- Where the lock is to be forgotten, the instance is over. -/
theorem not_alive_of_finish (h : (job.finish id found store).2 = true) :
    ¬ (job.finish id found store).1.Alive id := by
  unfold finish at h ⊢
  split at h
  · next e clock i r _ =>
    rintro ⟨y, hy, hactive⟩
    exact (Engine.comes_resume e clock id i r (job.host store)).final h y hy hactive
  · cases h
  · cases h

/-! ### After the end of an instance -/

/-- A job that loads an instance which is over stores nothing, or the renewed state. -/
theorem finish_of_not_alive {x : Store} (hx : ¬ x.Alive id) (job : Job) (store : Store) :
    (job.finish id (job.load id x) store).1 = store ∨
      ∃ remap r bytes new y, job.errand = .renew remap ∧ x.get? id = some r ∧
        r.state = some bytes ∧ Migration.renewed? remap bytes = .ok (some new) ∧
        store.get? id = some y ∧
        (job.finish id (job.load id x) store).1 = store.insert { y with state := some new } := by
  obtain ⟨errand, failing⟩ := job
  unfold finish load
  cases errand with
  | run e clock i =>
    dsimp only
    rw [Access.perform_relabel]
    rcases Access.record_cases id (host ⟨.run e clock i, failing⟩ x) with
      ⟨refusal, hload⟩ | ⟨r, hr, hload⟩ <;> rw [hload]
    · exact .inl rfl
    · have hover : r.pending? = none :=
        Option.eq_none_iff_forall_ne_some.2 fun bytes hb =>
          hx ⟨r, hr, (Record.active_of_pending? hb).1⟩
      refine .inl ?_
      simp only [Except.mapError]
      unfold Engine.resume
      rw [hover]
      rfl
  | renew remap =>
    dsimp only
    rw [Access.perform_relabel]
    rcases Access.state_cases id (host ⟨.renew remap, failing⟩ x) with
      ⟨refusal, hload⟩ | ⟨r, hr, hload⟩ <;> rw [hload]
    · exact .inl rfl
    · rcases Migration.resume_cases remap id r.state (host ⟨.renew remap, failing⟩ store) with
        hsame | ⟨bytes, new, y, hbytes, hnew, hy, hmade⟩
      · exact .inl hsame
      · exact .inr ⟨remap, r, bytes, new, y, rfl, hr, hbytes, hnew, hy, hmade⟩

/-- A job that loaded an instance which is over stores nothing, or a state is there afterwards. -/
theorem eq_or_lingers_finish {x : Store} (hx : ¬ x.Alive id) (hs : ¬ store.Alive id) :
    (job.finish id (job.load id x) store).1 = store ∨
      (job.finish id (job.load id x) store).1.Lingers id := by
  rcases finish_of_not_alive hx job store with hsame | ⟨_, _, _, new, y, -, -, -, -, hy, hmade⟩
  · exact .inl hsame
  · refine .inr ⟨{ y with state := some new }, ?_, fun hactive => hs ⟨y, hy, hactive⟩, nofun⟩
    rw [hmade]
    exact Store.get?_insert_update (c := .setState id new) hy

/-! ### Jobs where no call fails -/

section

variable {e : Engine} {clock : Nat → Instant} {i : Injection} {t : RemapTable} {r y : Record}

/-- A run does all of its work from what it loads. -/
theorem finish_load_run (hr : store.get? id = some r) :
    let done := (e.reduceBy clock id i).perform { store }
    finish id { errand := .run e clock i } (load id { errand := .run e clock i } store) store =
      (done.2.store, r.forgets done.1) := by
  have hrecord := Engine.perform_record_of_get? (h := { store }) rfl hr
  unfold finish load host
  dsimp only
  rw [Engine.reduceBy_eq, perform_bind, hrecord]

/-- A renewal puts what it makes of the state that it loaded into the record that it finds. -/
theorem finish_renew {x : Store} {bytes new : List UInt8} (hr : x.get? id = some r)
    (hbytes : r.state = some bytes) (hnew : Migration.renewed? t bytes = .ok (some new))
    (hy : store.get? id = some y) :
    (finish id { errand := .renew t } (load id { errand := .renew t } x) store).1 =
      store.insert { y with state := some new } := by
  have hstate := Access.perform_state_of_get? (h := { store := x }) List.not_mem_nil hr
  have hchange := Access.perform_change (h := { store }) (c := .setState id new) List.not_mem_nil
  rw [Change.apply_of_get? (fun _ he => by cases he) hy] at hchange
  unfold finish load host Migration.resume
  dsimp only
  rw [Access.perform_relabel_of_ok hstate, hbytes]
  dsimp only [Except.mapError]
  rw [perform_bind, Access.perform_ofExcept, hnew]
  dsimp only
  rw [Access.perform_relabel_of_ok hchange]
  rfl

/-- A renewal as a whole brings the record up to date. -/
theorem get?_whole_renew (hr : store.get? id = some r) :
    (whole id { errand := .renew t } store).get? id = some (Migration.ofRecord t r).2 := by
  have hamounts := Migration.amounts_ofInstance (h := { store }) (fun _ _ => List.not_mem_nil) t hr
  have hafter := hamounts.get?_eq id
  rw [Migration.succeeds_snd, hr, Option.map_some, Migration.ofRecordAt,
    if_pos (Store.instanceId_of_get? hr)] at hafter
  exact hafter

end

/-- The job renews with this table, if it renews. -/
def Uses (job : Job) (remap : RemapTable) : Prop := ∀ t, job.errand = .renew t → t = remap

end Job

/-- From one store to the next an instance that is over stays as it is or is renewed. -/
inductive Store.Renewed (remap : RemapTable) (id : InstanceId) (s : Store) : Store → Prop
  | same : Renewed remap id s s
  | once {r : Record} {bytes new : List UInt8} (hr : s.get? id = some r) (hover : r.status ≠ .active)
      (hbytes : r.state = some bytes) (hnew : Migration.renewed? remap bytes = .ok (some new)) :
      Renewed remap id s (s.insert { r with state := some new })

/-- Putting in a record that is there already changes nothing. -/
theorem Store.insert_of_get? {s : Store} {id : InstanceId} {r : Record} (hr : s.get? id = some r) :
    s.insert r = s := by
  have hid := instanceId_of_get? hr
  refine eq_of_get? fun other => ?_
  rw [get?_insert]
  split
  · next he => rw [he, hid, hr]
  · rfl

section

variable {remap : RemapTable} {id : InstanceId} {job : Job} {s s' s'' : Store}

theorem Store.get?_insert_renewed {r : Record} (hr : s.get? id = some r) (new : List UInt8) :
    (s.insert { r with state := some new }).get? id = some { r with state := some new } :=
  get?_insert_update (c := .setState id new) hr

/-- What was renewed is not renewed again. -/
theorem Store.Renewed.eq_of_renewed
    (ht : ¬ remap.Leads RequestState.managerShape RequestState.listShape) {r : Record}
    {bytes new : List UInt8} (hr : s.get? id = some r)
    (hnew : Migration.renewed? remap bytes = .ok (some new))
    (h : (s.insert { r with state := some new }).Renewed remap id s') :
    s' = s.insert { r with state := some new } := by
  cases h with
  | same => rfl
  | once hr' _ hbytes' hnew' =>
    rw [get?_insert_renewed hr] at hr'
    cases hr'
    cases hbytes'
    exact absurd hnew' (Migration.renewed?_of_renewed ht hnew)

theorem Store.Renewed.trans (ht : ¬ remap.Leads RequestState.managerShape RequestState.listShape)
    (h : s.Renewed remap id s') (h' : s'.Renewed remap id s'') : s.Renewed remap id s'' := by
  cases h with
  | same => exact h'
  | once hr hover hbytes hnew =>
    rw [h'.eq_of_renewed ht hr hnew]
    exact .once hr hover hbytes hnew

namespace Job

/-- A job done at an instance that is over renews it at most. -/
theorem renewed_whole (hu : job.Uses remap) (hs : ¬ s.Alive id) :
    s.Renewed remap id (job.whole id s) := by
  rw [← finish_load]
  rcases finish_of_not_alive hs job s with
    hsame | ⟨t, r, bytes, new, y, hrenew, hr, hbytes, hnew, hy, hmade⟩
  · rw [hsame]
    exact .same
  · obtain rfl := hu t hrenew
    obtain rfl : r = y := Option.some.inj (hr.symm.trans hy)
    rw [hmade]
    exact .once hr (fun hactive => hs ⟨r, hr, hactive⟩) hbytes hnew

/-- **A half that loaded before a renewal does what the whole would do after it.** -/
theorem finish_of_renewed (ht : ¬ remap.Leads RequestState.managerShape RequestState.listShape)
    (hu : job.Uses remap) (h : s.Renewed remap id s') :
    (job.finish id (job.load id s) s').1 = job.whole id s' := by
  cases h with
  | same => exact finish_load id job s
  | @once r bytes new hr hover hbytes hnew =>
    have hr' := Store.get?_insert_renewed hr new
    have hs : ¬ s.Alive id := by
      rintro ⟨q, hq, hactive⟩
      cases hr.symm.trans hq
      exact hover hactive
    have hs' : ¬ (s.insert { r with state := some new }).Alive id := by
      rintro ⟨q, hq, hactive⟩
      cases hr'.symm.trans hq
      exact hover hactive
    -- the whole finds nothing to renew, and the half stores what stands there already
    rw [(renewed_whole hu hs').eq_of_renewed ht hr hnew]
    rcases finish_of_not_alive hs job (s.insert { r with state := some new }) with
      hsame | ⟨t, q, bytes', new', y, hrenew, hq, hbytes', hnew', hy, hmade⟩
    · exact hsame
    · obtain rfl := hu t hrenew
      cases hr.symm.trans hq
      cases hbytes.symm.trans hbytes'
      cases hnew.symm.trans hnew'
      cases hr'.symm.trans hy
      rw [hmade]
      exact Store.insert_of_get? hr'

end Job

end

end Perdure
