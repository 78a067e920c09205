import Perdure.Proofs.Engine.Presence
import Perdure.Proofs.Engine.Settled

/-!
# Migrations and runs in either order

Runs do not look at outstanding requests, and migrations look at nothing else.  So it makes no
difference whether an instance is migrated before a run or after it, whatever the clock shows while
the run lasts.

## Main definitions

* `Host.timerCalls` — what a host was asked to do about timers.
* `Migration.upToDate`, `Migration.renew` — the renewal of a state, and of an instance.
* `Engine.Rested` — a run that comes to rest, under a clock that may move on.

## Main results

* `Migration.exists_rested_ofRecord` — a run of a renewed instance comes to rest as one of the
  instance does, and the change after it leaves the renewed record.
* `Migration.serve_renewed` — migrating commutes with running.
-/

namespace Perdure

/-- What a host was asked to do about timers, oldest first. -/
def Host.timerCalls (h : Host) : List Action := h.journal.filter Action.isTimer

/-! ### Runs with other requests -/

section

variable {s sent : InstanceSoup} (requests : RequestState)

/-- What is put in is put in either soup alike. -/
theorem Injection.into_withRequests {i : Injection} {id : InstanceId}
    (h : i.into id s = .ok sent) :
    i.into id (s.withRequests requests) = .ok (sent.withRequests requests) := by
  cases i with
  | start =>
    cases h
    rfl
  | message channel m =>
    cases h
    exact congrArg Except.ok (s.send_withRequests requests channel m)
  | terminate =>
    obtain ⟨root, hroot, rfl⟩ := Injection.into_terminate_eq_ok h
    have hroot' : (s.withRequests requests).global.root = some root := hroot
    unfold into
    simp only [hroot']
    exact congrArg Except.ok (s.send_withRequests requests root.termination .terminate)

/-- The same is heard of the root activity. -/
theorem Solo.heard_withRequests (s : InstanceSoup) : Solo.heard (s.withRequests requests) =
    ((Solo.heard s).1, (Solo.heard s).2.withRequests requests) := by
  have hroot : (s.withRequests requests).global.root = s.global.root := rfl
  unfold Solo.heard
  rw [hroot]
  cases s.global.root <;> rfl

theorem Soup.completion?_withRequests (s : InstanceSoup) :
    (s.withRequests requests).completion? = s.completion? :=
  congrArg (·.1.findSome? Message.completion?)
    (Solo.heard_withRequests requests s.drainEffects.2)

theorem Soup.settled_withRequests (s : InstanceSoup) :
    (s.withRequests requests).settled = s.settled.withRequests requests :=
  congrArg (·.2) (Solo.heard_withRequests requests s.drainEffects.2)

/-- What is put in leaves the requests. -/
theorem Injection.requests_into {i : Injection} {id : InstanceId} (h : i.into id s = .ok sent) :
    sent.global.requests = s.global.requests := by
  have hsame := i.into_withRequests s.global.requests h
  rw [s.withRequests_self, h] at hsame
  exact congrArg (·.global.requests) (Except.ok.inj hsame)

/-- An execution that comes to rest leaves the shared data. -/
theorem Script.global_outcome {script : Script} {clock : Nat → Instant} {limit : Nat}
    {o : Outcome Shared Task Receiver Message}
    (ho : (script.program.executeBy clock limit s).outcome = .ok o) : o.soup.global = s.global :=
  script.global_reduces (Program.reduces_of_outcome ho).1

/-- With other requests, an execution comes to rest alike. -/
theorem Script.outcome_withRequests {script : Script} {clock : Nat → Instant} {limit : Nat}
    {o : Outcome Shared Task Receiver Message}
    (ho : (script.program.executeBy clock limit s).outcome = .ok o) :
    (script.program.executeBy clock limit (s.withRequests requests)).outcome =
      .ok { o with soup := o.soup.withRequests requests } := by
  rw [script.executeBy_withRequests]
  unfold Program.Trail.outcome at ho ⊢
  dsimp only
  cases hfailure : (script.program.executeBy clock limit s).failure with
  | some e =>
    rw [hfailure] at ho
    cases ho
  | none =>
    rw [hfailure] at ho
    cases ho
    rfl

end

/-! ### States that are up to date -/

/-- Requests that are kept by a manager stay as they are when they are renewed. -/
theorem Soup.withRequests_of_isCurrent {s : InstanceSoup} {requests : RequestState}
    (hcurrent : s.global.requests.isCurrent = true)
    (hrequests : s.global.requests.convert = .ok requests) : s.withRequests requests = s := by
  cases hs : s.global.requests with
  | list rs =>
    rw [hs] at hcurrent
    cases hcurrent
  | manager m =>
    rw [hs] at hrequests
    cases hrequests
    rw [← hs, withRequests_self]

namespace Migration

section

variable {remap : RemapTable} {bytes : List UInt8} {soup : InstanceSoup} {requests : RequestState}

/-- The bytes of a state after its renewal: those that it had, if its requests are kept by a
manager. -/
def upToDate (soup : InstanceSoup) (requests : RequestState) (bytes : List UInt8) : List UInt8 :=
  if soup.global.requests.isCurrent then bytes else Checkpoint.write (soup.withRequests requests)

theorem ofRecord_eq_upToDate {r : Record} (hstate : r.state = some bytes)
    (hread : Checkpoint.read remap bytes = .ok soup)
    (hrequests : soup.global.requests.convert = .ok requests) :
    ofRecord remap r = (true, { r with state := some (upToDate soup requests bytes) }) := by
  have hrenewed : renewed? remap bytes = .ok (if soup.global.requests.isCurrent then none
      else some (Checkpoint.write (soup.withRequests requests))) := by
    unfold renewed?
    simp only [hread, mapError_ok, bind, Except.bind, hrequests]
    split <;> rfl
  rw [ofRecord, hstate, Option.map_some, hrenewed, upToDate]
  cases soup.global.requests.isCurrent with
  | true =>
    rw [if_pos rfl, if_pos rfl, ← hstate]
  | false => rfl

/-- A state that is up to date is read to the same soup with renewed requests, if the table keeps
what is written anew. -/
theorem read_upToDate (hkeeps : soup.global.requests.isCurrent = false →
      remap.Keeps (InstanceSoup.toJson (soup.withRequests requests)))
    (hread : Checkpoint.read remap bytes = .ok soup)
    (hrequests : soup.global.requests.convert = .ok requests) :
    Checkpoint.read remap (upToDate soup requests bytes) = .ok (soup.withRequests requests) := by
  obtain ⟨hfits, houtbox⟩ := Checkpoint.fits_of_read hread
  unfold upToDate
  split
  · next hcurrent => rw [hread, soup.withRequests_of_isCurrent hcurrent hrequests]
  · next hcurrent =>
    rw [Checkpoint.read_write_of_keeps (hkeeps (Bool.eq_false_of_not_eq_true hcurrent))
      (hfits.withRequests (hfits.global.requests.convert hrequests)), ← houtbox]
    rfl

/-- A state that is just written is written with renewed requests when it is brought up to date. -/
theorem upToDate_write (hrequests : soup.global.requests.convert = .ok requests) :
    upToDate soup requests (Checkpoint.write soup) =
      Checkpoint.write (soup.withRequests requests) := by
  unfold upToDate
  split
  · next hcurrent => rw [soup.withRequests_of_isCurrent hcurrent hrequests]
  · rfl

end

/-- The host after the state of one instance is brought up to date. -/
def renew (remap : RemapTable) (id : InstanceId) (h : Host) : Host :=
  ((ofInstance remap id).perform h).2

section

variable {id : InstanceId} {h : Host} {r : Record}

/-- A renewal asks for no timers. -/
theorem timerCalls_renew (remap : RemapTable) (id : InstanceId) (h : Host) :
    (renew remap id h).timerCalls = h.timerCalls := by
  unfold renew
  rcases perform_ofInstance_cases remap id h with hsame | ⟨_, bytes, -, -, -, hnext⟩
  · rw [hsame]
  · rw [hnext, Host.timerCalls, List.filter_append]
    exact List.append_nil _

/-- On a store that works, a renewal makes of a record what becomes of it by itself. -/
theorem renew_of_get? (hf : h.failing = []) (hr : h.store.get? id = some r) (remap : RemapTable) :
    (renew remap id h).failing = [] ∧
      (renew remap id h).store = h.store.insert (ofRecord remap r).2 := by
  have hserved : Served h := fun _ _ => by
    rw [hf]
    exact List.not_mem_nil
  have hamounts := amounts_ofInstance hserved remap hr
  have hdone : (succeeds (ofInstance remap id) h).2 = renew remap id h := succeeds_snd _ _
  rw [← hdone]
  refine ⟨hamounts.failing.trans hf, Store.eq_of_get? fun other => ?_⟩
  have hid := Store.instanceId_of_get? hr
  rw [hamounts.get?_eq, Store.get?_insert, instanceId_ofRecord, hid]
  split
  · next he => rw [he, hr, Option.map_some, ofRecordAt, if_pos hid]
  · next hne => cases hq : h.store.get? other with
    | none => rfl
    | some q => rw [Option.map_some, ofRecordAt, Store.instanceId_of_get? hq, if_neg hne]

end

end Migration

/-! ### Runs that come to rest -/

namespace Engine

/-- From a record, a run of its instance comes to rest; a change is then made to the record, and the
instance has a status. -/
structure Rested (e : Engine) (clock : Nat → Instant) (id : InstanceId) (i : Injection) (r : Record)
    (d : Deployed) (soup : InstanceSoup) (o : Outcome Shared Task Receiver Message)
    (change : Change) (status : Status) : Prop where
  loads : e.Loads r d soup
  run : ∃ sent, i.into id soup = .ok sent ∧
    (d.script.program.executeBy clock e.limit sent).outcome = .ok o
  verdict : verdict (clock o.reductions) id o.rest o.soup.completion? o.soup.settled =
    (change, status)

variable {e : Engine} {clock : Nat → Instant} {id : InstanceId} {i : Injection} {h : Host}
  {r : Record} {d : Deployed} {soup : InstanceSoup} {o : Outcome Shared Task Receiver Message}
  {change : Change} {status : Status}

/-- What comes to a status on an instance that is there is a run of it. -/
theorem serveBy_eq_reduceBy {op : Operation} (hf : h.failing = []) (hr : h.store.get? id = some r)
    (hok : ((e.serveBy clock id op).perform h).1 = .ok status) :
    e.serveBy clock id op = e.reduceBy clock id op.injection := by
  cases op with
  | start createdAt processId =>
    have hok : ((e.startBy clock id createdAt processId).perform h).1 = .ok status := hok
    cases hd : e.processes.get? processId with
    | none =>
      rw [perform_start_of_unknown hd] at hok
      cases hok
    | some d =>
      rw [perform_start hf hd createdAt rfl, hr] at hok
      cases hok
  | deliver | terminate => rfl

/-- A run that comes to a status comes to rest. -/
theorem exists_rested (hf : h.failing = []) (hr : h.store.get? id = some r) (hl : e.Loads r d soup)
    (hok : ((e.reduceBy clock id i).perform h).1 = .ok status) :
    ∃ o change, e.Rested clock id i r d soup o change status := by
  obtain ⟨hd, bytes, hb, hread⟩ := hl
  rw [perform_reduce hf hr hb hd hread i] at hok
  cases hsent : i.into id soup with
  | error refusal =>
    rw [hsent] at hok
    cases hok
  | ok sent =>
    rw [hsent] at hok
    dsimp only at hok
    cases ho : (d.script.program.executeBy clock e.limit sent).outcome with
    | error source =>
      rw [perform_proceed_of_error hf hr ho rfl] at hok
      cases hok
    | ok o =>
      rcases hv : Engine.verdict (clock o.reductions) id o.rest o.soup.completion? o.soup.settled with
        ⟨change, status'⟩
      rw [perform_proceed_of_ok hf hr ho hv] at hok
      cases hok
      exact ⟨o, change, ⟨hd, bytes, hb, hread⟩, ⟨sent, hsent, ho⟩, hv⟩

namespace Rested

/-- What a run that comes to rest leaves behind. -/
theorem perform (hrested : e.Rested clock id i r d soup o change status) (hf : h.failing = [])
    (hr : h.store.get? id = some r) :
    ((e.reduceBy clock id i).perform h).1 = .ok status ∧
    ((e.reduceBy clock id i).perform h).2.failing = [] ∧
    ((e.reduceBy clock id i).perform h).2.store = h.store.insert (change.update r) ∧
    ((e.reduceBy clock id i).perform h).2.timerCalls =
      h.timerCalls ++ (o.soup.outbox.map (enact id) ++
        (if status.isFinal then o.soup.settled.timers.keys else []).map (.cancelTimer id)) := by
  obtain ⟨⟨hd, bytes, hb, hread⟩, ⟨sent, hsent, ho⟩, hv⟩ := hrested
  have htimer (a : Action) (ha : a ∈ o.soup.outbox.map (enact id) ++
      (if status.isFinal then o.soup.settled.timers.keys else []).map (.cancelTimer id)) :
      a.isTimer = true := isTimer_of_mem_asked ha
  rw [perform_reduce hf hr hb hd hread i, hsent]
  dsimp only
  rw [perform_proceed_of_ok hf hr ho hv]
  refine ⟨rfl, hf, rfl, ?_⟩
  have hchange : [Action.change change].filter Action.isTimer = [] := rfl
  rw [Host.timerCalls, Host.make, List.filter_append, List.filter_append, hchange, List.append_nil,
    List.filter_eq_self.2 htimer]
  rfl

/-- What comes to rest can be stored, and has the requests that it had. -/
theorem fits_settled (hrested : e.Rested clock id i r d soup o change status)
    (hs : d.script.FitsOver Instant.Proper) (hclock : ∀ n, (clock n).Proper) (hi : i.Fits)
    (hcounted : o.soup.Counted) : Soup.Fits Instant.Proper o.soup.settled ∧
      o.soup.settled.global.requests = soup.global.requests := by
  obtain ⟨⟨hd, bytes, hb, hread⟩, ⟨sent, hsent, ho⟩, -⟩ := hrested
  have hfits := (Checkpoint.fits_of_read hread).1.mono fun _ => Instant.Valid.proper
  have hlasting := Script.Passes.lasting_reduces (fun n => hs.passes_almost (hclock n))
    (hfits.lasting_almost.into hi hsent) (Program.reduces_of_outcome ho).1 hcounted
  constructor
  · refine hlasting.settled.fits_of_rest ?_
    rw [Soup.settled_frame]
    exact Script.runnables_of_outcome ho
  · rw [Soup.settled_frame, Script.global_outcome ho, Injection.requests_into hsent]

end Rested

end Engine

/-! ### Renewals and runs -/

namespace Migration

/-- A state that was just stored is renewed to what is stored with renewed requests, though it may be
read with other instants than it was written with. -/
theorem ofRecord_write {remap : RemapTable} {r : Record} {soup : InstanceSoup}
    {requests : RequestState} (hspare : remap.Spares InstanceSoup.shapes)
    (hfits : Soup.Fits Instant.Proper soup) (hstate : r.state = some (Checkpoint.write soup))
    (hrequests : soup.global.requests.convert = .ok requests) : ofRecord remap r =
      (true, { r with state := some (Checkpoint.write (soup.withRequests requests)) }) := by
  have hread := Checkpoint.read_write_of_proper hspare hfits
  have hbytes := Checkpoint.write_restored hfits
  have hrenewed := Checkpoint.write_restored
    (hfits.withRequests (hfits.global.requests.convert hrequests))
  have hwith : ({ (soup.withRequests requests).shown with outbox := [] } : InstanceSoup) =
      ({ soup.shown with outbox := [] } : InstanceSoup).withRequests requests := rfl
  rw [hwith] at hrenewed
  generalize hshown : ({ soup.shown with outbox := [] } : InstanceSoup) = shown at *
  have hconverts : shown.global.requests.convert = .ok requests := by
    rw [← hshown]
    exact hrequests
  rw [ofRecord_eq_upToDate hstate hread hconverts, ← hbytes, upToDate_write hconverts, hrenewed]

/-- With renewed requests a verdict has the same status, and its change leaves the record that the
change without them leaves, renewed.  The state that the record had does not matter. -/
theorem exists_renewed_verdict {remap : RemapTable} {now : Instant} {id : InstanceId} {rest : Rest}
    {completion : Option (Option Fault)} {soup : InstanceSoup} {requests : RequestState}
    {change : Change} {status : Status} (hspare : remap.Spares InstanceSoup.shapes)
    (hfits : Soup.Fits Instant.Proper soup)
    (hrequests : soup.global.requests.convert = .ok requests)
    (hv : Engine.verdict now id rest completion soup = (change, status))
    (hstatus : status ≠ .broken) :
    ∃ change', Engine.verdict now id rest completion (soup.withRequests requests) =
        (change', status) ∧
      ∀ r : Record, ∀ state, change'.update { r with state } =
        (ofRecord remap (change.update r)).2 := by
  unfold Engine.verdict at hv ⊢
  cases completion with
  | some fault =>
    cases hv
    exact ⟨_, rfl, fun _ _ => rfl⟩
  | none => cases rest with
    | terminated =>
      cases hv
      exact absurd rfl hstatus
    | suspended =>
      cases hv
      refine ⟨_, rfl, fun r state => ?_⟩
      rw [ofRecord_write hspare hfits rfl hrequests]
      rfl

section

variable {e : Engine} {r : Record} {d : Deployed} {soup : InstanceSoup} {requests : RequestState}

/-- The state of a renewed record is read to the same soup with renewed requests. -/
theorem loads_ofRecord (hl : e.Loads r d soup) (hspare : d.remap.Spares InstanceSoup.shapes)
    (hrequests : soup.global.requests.convert = .ok requests) :
    e.Loads (ofRecord d.remap r).2 d (soup.withRequests requests) := by
  obtain ⟨hd, bytes, hb, hread⟩ := hl
  obtain ⟨hactive, hstate⟩ := Record.active_of_pending? hb
  rw [ofRecord_eq_upToDate hstate hread hrequests]
  exact ⟨hd, _, by rw [Record.pending?, hactive]; rfl,
    read_upToDate (fun _ => hspare.keeps (Json.Shaped.instanceSoup _)) hread hrequests⟩

/-- A run from a renewed record comes to rest as the run from the record does, with renewed
requests, and its change leaves the record that the change of the other leaves, renewed. -/
theorem exists_rested_ofRecord {clock : Nat → Instant} {id : InstanceId} {i : Injection}
    {o : Outcome Shared Task Receiver Message} {change : Change} {status : Status}
    (hrested : e.Rested clock id i r d soup o change status) (hstatus : status ≠ .broken)
    (hrequests : soup.global.requests.convert = .ok requests)
    (hs : d.script.FitsOver Instant.Proper) (hspare : d.remap.Spares InstanceSoup.shapes)
    (hclock : ∀ n, (clock n).Proper) (hi : i.Fits) (hcounted : o.soup.Counted) :
    ∃ change', e.Rested clock id i (ofRecord d.remap r).2 d (soup.withRequests requests)
        { o with soup := o.soup.withRequests requests } change' status ∧
      change'.update (ofRecord d.remap r).2 = (ofRecord d.remap (change.update r)).2 := by
  obtain ⟨hfits, hkept⟩ := hrested.fits_settled hs hclock hi hcounted
  obtain ⟨hl, ⟨sent, hsent, ho⟩, hv⟩ := hrested
  obtain ⟨change', hv', hupdate⟩ :=
    exists_renewed_verdict hspare hfits (hkept ▸ hrequests) hv hstatus
  refine ⟨change', { loads := loads_ofRecord hl hspare hrequests, run := ?_, verdict := ?_ }, ?_⟩
  · exact ⟨sent.withRequests requests, Injection.into_withRequests requests hsent,
      Script.outcome_withRequests requests ho⟩
  · rw [Soup.completion?_withRequests, Soup.settled_withRequests]
    exact hv'
  · obtain ⟨state, he⟩ := exists_ofRecord d.remap r
    rw [he]
    exact hupdate r state

end

/-- **Migrating commutes with running.**  Where an operation on an instance comes to a status other
than broken, it makes no difference whether the instance is migrated before or after: the status is
the same, the same timers are asked for in the same order, and the same is stored, byte for byte.
The clock may show what it likes after each reduction. -/
theorem serve_renewed {e : Engine} {clock : Nat → Instant} {id : InstanceId} {op : Operation}
    {h : Host} {r : Record} {d : Deployed} {soup : InstanceSoup} {requests : RequestState}
    {status : Status} (hf : h.failing = []) (hr : h.store.get? id = some r)
    (hl : e.Loads r d soup) (hrequests : soup.global.requests.convert = .ok requests)
    (hd : d.script.definition.Fits) (htells : d.script.Tells Instant.Proper)
    (hspare : d.remap.Spares InstanceSoup.shapes) (hclock : ∀ n, (clock n).Proper) (hop : op.Fits)
    (hcounts : ∀ sent, op.injection.into id soup = .ok sent →
      (d.script.program.executeBy clock e.limit sent).soup.Counted)
    (hok : ((e.serveBy clock id op).perform h).1 = .ok status) (hstatus : status ≠ .broken) :
    let before := (e.serveBy clock id op).perform (renew d.remap id h)
    let after := renew d.remap id ((e.serveBy clock id op).perform h).2
    before.1 = .ok status ∧ before.2.timerCalls = after.timerCalls ∧
      before.2.store = after.store := by
  have hs : d.script.FitsOver Instant.Proper := ⟨hd, htells, Instant.endures_proper⟩
  have hserve := Engine.serveBy_eq_reduceBy hf hr hok
  rw [hserve] at hok ⊢
  obtain ⟨o, change, hrested⟩ := Engine.exists_rested hf hr hl hok
  obtain ⟨sent, hsent, ho⟩ := hrested.run
  have hcounted : o.soup.Counted := Program.Trail.soup_of_outcome ho ▸ hcounts sent hsent
  obtain ⟨change', hrested', hupdate⟩ := exists_rested_ofRecord hrested hstatus hrequests hs hspare
    hclock hop.injection hcounted
  -- the run, and the renewal after it
  obtain ⟨-, hfailing, hstore, htimers⟩ := hrested.perform hf hr
  obtain ⟨-, hafter⟩ :=
    renew_of_get? hfailing (hstore ▸ Store.get?_insert_update hr change) d.remap
  -- the renewal, and the run after it
  obtain ⟨hfailing', hrenewed⟩ := renew_of_get? hf hr d.remap
  have hr' : (renew d.remap id h).store.get? id = some (ofRecord d.remap r).2 := by
    rw [hrenewed, Store.get?_insert, instanceId_ofRecord, Store.instanceId_of_get? hr, if_pos rfl]
  obtain ⟨hok', -, hbefore, htimers'⟩ := hrested'.perform hfailing' hr'
  refine ⟨hok', ?_, ?_⟩
  · rw [htimers', timerCalls_renew, timerCalls_renew, htimers, Soup.settled_withRequests]
    rfl
  · rw [hbefore, hrenewed, hafter, hstore, hupdate, Store.insert_insert, Store.insert_insert]
    · rw [instanceId_ofRecord]
    · rw [instanceId_ofRecord, instanceId_ofRecord, Change.instanceId_update]

/-- A clock that shows a leap second half a minute after midnight, and half of the next second after
the first reduction. -/
def leaping (n : Nat) : Instant := if n = 0 then ⟨30, 1500000000⟩ else ⟨31, 500000000⟩

theorem leaping_proper (n : Nat) : (leaping n).Proper := by
  unfold leaping
  split <;> exact ⟨by decide, by decide⟩

/-- A vigil that keeps its requests in a list gets under way when a timeout is delivered that it
does not wait for. -/
theorem rested_oldVigil : ∃ o change, o.soup.Counted ∧
    vigils.Rested leaping 1 (.message 100 .timeout) (vigilRecord 1 (Checkpoint.write oldVigil))
      ⟨Script.vigil, Table.ofList [("wait", "wait-activity")]⟩ oldVigil o change .active := by
  have hd : vigils.processes.get? "vigil" =
      some ⟨Script.vigil, Table.ofList [("wait", "wait-activity")]⟩ := by rfl
  have hl : vigils.Loads (vigilRecord 1 (Checkpoint.write oldVigil)) _ oldVigil :=
    ⟨hd, _, rfl, Checkpoint.read_write_of_spares (vigils_fits.remap hd) oldVigil_fits⟩
  let trail := Script.vigil.program.executeBy leaping 100 (oldVigil.send 100 .timeout)
  have hrun : trail.outcome.toOption.map (fun o => (decide o.soup.Counted,
      (Engine.verdict (leaping o.reductions) 1 o.rest o.soup.completion? o.soup.settled).2)) =
        some (true, .active) := by decide +kernel
  cases ho : trail.outcome with
  | error source =>
    rw [ho] at hrun
    cases hrun
  | ok o =>
    rw [ho] at hrun
    obtain ⟨hcounted, hactive⟩ := Prod.mk.inj (Option.some.inj hrun)
    exact ⟨o, _, of_decide_eq_true hcounted,
      { loads := hl, run := ⟨_, rfl, ho⟩, verdict := Prod.ext rfl hactive }⟩

/-- A vigil of old may be migrated before such a timeout is delivered to it or after that. -/
theorem serve_renewed_oldVigil : ∃ d requests, oldVigils.failing = [] ∧
    oldVigils.store.get? 1 = some (vigilRecord 1 (Checkpoint.write oldVigil)) ∧
    vigils.Loads (vigilRecord 1 (Checkpoint.write oldVigil)) d oldVigil ∧
    oldVigil.global.requests.convert = .ok requests ∧ d.script.definition.Fits ∧
    d.script.Tells Instant.Proper ∧ d.remap.Spares InstanceSoup.shapes ∧
    (∀ n, (leaping n).Proper) ∧
    ((vigils.serveBy leaping 1 (.deliver 100 .timeout)).perform oldVigils).1 = .ok .active ∧
    let before :=
      (vigils.serveBy leaping 1 (.deliver 100 .timeout)).perform (renew d.remap 1 oldVigils)
    let after :=
      renew d.remap 1 ((vigils.serveBy leaping 1 (.deliver 100 .timeout)).perform oldVigils).2
    before.1 = .ok .active ∧ before.2.timerCalls = after.timerCalls ∧
      before.2.store = after.store := by
  obtain ⟨o, change, hcounted, hrested⟩ := rested_oldVigil
  have hspare := vigils_fits.remap hrested.loads.deployed
  have hnodup : (vigilRequests.map Request.key).Nodup := by decide
  obtain ⟨m, hm, -⟩ := RequestManager.exists_ofList hnodup
  have hr : oldVigils.store.get? 1 = some (vigilRecord 1 (Checkpoint.write oldVigil)) := by rfl
  have hrequests : oldVigil.global.requests.convert = .ok (.manager m) := by
    show (RequestManager.ofList vigilRequests).map _ = _
    rw [hm]
    rfl
  have hcounts (sent : InstanceSoup)
      (hsent : (Injection.message 100 .timeout).into 1 oldVigil = .ok sent) :
      (Script.vigil.program.executeBy leaping vigils.limit sent).soup.Counted := by
    obtain ⟨sent', hsent', ho⟩ := hrested.run
    cases hsent.symm.trans hsent'
    exact (Program.Trail.soup_of_outcome ho) ▸ hcounted
  have hok : ((vigils.serveBy leaping 1 (.deliver 100 .timeout)).perform oldVigils).1 =
      .ok .active := (hrested.perform rfl hr).1
  exact ⟨_, _, rfl, hr, hrested.loads, hrequests, Script.vigil_fits.definition,
    Script.vigil_tells _, hspare, leaping_proper, hok,
    serve_renewed rfl hr hrested.loads hrequests Script.vigil_fits.definition
      (Script.vigil_tells _) hspare leaping_proper ⟨by decide, trivial⟩ hcounts hok (by decide)⟩

end Migration

end Perdure
