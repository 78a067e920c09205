import Mathlib.Data.List.Nodup
import Perdure.Engine.Migration
import Perdure.Proofs.Engine.Host
import Perdure.Proofs.Failure
import Perdure.Proofs.Instance.History
import Perdure.Proofs.Instance.Oblivious
import Perdure.Proofs.Instance.Requests

/-!
# What a migration comes to

On a store that answers it, a migration goes through records one by one, and what becomes of a
record depends on that record alone.  So the order in which instances are listed makes no
difference, and an instance that cannot be renewed leaves all others as they would be without it.

## Main definitions

* `Migration.ofRecord`, `Migration.fate` — what becomes of a record.
* `Migration.Amounts` — what work on a store comes to, record by record.
* `Migration.runListed` — a migration that lists instances in some order.
* `Migration.Renewable` — the records whose requests are to be renewed.

## Main results

* `Migration.amounts_runListed` — what a migration comes to, in whatever order.
* `Migration.run_renews` — exactly the renewable records are renewed.
-/

namespace Perdure

theorem Soup.Fits.withRequests {T : Instant → Prop} {s : InstanceSoup} (h : Soup.Fits T s)
    {requests : RequestState} (hr : requests.Fits) : Soup.Fits T (s.withRequests requests) :=
  { h with global := { root := h.global.root, requests := hr } }

/-- Requests fit in the newer form as well. -/
theorem RequestState.Fits.convert {old new : RequestState} (h : old.Fits)
    (hnew : old.convert = .ok new) : new.Fits := by
  cases old with
  | manager m =>
    cases hnew
    exact h
  | list rs => cases hm : RequestManager.ofList rs with
    | error e =>
      rw [RequestState.convert, hm] at hnew
      cases hnew
    | ok m =>
      rw [RequestState.convert, hm] at hnew
      cases hnew
      exact fun q hq => h q ((RequestManager.ofList_eq_ok_iff.1 hm).2.mem_iff.1 hq)

namespace Migration

/-! ### The state of one instance -/

/-- With a table, bytes are read to a soup with a list of requests, in which no conversation
repeats. -/
structure Renewable (remap : RemapTable) (bytes : List UInt8) (soup : InstanceSoup)
    (requests : List Request) : Prop where
  read : Checkpoint.read remap bytes = .ok soup
  listed : soup.global.requests = .list requests
  nodup : (requests.map Request.key).Nodup

/-- Bytes are not read with a table, or to a soup with two requests of one conversation. -/
inductive Stuck (remap : RemapTable) (bytes : List UInt8) : Prop where
  | unreadable {e : CorruptState} (read : Checkpoint.read remap bytes = .error e)
  | conflicting {soup : InstanceSoup} {requests : List Request}
      (read : Checkpoint.read remap bytes = .ok soup)
      (listed : soup.global.requests = .list requests)
      (conflict : ¬ (requests.map Request.key).Nodup)

section

variable {remap : RemapTable} {bytes : List UInt8} {soup : InstanceSoup}

/-- A list of requests is taken over by a manager. -/
theorem Renewable.renewed?_eq {requests : List Request}
    (h : Renewable remap bytes soup requests) : ∃ m : RequestManager, m.entries.Perm requests ∧
      renewed? remap bytes = .ok (some (Checkpoint.write (soup.withRequests (.manager m)))) := by
  obtain ⟨m, hm, hperm⟩ := RequestManager.exists_ofList h.nodup
  refine ⟨m, hperm, ?_⟩
  unfold renewed?
  simp only [h.read, mapError_ok, bind, Except.bind, h.listed, RequestState.convert, hm]
  rfl

/-- A state with a manager is up to date. -/
theorem renewed?_of_manager (h : Checkpoint.read remap bytes = .ok soup) {m : RequestManager}
    (hm : soup.global.requests = .manager m) : renewed? remap bytes = .ok none := by
  unfold renewed?
  simp only [h, mapError_ok, bind, Except.bind, hm]
  rfl

/-- A state that is not read is not renewed, nor is one with two requests of one conversation. -/
theorem Stuck.renewed?_eq (h : Stuck remap bytes) : ∃ e, renewed? remap bytes = .error e := by
  unfold renewed?
  cases h with
  | unreadable hread =>
    rw [hread]
    exact ⟨_, rfl⟩
  | conflicting hread hlisted hconflict => cases hm : RequestManager.ofList _ with
    | ok m => exact absurd (RequestManager.ofList_eq_ok_iff.1 hm).1 hconflict
    | error e =>
      simp only [hread, mapError_ok, bind, Except.bind, hlisted, RequestState.convert, hm]
      exact ⟨_, rfl⟩

/-- A state is renewed, up to date or stuck. -/
theorem renewed?_cases (remap : RemapTable) (bytes : List UInt8) :
    (∃ soup requests, Renewable remap bytes soup requests) ∨
      renewed? remap bytes = .ok none ∨ Stuck remap bytes := by
  cases hread : Checkpoint.read remap bytes with
  | error e => exact .inr (.inr (.unreadable hread))
  | ok soup => cases hrequests : soup.global.requests with
    | manager m => exact .inr (.inl (renewed?_of_manager hread hrequests))
    | list requests =>
      by_cases hn : (requests.map Request.key).Nodup
      · exact .inl ⟨soup, requests, hread, hrequests, hn⟩
      · exact .inr (.inr (.conflicting hread hrequests hn))

end

/-! ### Records -/

/-- What becomes of a record when its state is renewed, and does all go well? -/
def ofRecord (remap : RemapTable) (r : Record) : Bool × Record :=
  match r.state.map (renewed? remap) with
  | some (.ok (some bytes)) => (true, { r with state := some bytes })
  | some (.error _) => (false, r)
  | _ => (true, r)

/-- What becomes of a record when several pieces of work follow each other. -/
def fate {α : Type} (each : α → Record → Bool × Record) : List α → Record → Bool × Record
  | [], r => (true, r)
  | a :: rest, r =>
    let (good, r) := each a r
    let (others, r) := fate each rest r
    (good && others, r)

/-- Each piece of work leaves the keys of records, and is about the records with its own key. -/
structure Keyed {α κ : Type} (each : α → Record → Bool × Record) (key : α → κ)
    (keyOf : Record → κ) : Prop where
  keep : ∀ a r, keyOf (each a r).2 = keyOf r
  other : ∀ a r, keyOf r ≠ key a → each a r = (true, r)

section

variable {α κ : Type} {each : α → Record → Bool × Record} {l : List α} {r : Record}

/-- Work that passes a record by leaves it as it is. -/
theorem fate_of_still (h : ∀ a ∈ l, each a r = (true, r)) : fate each l r = (true, r) := by
  induction l with
  | nil => rfl
  | cons a rest ih =>
    rw [fate, h a List.mem_cons_self]
    simp only [ih fun b hb => h b (List.mem_cons_of_mem a hb), Bool.and_self]

/-- Of pieces of work with different keys, one at most is about a given record. -/
theorem fate_of_mem {key : α → κ} {keyOf : Record → κ} (hkeyed : Keyed each key keyOf)
    (hl : (l.map key).Nodup) {a : α} (ha : a ∈ l) (hk : keyOf r = key a) :
    fate each l r = each a r := by
  induction l with
  | nil => cases ha
  | cons b rest ih =>
    rw [List.map_cons, List.nodup_cons] at hl
    rcases List.mem_cons.1 ha with rfl | ha
    · have hrest : fate each rest (each a r).2 = (true, (each a r).2) := by
        refine fate_of_still fun b hb => hkeyed.other b _ ?_
        rw [hkeyed.keep, hk]
        exact fun he => hl.1 (he ▸ List.mem_map_of_mem hb)
      simp only [fate, hrest, Bool.and_true]
    · have hb : each b r = (true, r) := by
        refine hkeyed.other b r ?_
        rw [hk]
        exact fun he => hl.1 (he ▸ List.mem_map_of_mem ha)
      simp only [fate, hb, ih hl.2 ha, Bool.true_and]

end

/-- The renewal of a state changes nothing else of a record. -/
theorem exists_ofRecord (remap : RemapTable) (r : Record) :
    ∃ state, (ofRecord remap r).2 = { r with state } := by
  unfold ofRecord
  split <;> exact ⟨_, rfl⟩

/-- A renewed record stands where it stood. -/
theorem instanceId_ofRecord (remap : RemapTable) (r : Record) :
    (ofRecord remap r).2.instanceId = r.instanceId := by
  obtain ⟨state, he⟩ := exists_ofRecord remap r
  rw [he]

section

variable {remap : RemapTable} {r : Record} {bytes : List UInt8}

/-- A record with a list of requests gets a manager of the same requests. -/
theorem ofRecord_of_renewable {soup : InstanceSoup} {requests : List Request}
    (hstate : r.state = some bytes) (h : Renewable remap bytes soup requests) :
    ∃ m : RequestManager, m.entries.Perm requests ∧ ofRecord remap r =
      (true, { r with state := some (Checkpoint.write (soup.withRequests (.manager m))) }) := by
  obtain ⟨m, hperm, hrenewed⟩ := h.renewed?_eq
  refine ⟨m, hperm, ?_⟩
  rw [ofRecord, hstate, Option.map_some, hrenewed]

/-- A record whose state is not renewed stays as it is. -/
theorem ofRecord_snd_eq_self
    (h : ∀ bytes, r.state = some bytes → ∀ soup requests, ¬ Renewable remap bytes soup requests) :
    (ofRecord remap r).2 = r := by
  unfold ofRecord
  cases hstate : r.state with
  | none => rfl
  | some bytes =>
    rcases renewed?_cases remap bytes with ⟨soup, requests, hr⟩ | hr | hr
    · exact absurd hr (h bytes hstate soup requests)
    · rw [Option.map_some, hr]
    · obtain ⟨e, hr⟩ := hr.renewed?_eq
      rw [Option.map_some, hr]

/-- All goes well with a record unless its state is stuck. -/
theorem ofRecord_fst_eq_true_iff :
    (ofRecord remap r).1 = true ↔ ∀ bytes, r.state = some bytes → ¬ Stuck remap bytes := by
  unfold ofRecord
  cases hstate : r.state with
  | none => simp
  | some bytes =>
    have hstuck : Stuck remap bytes ↔ ∃ e, renewed? remap bytes = .error e := by
      refine ⟨Stuck.renewed?_eq, fun ⟨e, he⟩ => ?_⟩
      rcases renewed?_cases remap bytes with ⟨soup, requests, hr⟩ | hr | hr
      · obtain ⟨m, -, hr⟩ := hr.renewed?_eq
        rw [he] at hr
        cases hr
      · rw [he] at hr
        cases hr
      · exact hr
    rcases hr : renewed? remap bytes with e | _ | new <;> simp [hstuck, hr]

end

/-- What becomes of a record when the state of one instance is renewed. -/
def ofRecordAt (remap : RemapTable) (id : InstanceId) (r : Record) : Bool × Record :=
  if r.instanceId = id then ofRecord remap r else (true, r)

/-- What becomes of a record when one process is migrated. -/
def ofRecordIn (process : String × RemapTable) (r : Record) : Bool × Record :=
  if r.isActiveOf process.1 then ofRecord process.2 r else (true, r)

theorem keyed_ofRecordAt (remap : RemapTable) :
    Keyed (ofRecordAt remap) id (·.instanceId) where
  keep id r := by
    unfold ofRecordAt
    split
    · exact instanceId_ofRecord remap r
    · rfl
  other id r hne := if_neg hne

theorem keyed_ofRecordIn : Keyed ofRecordIn Prod.fst (·.processId) where
  keep process r := by
    unfold ofRecordIn
    split
    · obtain ⟨state, he⟩ := exists_ofRecord process.2 r
      rw [he]
    · rfl
  other process r hne := if_neg fun ha => hne (by simp_all [Record.isActiveOf])

/-! ### Stores -/

/-- The calls that a migration makes do not fail. -/
def Served (h : Host) : Prop := ∀ kind ∈ [CallKind.active, .state, .setState], kind ∉ h.failing

/-- What work on a store comes to: each record becomes what it becomes by itself, and all goes well
where each record fares well. -/
structure Amounts (h : Host) (done : Bool × Host) (each : Record → Bool × Record) : Prop where
  failing : done.2.failing = h.failing
  get?_eq : ∀ id, done.2.store.get? id = (h.store.get? id).map fun r => (each r).2
  good_iff : done.1 = true ↔ ∀ id r, h.store.get? id = some r → (each r).1 = true

namespace Amounts

variable {h : Host} {done done' : Bool × Host} {each each' : Record → Bool × Record}

/-- Only what becomes of the records that are there matters. -/
theorem congr (hd : Amounts h done each)
    (he : ∀ id r, h.store.get? id = some r → each r = each' r) : Amounts h done each' where
  failing := hd.failing
  get?_eq id := by
    rw [hd.get?_eq]
    exact Option.map_congr fun r hr => congrArg Prod.snd (he id r hr)
  good_iff := by
    rw [hd.good_iff]
    exact forall₃_congr fun id r hr => by rw [he id r hr]

/-- Work that comes to the same leaves the same store, and the same is said of it. -/
theorem unique (hd : Amounts h done each) (hd' : Amounts h done' each) :
    done.1 = done'.1 ∧ done.2.store = done'.2.store :=
  ⟨Bool.eq_iff_iff.2 (hd.good_iff.trans hd'.good_iff.symm),
    Store.eq_of_get? fun id => (hd.get?_eq id).trans (hd'.get?_eq id).symm⟩

/-- Pieces of work come to what they come to for each record. -/
theorem each_of_forall {α : Type} {work : α → Host → Bool × Host}
    {each : α → Record → Bool × Record} {l : List α}
    (hw : ∀ a ∈ l, ∀ h', h'.failing = h.failing →
      (∀ id, (h'.store.get? id).isSome = (h.store.get? id).isSome) →
        Amounts h' (work a h') (each a)) :
    Amounts h (Migration.each work l h) (fate each l) := by
  induction l generalizing h with
  | nil =>
    exact { failing := rfl
            get?_eq := fun id => Option.map_id'.symm ▸ rfl
            good_iff := by simp [Migration.each, fate] }
  | cons a rest ih =>
    have hfirst := hw a List.mem_cons_self h rfl fun _ => rfl
    have hrest := ih (h := (work a h).2) fun b hb h' hfailing hsome => by
      refine hw b (List.mem_cons_of_mem a hb) h' (hfailing.trans hfirst.failing) fun id => ?_
      rw [hsome, hfirst.get?_eq, Option.isSome_map]
    refine { failing := hrest.failing.trans hfirst.failing, get?_eq := fun id => ?_, good_iff := ?_ }
    · rw [show (Migration.each work (a :: rest) h).2 = (Migration.each work rest (work a h).2).2
        from rfl, hrest.get?_eq, hfirst.get?_eq, Option.map_map]
      rfl
    · show (_ && _) = true ↔ _
      rw [Bool.and_eq_true, hfirst.good_iff, hrest.good_iff, ← forall_and]
      refine forall_congr' fun id => ?_
      rw [hfirst.get?_eq]
      cases h.store.get? id with
      | none => simp
      | some r => simp [fate]

/-- Work on one record. -/
theorem of_one {id : InstanceId} {r : Record} (hr : h.store.get? id = some r)
    (hfailing : done.2.failing = h.failing) (hgood : done.1 = (each r).1)
    (hself : done.2.store.get? id = some (each r).2)
    (hothers : ∀ other ≠ id, done.2.store.get? other = h.store.get? other) :
    Amounts h done fun r => if r.instanceId = id then each r else (true, r) where
  failing := hfailing
  get?_eq other := by
    by_cases he : other = id
    · rw [he, hself, hr, Option.map_some, if_pos (Store.instanceId_of_get? hr)]
    · rw [hothers other he]
      cases hother : h.store.get? other with
      | none => rfl
      | some q => rw [Option.map_some, Store.instanceId_of_get? hother, if_neg he]
  good_iff := by
    rw [hgood]
    constructor
    · intro hg other q hq
      split
      · next he =>
        obtain rfl := Store.instanceId_of_get? hq
        rw [he, hr] at hq
        cases hq
        exact hg
      · rfl
    · intro hall
      have := hall id r hr
      rwa [if_pos (Store.instanceId_of_get? hr)] at this

end Amounts

/-! ### Runs -/

section

variable {h : Host}

/-- What comes of the renewal of one instance. -/
theorem amounts_ofInstance (hs : Served h) (remap : RemapTable) {id : InstanceId} {r : Record}
    (hr : h.store.get? id = some r) :
    Amounts h (succeeds (ofInstance remap id) h) (ofRecordAt remap id) := by
  have hid := Store.instanceId_of_get? hr
  have hstate := Access.perform_state_of_get? (hs .state (by simp)) hr
  unfold succeeds ofInstance
  rw [Access.perform_bind, Access.perform_relabel_of_ok hstate]
  cases hbytes : r.state with
  | none =>
    refine .of_one hr rfl ?_ ?_ fun _ _ => rfl <;> simp [ofRecord, hbytes, hr]
  | some bytes =>
    simp only [Access.perform_bind, Access.perform_ofExcept]
    cases hnew : renewed? remap bytes with
    | error e =>
      refine .of_one hr rfl ?_ ?_ fun _ _ => rfl <;> simp [ofRecord, hbytes, hnew, hr]
    | ok renewed => cases renewed with
      | none =>
        refine .of_one hr rfl ?_ ?_ fun _ _ => rfl <;> simp [ofRecord, hbytes, hnew, hr]
      | some new =>
        have hchange : (Access.change (.setState id new)).perform h = (.ok (), { h with
            store := h.store.insert { r with state := some new }
            journal := h.journal ++ [.change (.setState id new)] }) := by
          have happly := Change.apply_of_get? (c := .setState id new) (fun _ he => by cases he) hr
          have hkind : (Change.setState id new).kind ∉ h.failing := hs .setState (by simp)
          rw [Access.perform_change hkind, happly]
          rfl
        simp only [Access.perform_relabel_of_ok hchange]
        refine .of_one hr rfl ?_ ?_ fun other hne => ?_
        · simp [ofRecord, hbytes, hnew]
        · simp [ofRecord, hbytes, hnew, hid]
        · simp [hid, hne]

/-- Bring the states of some instances of one process up to date. -/
def ofListed (list : Store → String → List InstanceId) (process : String × RemapTable) (h : Host) :
    Bool × Host :=
  each (fun id => succeeds (ofInstance process.2 id)) (list h.store process.1) h

/-- A migration that lists instances in an order of its own. -/
def runListed (list : Store → String → List InstanceId) (processes : List (String × RemapTable)) :
    Host → Bool × Host := each (ofListed list) processes

theorem Served.of_failing {h' : Host} (hs : Served h) (hf : h'.failing = h.failing) : Served h' := by
  unfold Served
  rwa [hf]

variable {list : Store → String → List InstanceId}

/-- What comes of the migration of one process. -/
theorem amounts_ofListed (hs : Served h) (hlist : ∀ s p, (list s p).Perm (s.active p))
    (process : String × RemapTable) :
    Amounts h (ofListed list process h) (ofRecordIn process) := by
  have hmem (id : InstanceId) : id ∈ list h.store process.1 ↔
      ∃ r, h.store.get? id = some r ∧ r.processId = process.1 ∧ r.status = .active :=
    (hlist h.store process.1).mem_iff.trans Store.mem_active_iff
  have heach : Amounts h (ofListed list process h)
      (fate (ofRecordAt process.2) (list h.store process.1)) := by
    refine .each_of_forall fun id hid h' hfailing hsome => ?_
    obtain ⟨r, hr, -⟩ := (hmem id).1 hid
    obtain ⟨r', hr'⟩ := Option.isSome_iff_exists.1 ((hsome id).trans (by rw [hr]; rfl))
    exact amounts_ofInstance (hs.of_failing hfailing) process.2 hr'
  refine heach.congr fun id r hr => ?_
  obtain rfl := Store.instanceId_of_get? hr
  have hactive : r.isActiveOf process.1 = true ↔ r.instanceId ∈ list h.store process.1 := by
    rw [hmem, hr, Record.isActiveOf, Bool.and_eq_true, decide_eq_true_eq, decide_eq_true_eq]
    simp
  unfold ofRecordIn
  split
  · next ha =>
    have hnodup : ((list h.store process.1).map id).Nodup := by
      rw [List.map_id, (hlist h.store process.1).nodup_iff]
      exact (h.store.lists_active process.1).nodup
    rw [fate_of_mem (keyed_ofRecordAt process.2) hnodup (hactive.1 ha) rfl]
    exact if_pos rfl
  · next ha =>
    refine fate_of_still fun id hid => if_neg ?_
    rintro rfl
    exact ha (hactive.2 hid)

/-- A process is migrated by the list that the store gives. -/
theorem ofProcess_eq_ofListed (hs : Served h) (process : String × RemapTable) :
    ofProcess process h = ofListed Store.active process h := by
  rw [ofProcess, Access.perform_active (hs .active (by simp))]
  rfl

/-- **What a migration comes to.**  In whatever order the active instances are listed, each record
becomes what the processes make of it one after another. -/
theorem amounts_runListed (hs : Served h) (hlist : ∀ s p, (list s p).Perm (s.active p))
    (processes : List (String × RemapTable)) :
    Amounts h (runListed list processes h) (fate ofRecordIn processes) :=
  .each_of_forall fun process _ _ hfailing _ =>
    amounts_ofListed (hs.of_failing hfailing) hlist process

theorem amounts_run (hs : Served h) (processes : List (String × RemapTable)) :
    Amounts h (run processes h) (fate ofRecordIn processes) :=
  .each_of_forall fun process _ h' hfailing _ => by
    rw [ofProcess_eq_ofListed (hs.of_failing hfailing)]
    exact amounts_ofListed (hs.of_failing hfailing) (fun _ _ => .refl _) process

end

/-! ### Who is renewed -/

/-- An active record of a listed process, with a state. -/
structure Due (processes : List (String × RemapTable)) (r : Record) (remap : RemapTable)
    (bytes : List UInt8) : Prop where
  active : r.status = .active
  listed : (r.processId, remap) ∈ processes
  state : r.state = some bytes

/-- From one store to the next, exactly the records that can be renewed are renewed: their states are
written again with a manager of the same requests, and nothing else changes. -/
structure Renews (processes : List (String × RemapTable)) (s s' : Store) : Prop where
  absent {id : InstanceId} (hr : s.get? id = none) : s'.get? id = none
  renewed {id : InstanceId} {r : Record} {remap : RemapTable} {bytes : List UInt8}
    {soup : InstanceSoup} {requests : List Request} (hr : s.get? id = some r)
    (hdue : Due processes r remap bytes) (hrenew : Renewable remap bytes soup requests) :
    ∃ m : RequestManager, m.entries.Perm requests ∧ s'.get? id =
      some { r with state := some (Checkpoint.write (soup.withRequests (.manager m))) }
  kept {id : InstanceId} {r : Record} (hr : s.get? id = some r)
    (hkept : ∀ remap bytes, Due processes r remap bytes →
      ∀ soup requests, ¬ Renewable remap bytes soup requests) : s'.get? id = some r

section

variable {processes : List (String × RemapTable)} {r : Record}

/-- Of processes with different names, one at most is about a given record. -/
theorem fate_eq_ofRecord (hd : (processes.map Prod.fst).Nodup) {remap : RemapTable}
    (hactive : r.status = .active) (hlisted : (r.processId, remap) ∈ processes) :
    fate ofRecordIn processes r = ofRecord remap r := by
  rw [fate_of_mem keyed_ofRecordIn hd hlisted rfl]
  exact if_pos (by simp [Record.isActiveOf, hactive])

/-- Records that are not active or of no listed process stay as they are. -/
theorem fate_eq_self (h : ∀ remap, r.status = .active → (r.processId, remap) ∉ processes) :
    fate ofRecordIn processes r = (true, r) := by
  refine fate_of_still fun process hp => if_neg fun ha => ?_
  rw [Record.isActiveOf, Bool.and_eq_true, decide_eq_true_eq, decide_eq_true_eq] at ha
  exact h process.2 ha.2 (ha.1 ▸ hp)

/-- **What a migration renews.**  Of processes with different names, exactly the active instances are
renewed whose states are read to soups with lists of requests without a repeated conversation: their
states are written again with a manager of the same requests.  All else stays as it is.  All goes
well if and only if no active instance of these processes has a state that is not read or in which a
conversation repeats.  And the order in which instances are listed makes no difference. -/
theorem run_renews (hd : (processes.map Prod.fst).Nodup) {h : Host} (hs : Served h) :
    Renews processes h.store (run processes h).2.store ∧
    ((run processes h).1 = true ↔ ∀ id r remap bytes, h.store.get? id = some r →
      Due processes r remap bytes → ¬ Stuck remap bytes) ∧
    ∀ list : Store → String → List InstanceId, (∀ s p, (list s p).Perm (s.active p)) →
      (runListed list processes h).1 = (run processes h).1 ∧
      (runListed list processes h).2.store = (run processes h).2.store := by
  have hrun := amounts_run hs processes
  refine ⟨{ absent := ?_, renewed := ?_, kept := ?_ }, ?_, ?_⟩
  · intro id hr
    rw [hrun.get?_eq, hr, Option.map_none]
  · intro id r remap bytes soup requests hr hdue hrenew
    obtain ⟨m, hperm, he⟩ := ofRecord_of_renewable hdue.state hrenew
    refine ⟨m, hperm, ?_⟩
    rw [hrun.get?_eq, hr, Option.map_some, fate_eq_ofRecord hd hdue.active hdue.listed, he]
  · intro id r hr hkept
    rw [hrun.get?_eq, hr, Option.map_some]
    congr 1
    by_cases hlisted : r.status = .active ∧ ∃ remap, (r.processId, remap) ∈ processes
    · obtain ⟨hactive, remap, hlisted⟩ := hlisted
      rw [fate_eq_ofRecord hd hactive hlisted]
      exact ofRecord_snd_eq_self fun bytes hstate => hkept remap bytes ⟨hactive, hlisted, hstate⟩
    · rw [fate_eq_self fun remap hactive hp => hlisted ⟨hactive, remap, hp⟩]
  · rw [hrun.good_iff]
    constructor
    · intro hall id r remap bytes hr hdue
      have hgood := hall id r hr
      rw [fate_eq_ofRecord hd hdue.active hdue.listed, ofRecord_fst_eq_true_iff] at hgood
      exact hgood bytes hdue.state
    · intro hall id r hr
      by_cases hlisted : r.status = .active ∧ ∃ remap, (r.processId, remap) ∈ processes
      · obtain ⟨hactive, remap, hlisted⟩ := hlisted
        rw [fate_eq_ofRecord hd hactive hlisted, ofRecord_fst_eq_true_iff]
        exact fun bytes hstate => hall id r remap bytes hr ⟨hactive, hlisted, hstate⟩
      · rw [fate_eq_self fun remap hactive hp => hlisted ⟨hactive, remap, hp⟩]
  · exact fun list hlist => (amounts_runListed hs hlist processes).unique hrun

end

/-! ### Vigils of old -/

/-- Two requests that await their replies. -/
def vigilRequests : List Request :=
  [⟨"buyer", "approve", some "order-7", 7, none⟩, ⟨"buyer", "approve", none, 8, none⟩]

/-- A new vigil that keeps its requests in a list. -/
def oldVigil : InstanceSoup := Script.vigil.newSoup.withRequests (.list vigilRequests)

theorem oldVigil_fits : Soup.Fits Instant.Valid oldVigil :=
  Script.vigil_fits.steady_newSoup.fits.withRequests
    (show ∀ r ∈ vigilRequests, r.channel < 2 ^ 64 by decide)

/-- The record of a vigil with the given state. -/
def vigilRecord (id : InstanceId) (state : List UInt8) : Record :=
  { instanceId := id, processId := "vigil", state := some state, createdAt := ⟨0, 0⟩ }

/-- A vigil that keeps its requests in a list, and one whose state is lost. -/
def oldVigils : Host :=
  { store := (Store.empty.insert (vigilRecord 1 (Checkpoint.write oldVigil))).insert
      (vigilRecord 2 []) }

/-- The one is renewed, the other stays as it is and is reported. -/
theorem run_renews_oldVigils : Served oldVigils ∧
    (∃ m : RequestManager, m.entries.Perm vigilRequests ∧
      (run [("vigil", ∅)] oldVigils).2.store.get? 1 =
        some (vigilRecord 1 (Checkpoint.write (oldVigil.withRequests (.manager m))))) ∧
    (run [("vigil", ∅)] oldVigils).2.store.get? 2 = some (vigilRecord 2 []) ∧
    (run [("vigil", ∅)] oldVigils).1 = false := by
  have hs : Served oldVigils := fun _ _ => List.not_mem_nil
  have hread : Checkpoint.read ∅ (Checkpoint.write oldVigil) = .ok oldVigil :=
    Checkpoint.read_write oldVigil_fits
  have hlost : Checkpoint.read ∅ [] = .error (.truncated 0) := by decide +kernel
  have hfirst : oldVigils.store.get? 1 = some (vigilRecord 1 (Checkpoint.write oldVigil)) := rfl
  have hsecond : oldVigils.store.get? 2 = some (vigilRecord 2 []) := rfl
  have hd : ([("vigil", ∅)] : List (String × RemapTable)).map Prod.fst |>.Nodup :=
    List.nodup_singleton _
  obtain ⟨hrenews, hgood, -⟩ := run_renews hd hs
  refine ⟨hs, ?_, ?_, ?_⟩
  · exact hrenews.renewed hfirst ⟨rfl, List.mem_singleton_self _, rfl⟩ ⟨hread, rfl, by decide⟩
  · refine hrenews.kept hsecond fun remap bytes hdue soup requests hrenew => ?_
    cases List.mem_singleton.1 hdue.listed
    cases hdue.state
    cases hlost.symm.trans hrenew.read
  · rw [← Bool.not_eq_true, hgood]
    exact fun hall => hall 2 _ ∅ [] hsecond ⟨rfl, List.mem_singleton_self _, rfl⟩
      (.unreadable hlost)

end Migration

end Perdure
