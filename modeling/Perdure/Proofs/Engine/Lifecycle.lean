import Mathlib.Logic.ExistsUnique
import Perdure.Engine.Migration
import Perdure.Proofs.Engine.Run
import Perdure.Proofs.Failure
import Perdure.Proofs.Instance.Steady

/-!
# The life of a record

Four changes write to a store, and they are reached from many ends of a run and from migrations.
None of them looks at what it overwrites: a state could be put into a record that is finished, or an
end be recorded twice.  That this never happens rests on how the changes are reached, namely only
after the record was seen to be active, and without a change in between.

## Main definitions

* `Record.InForm` — which parts a record holds, by its status.
* `Record.Becomes` — what may become of a record.
* `Host.Onward` — from one host to the next, records are in form and become what they may.
* `Access.Onward` — work that leads a host onward, with what is known before and afterwards.
* `Happening`, `Engine.after` — what happens to an engine, and where a history of it ends.

## Main results

* `Access.Onward.bind` — pieces of work that lead onward do so one after another.
* `Engine.onward_reduce`, `Migration.onward_run` — runs and migrations lead onward.
* `Engine.lifecycle` — so does every history.
-/

namespace Perdure

/-! ### Forms of records -/

/-- The parts that a record holds, by its status. -/
inductive Record.InForm : Record → Status → Prop
  /-- There is a state to run from, and nothing to tell of an end. -/
  | active {instanceId : InstanceId} {processId : String} {bytes : List UInt8}
      {createdAt : Instant} :
      InForm ⟨instanceId, processId, .active, some bytes, none, createdAt, none⟩ .active
  | completed {instanceId : InstanceId} {processId : String} {createdAt completedAt : Instant} :
      InForm ⟨instanceId, processId, .completed, none, none, createdAt, some completedAt⟩ .completed
  | faulted {instanceId : InstanceId} {processId : String} {fault : String}
      {createdAt completedAt : Instant} :
      InForm ⟨instanceId, processId, .faulted, none, some fault, createdAt, some completedAt⟩
        .faulted
  /-- The state is kept for whoever looks into the failure. -/
  | broken {instanceId : InstanceId} {processId : String} {bytes : List UInt8} {reason : String}
      {createdAt : Instant} :
      InForm ⟨instanceId, processId, .broken, some bytes, some reason, createdAt, none⟩ .broken

namespace Record.InForm

variable {r : Record} {status : Status}

/-- A record is in the form of its own status only. -/
theorem status_eq (h : r.InForm status) : r.status = status := by
  cases h <;> rfl

/-- A record that is in some form is in exactly one. -/
theorem unique (h : r.InForm r.status) : ∃! status, r.InForm status := by
  refine ⟨r.status, h, ?_⟩
  intro status hstatus
  exact hstatus.status_eq.symm

end Record.InForm

/-- What may become of a record: it stays a record of the same process and of the same age, and once
it is not active it stays as it is. -/
structure Record.Becomes (r r' : Record) : Prop where
  processId : r'.processId = r.processId
  createdAt : r'.createdAt = r.createdAt
  settled : r.status ≠ .active → r' = r

namespace Record.Becomes

variable {r r' r'' : Record}

theorem refl (r : Record) : r.Becomes r where
  processId := rfl
  createdAt := rfl
  settled _ := rfl

theorem trans (h : r.Becomes r') (h' : r'.Becomes r'') : r.Becomes r'' where
  processId := h'.processId.trans h.processId
  createdAt := h'.createdAt.trans h.createdAt
  settled hr := by
    have hsame := h.settled hr
    rw [hsame] at h'
    exact h'.settled hr

end Record.Becomes

/-! ### Changes of active records -/

/-- The changes that an engine makes of a record that is active. -/
inductive Change.Due : Change → Prop
  | setState (id : InstanceId) (bytes : List UInt8) : Due (.setState id bytes)
  | completed (id : InstanceId) (at_ : Instant) : Due (.complete id .completed none at_)
  | faulted (id : InstanceId) (fault : String) (at_ : Instant) :
      Due (.complete id .faulted (some fault) at_)
  | markBroken (id : InstanceId) (reason : String) : Due (.markBroken id reason)

namespace Change.Due

variable {c : Change} {r : Record}

/-- A record that was active is in form after the change. -/
theorem inForm_update (hc : c.Due) (hr : r.InForm .active) :
    (c.update r).InForm (c.update r).status := by
  cases hr with
  | active =>
    cases hc with
    | setState => exact .active
    | completed => exact .completed
    | faulted => exact .faulted
    | markBroken => exact .broken

/-- No change touches the process or the age of a record. -/
theorem becomes_update (c : Change) (hr : r.status = .active) : r.Becomes (c.update r) where
  processId := by cases c <;> rfl
  createdAt := by cases c <;> rfl
  settled hover := absurd hr hover

theorem ne_create (hc : c.Due) (new : Record) : c ≠ .create new := by
  cases hc <;> exact nofun

end Change.Due

/-- What a run comes to is stored by one of the changes for active records. -/
theorem Engine.due_verdict (now : Instant) (id : InstanceId) (rest : Rest)
    (completion : Option (Option Fault)) (soup : InstanceSoup) :
    (Engine.verdict now id rest completion soup).1.Due := by
  cases completion with
  | some fault => cases fault with
    | none => exact .completed id now
    | some fault => exact .faulted id fault.name now
  | none => cases rest with
    | suspended => exact .setState id _
    | terminated => exact .markBroken id _

/-! ### Hosts that go onward -/

/-- All records are in the form of their status. -/
def Store.InForm (s : Store) : Prop := ∀ {id r}, s.get? id = some r → r.InForm r.status

/-- From one host to the next, records stay in form, and each of them becomes what it may. -/
structure Host.Onward (h h' : Host) : Prop where
  failing : h'.failing = h.failing
  inForm : h.store.InForm → h'.store.InForm
  becomes : h.store.InForm → ∀ {id r}, h.store.get? id = some r →
    ∃ r', h'.store.get? id = some r' ∧ r.Becomes r'

namespace Host.Onward

variable {h h' h'' : Host}

/-- Hosts with the same records. -/
theorem of_store_eq (hf : h'.failing = h.failing) (hs : h'.store = h.store) : h.Onward h' where
  failing := hf
  inForm hi := by
    rw [hs]
    exact hi
  becomes _ id r hr := by
    rw [hs]
    exact ⟨r, hr, .refl r⟩

theorem refl (h : Host) : h.Onward h := .of_store_eq rfl rfl

theorem trans (hw : h.Onward h') (hw' : h'.Onward h'') : h.Onward h'' where
  failing := hw'.failing.trans hw.failing
  inForm hi := hw'.inForm (hw.inForm hi)
  becomes hi id r hr := by
    obtain ⟨r', hr', hb⟩ := hw.becomes hi hr
    obtain ⟨r'', hr'', hb'⟩ := hw'.becomes (hw.inForm hi) hr'
    exact ⟨r'', hr'', hb.trans hb'⟩

/-- A new record in form leads onward if its name was not taken. -/
theorem create (hf : h'.failing = h.failing) {new : Record}
    (hfree : h.store.get? new.instanceId = none) (hnew : new.InForm new.status)
    (hs : h'.store = h.store.insert new) : h.Onward h' where
  failing := hf
  inForm hi id r hr := by
    rw [hs, Store.get?_insert] at hr
    split at hr
    · cases hr
      exact hnew
    · exact hi hr
  becomes _ id r hr := by
    have hne : id ≠ new.instanceId := by
      rintro rfl
      rw [hfree] at hr
      cases hr
    rw [hs, Store.get?_insert, if_neg hne]
    exact ⟨r, hr, .refl r⟩

/-- A due change leads onward if its record was active. -/
theorem update (hf : h'.failing = h.failing) {c : Change} (hc : c.Due) {r : Record}
    (hr : h.store.get? c.target = some r) (hactive : r.status = .active)
    (hs : h'.store = h.store.insert (c.update r)) : h.Onward h' where
  failing := hf
  inForm hi id q hq := by
    rw [hs, Store.get?_insert] at hq
    split at hq
    · cases hq
      exact hc.inForm_update (hactive ▸ hi hr)
    · exact hi hq
  becomes hi id q hq := by
    by_cases hid : id = c.target
    · subst hid
      rw [hr] at hq
      cases hq
      rw [hs]
      exact ⟨_, Store.get?_insert_update hr c, Change.Due.becomes_update c hactive⟩
    · have hne : id ≠ (c.update r).instanceId := by
        rw [Change.instanceId_update, Store.instanceId_of_get? hr]
        exact hid
      rw [hs, Store.get?_insert, if_neg hne]
      exact ⟨q, hq, .refl q⟩

end Host.Onward

/-! ### Work that leads onward -/

namespace Access

variable {ε ε' α β : Type}

/-- Work that leads onward from every host whose records are as told before; when it comes to its
end, the records are as told for its result. -/
structure Onward (before : Store → Prop) (work : Access ε α) (afterwards : α → Store → Prop) :
    Prop where
  host : ∀ {h : Host}, before h.store → h.Onward (work.perform h).2
  result : ∀ {h : Host} {a}, before h.store → (work.perform h).1 = .ok a →
    afterwards a (work.perform h).2.store

namespace Onward

variable {work : Access ε α} {before : Store → Prop} {afterwards : α → Store → Prop}

/-- Work that leaves the records alone leads onward. -/
theorem of_silent (hw : ∀ h : Host, (work.perform h).2.failing = h.failing ∧
      (work.perform h).2.store = h.store)
    (ha : ∀ {h : Host} {a}, before h.store → (work.perform h).1 = .ok a → afterwards a h.store) :
    Onward before work afterwards where
  host {h} _ := .of_store_eq (hw h).1 (hw h).2
  result {h a} hb ho := by
    rw [(hw h).2]
    exact ha hb ho

/-- Pieces of work that lead onward do so one after another. -/
theorem bind {next : α → Access ε β} {last : β → Store → Prop}
    (hw : Onward before work afterwards) (hn : ∀ a, Onward (afterwards a) (next a) last) :
    Onward before (work >>= next) last where
  host {h} hb := by
    have hfirst := hw.host hb
    rw [perform_bind]
    rcases hp : work.perform h with ⟨e | a, h'⟩
    · rw [hp] at hfirst
      exact hfirst
    · rw [hp] at hfirst
      have hafter := hw.result hb (congrArg Prod.fst hp)
      rw [hp] at hafter
      exact hfirst.trans ((hn a).host hafter)
  result {h b} hb ho := by
    rw [perform_bind] at ho ⊢
    rcases hp : work.perform h with ⟨e | a, h'⟩
    · rw [hp] at ho
      cases ho
    · rw [hp] at ho
      have hafter := hw.result hb (congrArg Prod.fst hp)
      rw [hp] at hafter
      exact (hn a).result hafter ho

theorem pure {a : α} (ha : ∀ {s}, before s → afterwards a s) :
    Onward before (Pure.pure a : Access ε α) afterwards :=
  of_silent (fun _ => ⟨rfl, rfl⟩) <| by
    intro h b hb ho
    cases ho
    exact ha hb

theorem throw (e : ε) : Onward before (MonadExcept.throw e : Access ε α) afterwards :=
  of_silent (fun _ => ⟨rfl, rfl⟩) (fun _ ho => nomatch ho)

/-- What is known of the records does not depend on a value. -/
theorem ofExcept (r : Except ε α) : Onward before (Access.ofExcept r) fun _ => before :=
  of_silent (fun _ => ⟨rfl, rfl⟩) (fun hb _ => hb)

theorem timer (a : Action) : Onward before (Access.timer a : Access ε Unit) fun _ => before :=
  of_silent (fun _ => ⟨rfl, rfl⟩) (fun hb _ => hb)

theorem relabel (hw : Onward before work afterwards) (f : ε → ε') :
    Onward before (work.relabel f) afterwards where
  host {h} hb := by
    rw [perform_relabel]
    exact hw.host hb
  result {h a} hb ho := by
    rw [perform_relabel] at ho ⊢
    cases hp : (work.perform h).1 with
    | error e =>
      rw [hp] at ho
      cases ho
    | ok a' =>
      rw [hp] at ho
      cases ho
      exact hw.result hb hp

theorem forM {l : List β} {each : β → Access ε Unit}
    (he : ∀ b, Onward before (each b) fun _ => before) :
    Onward before (l.forM each) fun _ => before := by
  induction l with
  | nil => exact pure id
  | cons b rest ih => exact (he b).bind fun _ => ih

/-- Who asks for a record knows what is stored. -/
theorem record (id : InstanceId) :
    Onward before (Access.record id) fun r s => before s ∧ s.get? id = some r := by
  apply of_silent
  · intro h
    rcases record_cases id h with ⟨refusal, hp⟩ | ⟨r, -, hp⟩ <;> rw [hp] <;> exact ⟨rfl, rfl⟩
  · intro h r hb ho
    rcases record_cases id h with ⟨refusal, hp⟩ | ⟨r', hr, hp⟩
    · rw [hp] at ho
      cases ho
    · rw [hp] at ho
      cases ho
      exact ⟨hb, hr⟩

theorem state (id : InstanceId) : Onward before (Access.state id) fun _ => before := by
  apply of_silent
  · intro h
    rcases state_cases id h with ⟨refusal, hp⟩ | ⟨r, -, hp⟩ <;> rw [hp] <;> exact ⟨rfl, rfl⟩
  · exact fun hb _ => hb

/-- The instances that are listed as active are active. -/
theorem active (processId : String) : Onward before (Access.active processId) fun ids s =>
    ∀ id ∈ ids, ∀ r, s.get? id = some r → r.status = .active := by
  apply of_silent
  · intro h
    rcases active_cases processId h with ⟨refusal, hp⟩ | hp <;> rw [hp] <;> exact ⟨rfl, rfl⟩
  · intro h ids _ ho id hid r hr
    rcases active_cases processId h with ⟨refusal, hp⟩ | hp
    · rw [hp] at ho
      cases ho
    · rw [hp] at ho
      cases ho
      obtain ⟨r', hr', -, hactive⟩ := Store.mem_active_iff.1 hid
      rw [hr'] at hr
      cases hr
      exact hactive

/-- A change leads onward if it does so whenever it is made. -/
theorem change {c : Change} {afterwards : Store → Prop}
    (hc : ∀ {h h' : Host}, before h.store → h'.failing = h.failing →
      c.apply h.store = .ok h'.store → h.Onward h' ∧ afterwards h'.store) :
    Onward before (Access.change c) fun _ => afterwards where
  host {h} hb := by
    rcases change_cases c h with ⟨refusal, hp⟩ | ⟨store, happly, hp⟩ <;> rw [hp]
    · exact .refl h
    · exact (hc hb (by rfl) happly).1
  result {h _} hb ho := by
    rcases change_cases c h with ⟨refusal, hp⟩ | ⟨store, happly, hp⟩
    · rw [hp] at ho
      cases ho
    · rw [hp]
      exact (@hc h { h with store } hb rfl happly).2

/-- A due change of a record that was just seen to be active leads onward. -/
theorem change_of_due {c : Change} (hc : c.Due)
    (hb : ∀ {s}, before s → ∀ r, s.get? c.target = some r → r.status = .active) :
    Onward before (Access.change c) fun _ _ => True := by
  apply change
  intro h h' hbefore hf happly
  refine ⟨?_, trivial⟩
  rcases Change.exists_of_apply happly with ⟨new, rfl, -, -⟩ | ⟨r, hr, hs⟩
  · exact absurd rfl (hc.ne_create new)
  · exact .update hf hc hr (hb hbefore r hr) hs

/-- A new record leads onward if it is in form. -/
theorem change_create {r : Record} (hr : r.InForm r.status) :
    Onward before (Access.change (.create r)) fun _ _ => True := by
  apply change
  intro h h' _ hf happly
  refine ⟨?_, trivial⟩
  unfold Change.apply at happly
  dsimp only at happly
  split at happly
  · cases happly
  · next hfree => exact .create hf hfree hr (Except.ok.inj happly).symm

end Onward

end Access

/-! ### The operations of an engine -/

namespace Engine

open Access (Onward)

variable {e : Engine} {clock : Nat → Instant} {id : InstanceId}

/-- A run that comes to rest leads onward if its record was active. -/
theorem onward_settle (now : Instant) (id : InstanceId) {r : Record} (hactive : r.status = .active)
    (outcome : Outcome Shared Task Receiver Message) :
    Onward (fun s => s.get? id = some r) (settle now id outcome) fun _ _ => True := by
  rcases hc : takeCompletion outcome.soup.drainEffects.2 with ⟨completion, soup⟩
  rcases hv : verdict now id outcome.rest completion soup with ⟨change, status⟩
  have htarget := target_verdict now id outcome.rest completion soup
  have hdue := due_verdict now id outcome.rest completion soup
  rw [hv] at htarget hdue
  rw [settle_eq outcome hc hv]
  apply Onward.bind
  · apply (Onward.change_of_due hdue ?_).relabel
    intro s hs r' hr'
    rw [htarget, hs] at hr'
    cases hr'
    exact hactive
  intro _
  apply Onward.bind (.forM fun effect => .timer _)
  intro _
  apply Onward.bind (.forM fun channel => .timer _)
  intro _
  exact .pure fun _ => trivial

/-- A run leads onward: nothing is stored unless the record was active, and what is stored then is
the one change that its end calls for. -/
theorem onward_reduce (i : Injection) :
    Onward (fun _ => True) (e.reduceBy clock id i) fun _ _ => True := by
  unfold reduceBy
  apply Onward.bind ((Onward.record id).relabel _)
  intro r
  split
  · exact .pure fun _ => trivial
  · next bytes hb =>
    have hactive : r.status = .active := by
      unfold Record.pending? at hb
      split at hb
      · cases hb
      · next hfinal =>
        cases hr : r.status with
        | active => rfl
        | completed | faulted | broken => exact absurd (by rw [hr]; rfl) hfinal
    apply Onward.bind (.ofExcept _)
    intro process
    apply Onward.bind (.ofExcept _)
    intro soup
    apply Onward.bind (.ofExcept _)
    intro sent
    split
    · next outcome _ =>
      have hsettle := onward_settle (clock outcome.reductions) id hactive outcome
      exact { host := fun hs => hsettle.host hs.2, result := fun _ _ => trivial }
    · apply Onward.bind
      · apply (Onward.change_of_due (.markBroken id _) ?_).relabel
        intro s hs r' hr'
        have hsame : s.get? id = some r' := hr'
        rw [hs.2] at hsame
        cases hsame
        exact hactive
      intro _
      exact .throw _

/-- The start of an instance leads onward: its record is new, and in form. -/
theorem onward_start (createdAt : Instant) (processId : String) :
    Onward (fun _ => True) (e.startBy clock id createdAt processId) fun _ _ => True := by
  unfold startBy
  apply Onward.bind (.ofExcept _)
  intro process
  apply Onward.bind (Onward.relabel (.change_create .active) _)
  intro _
  exact onward_reduce .start

/-- What an engine is called for leads onward. -/
theorem onward_serve (e : Engine) (clock : Nat → Instant) (id : InstanceId) (op : Operation) :
    Onward (fun _ => True) (e.serveBy clock id op) fun _ _ => True := by
  cases op with
  | start createdAt processId => exact onward_start createdAt processId
  | deliver | terminate => exact onward_reduce _

theorem onward_total {α : Type} {count : α → Access EngineError Nat} {before : Store → Prop}
    (hc : ∀ a, Onward before (count a) fun _ => before) (l : List α) :
    Onward before (total count l) fun _ => before := by
  induction l with
  | nil => exact .pure id
  | cons a rest ih =>
    apply Onward.bind (hc a)
    intro n
    apply Onward.bind ih
    intro m
    exact .pure id

theorem onward_recoverInstance (remap : RemapTable) (id : InstanceId) :
    Onward (fun _ => True) (recoverInstance remap id) fun _ _ => True := by
  unfold recoverInstance
  apply Onward.bind ((Onward.state id).relabel _)
  intro state
  split
  · exact .pure fun h => h
  · split
    · exact .pure fun h => h
    · apply Onward.bind (.forM fun armed => .timer _)
      intro _
      exact .pure fun h => h

/-- Recovery leads onward: it changes nothing that is stored. -/
theorem onward_recover (e : Engine) : Onward (fun _ => True) e.recover fun _ _ => True := by
  apply onward_total
  intro process
  apply Onward.bind ((Onward.active process.1).relabel _)
  intro ids
  have hall := onward_total (onward_recoverInstance process.2) ids
  exact { host := fun _ => hall.host trivial, result := fun _ _ => trivial }

end Engine

/-! ### Migrations -/

namespace Migration

open Access (Onward)

/-- The instances of a list are active. -/
def AllActive (ids : List InstanceId) (s : Store) : Prop :=
  ∀ id ∈ ids, ∀ r, s.get? id = some r → r.status = .active

/-- The renewal of an instance replaces the bytes of its state, where the store lets it, or does
nothing at all. -/
theorem perform_ofInstance_cases (remap : RemapTable) (id : InstanceId) (h : Host) :
    ((ofInstance remap id).perform h).2 = h ∨ ∃ r bytes,
      CallKind.state ∉ h.failing ∧ CallKind.setState ∉ h.failing ∧ h.store.get? id = some r ∧
      ((ofInstance remap id).perform h).2 = { h with
        store := h.store.insert ((Change.setState id bytes).update r)
        journal := h.journal ++ [.change (.setState id bytes)] } := by
  unfold ofInstance
  rw [Access.perform_bind, Access.perform_relabel]
  by_cases hstate : CallKind.state ∈ h.failing
  · rw [Access.state, Access.perform_calling_of_failing hstate]
    exact .inl rfl
  rw [Access.perform_state hstate]
  cases h.store.record id with
  | error e => exact .inl rfl
  | ok r =>
    simp only [Except.map, mapError_ok]
    cases r.state with
    | none => exact .inl rfl
    | some old =>
      simp only [Access.perform_bind, Access.perform_ofExcept]
      cases renewed? remap old with
      | error e => exact .inl rfl
      | ok renewed => cases renewed with
        | none => exact .inl rfl
        | some bytes =>
          simp only [Access.perform_relabel]
          by_cases hset : (Change.setState id bytes).kind ∈ h.failing
          · rw [Access.change, Access.perform_calling_of_failing hset]
            exact .inl rfl
          rw [Access.perform_change hset]
          split
          · next store happly =>
            rcases Change.exists_of_apply happly with ⟨_, hnew, -, -⟩ | ⟨r, hr, rfl⟩
            · cases hnew
            · exact .inr ⟨r, bytes, hstate, hset, hr, rfl⟩
          · exact .inl rfl

/-- The renewal of one of several active instances leads onward, and all of them stay active. -/
theorem onward_ofInstance (remap : RemapTable) {ids : List InstanceId} {id : InstanceId}
    (hid : id ∈ ids) {h : Host} (hall : AllActive ids h.store) :
    h.Onward ((ofInstance remap id).perform h).2 ∧
      AllActive ids ((ofInstance remap id).perform h).2.store := by
  rcases perform_ofInstance_cases remap id h with hsame | ⟨r, bytes, -, -, hr, hnext⟩
  · rw [hsame]
    exact ⟨.refl h, hall⟩
  · have hactive : r.status = .active := hall id hid r hr
    rw [hnext]
    refine ⟨.update rfl (.setState id bytes) hr hactive rfl, ?_⟩
    intro other hother q hq
    rw [Store.get?_insert] at hq
    split at hq
    · cases hq
      exact hactive
    · exact hall other hother q hq

theorem succeeds_snd {ε α : Type} (work : Access ε α) (h : Host) :
    (succeeds work h).2 = (work.perform h).2 := by
  unfold succeeds
  rcases work.perform h with ⟨_ | _, _⟩ <;> rfl

/-- What every piece of work keeps is kept by all of them. -/
theorem each_induction {α : Type} {work : α → Host → Bool × Host} {P : Host → Prop} {l : List α}
    (hw : ∀ a ∈ l, ∀ h, P h → P (work a h).2) {h : Host} (hp : P h) : P (each work l h).2 := by
  induction l generalizing h with
  | nil => exact hp
  | cons a rest ih =>
    have hfirst := hw a List.mem_cons_self h hp
    exact ih (fun b hb => hw b (List.mem_cons_of_mem a hb)) hfirst

theorem onward_ofProcess (process : String × RemapTable) (h : Host) :
    h.Onward (ofProcess process h).2 := by
  have hlist := @Onward.active (fun _ => True) process.1
  have honward := hlist.host (h := h) trivial
  unfold ofProcess
  split
  · next h' hp =>
    rw [hp] at honward
    exact honward
  · next ids h' hp =>
    have hactive := hlist.result (h := h) trivial (congrArg Prod.fst hp)
    rw [hp] at honward hactive
    -- A renewal keeps active what is active, hence all that were listed are so when it is their
    -- turn.
    refine (each_induction (P := fun g => h.Onward g ∧ AllActive ids g.store) ?_
      ⟨honward, hactive⟩).1
    intro id hid g ⟨hto, hkept⟩
    obtain ⟨hstep, hstill⟩ := onward_ofInstance process.2 hid hkept
    rw [succeeds_snd]
    exact ⟨hto.trans hstep, hstill⟩

/-- Migrations lead onward. -/
theorem onward_run (processes : List (String × RemapTable)) (h : Host) :
    h.Onward (run processes h).2 :=
  each_induction (P := h.Onward) (fun process _ g hto => hto.trans (onward_ofProcess process g))
    (.refl h)

end Migration

/-! ### Histories -/

/-- What happens to an engine and its host. -/
inductive Happening where
  /-- A process is deployed. -/
  | register (d : Definition) (remap : RemapTable)
  /-- An operation, under a clock that may move on while it lasts. -/
  | call (clock : Nat → Instant) (id : InstanceId) (op : Operation)
  | recover
  /-- Outstanding requests of some processes are migrated. -/
  | migrate (processes : List (String × RemapTable))

/-- An engine and its host after something happened to them, whatever came of it. -/
def Happening.next (at_ : Engine × Host) : Happening → Engine × Host
  | .register d remap => (at_.1.register d remap, at_.2)
  | .call clock id op => (at_.1, ((at_.1.serveBy clock id op).perform at_.2).2)
  | .recover => (at_.1, (at_.1.recover.perform at_.2).2)
  | .migrate processes => (at_.1, (Migration.run processes at_.2).2)

/-- An engine and its host after a history that begins with an empty store. -/
def Engine.after (e : Engine) (history : List Happening) : Engine × Host :=
  history.foldl Happening.next (e, {})

theorem Happening.onward_next (at_ : Engine × Host) (what : Happening) :
    at_.2.Onward (what.next at_).2 := by
  cases what with
  | register => exact .refl at_.2
  | call clock id op => exact (Engine.onward_serve at_.1 clock id op).host trivial
  | recover => exact (Engine.onward_recover at_.1).host trivial
  | migrate processes => exact Migration.onward_run processes at_.2

/-- A history leads onward from wherever it begins. -/
theorem Happening.onward_foldl (at_ : Engine × Host) (history : List Happening) :
    at_.2.Onward (history.foldl next at_).2 := by
  induction history generalizing at_ with
  | nil => exact .refl at_.2
  | cons what rest ih => exact (onward_next at_ what).trans (ih (what.next at_))

/-- **The life of a record.**  Whatever happens to an engine, in any order, each operation under a
clock of its own that may move on as it likes, each stored record is in exactly one of the forms of
`Record.InForm`.  Whatever else happens after that, the record is still there, with the same process
and the same age; and once it is not active, it stays as it is, and whoever delivers a message to
the instance or tells it to terminate just hears its status, and nothing is done. -/
theorem Engine.lifecycle (e : Engine) (history : List Happening) {id : InstanceId} {r : Record}
    (hr : (e.after history).2.store.get? id = some r) :
    (∃! status, r.InForm status) ∧
    (∀ more, ∃ r', (e.after (history ++ more)).2.store.get? id = some r' ∧
      r'.processId = r.processId ∧ r'.createdAt = r.createdAt ∧ (r.status ≠ .active → r' = r)) ∧
    (r.status ≠ .active → ∀ more clock,
      let (engine, host) := e.after (history ++ more)
      (∀ channel m, (engine.deliverBy clock id channel m).perform host = (.ok r.status, host)) ∧
      (engine.terminateBy clock id).perform host = (.ok r.status, host)) := by
  have hpast : ({} : Host).Onward (e.after history).2 := Happening.onward_foldl (e, {}) history
  have hform : (e.after history).2.store.InForm := hpast.inForm nofun
  have hlater (more : List Happening) : ∃ r',
      (e.after (history ++ more)).2.store.get? id = some r' ∧ r.Becomes r' := by
    unfold after
    rw [List.foldl_append]
    exact (Happening.onward_foldl _ more).becomes hform hr
  refine ⟨(hform hr).unique, ?_, ?_⟩
  · intro more
    obtain ⟨r', hr', hb⟩ := hlater more
    exact ⟨r', hr', hb.processId, hb.createdAt, hb.settled⟩
  · intro hover more clock
    obtain ⟨r', hr', hb⟩ := hlater more
    rw [hb.settled hover] at hr'
    have hfailing : (e.after (history ++ more)).2.failing = [] :=
      (Happening.onward_foldl (e, {}) (history ++ more)).failing
    have hfinal : r.status.isFinal = true := by
      cases hs : r.status with
      | active => exact absurd hs hover
      | completed | faulted | broken => rfl
    exact ⟨fun channel m => perform_reduce_of_final hfailing hr' hfinal _,
      perform_reduce_of_final hfailing hr' hfinal _⟩

/-- An engine with a process that has nothing to do. -/
def Engine.idle : Engine :=
  ({} : Engine).register { processId := "idle", name := "idle", root := 0
                           activities := [{ id := 0, name := none, kind := .empty }] } ∅

/-- A clock that shows a later second after each reduction. -/
def secondsAfter (start : Int) (n : Nat) : Instant := ⟨start + n, 0⟩

/-- The start of an instance. -/
def idleStart : Happening := .call (secondsAfter 0) 1 (.start ⟨0, 0⟩ "idle")

/-- An instance with nothing to do is completed by its start, at the time that the clock shows by
then, and stays so when the engine recovers, and when the instance is told to terminate and its
process is migrated. -/
theorem lifecycle_idle : ∃ r, (Engine.idle.after [idleStart, .recover]).2.store.get? 1 = some r ∧
    r.InForm .completed ∧ r.completedAt = some ⟨1, 0⟩ ∧
    (Engine.idle.after ([idleStart, .recover] ++
      [.call (secondsAfter 9) 1 .terminate, .migrate [("idle", ∅)]])).2.store.get? 1 = some r := by
  have hstored : ((Engine.idle.after [idleStart]).2.store.get? 1).map
      (fun r => (r.status, r.completedAt)) = some (.completed, some ⟨1, 0⟩) := by
    have hstart : Engine.idle.after [idleStart] = (Engine.idle,
      ((Engine.idle.startBy (secondsAfter 0) 1 ⟨0, 0⟩ "idle").perform {}).2) := rfl
    rw [hstart, Engine.perform_start_of_free rfl rfl ⟨0, 0⟩ rfl rfl
      (Checkpoint.read_write (Script.steady_newSoup _ (by decide)).fits)]
    unfold Engine.proceed
    rfl
  obtain ⟨r, hr, hends⟩ := Option.map_eq_some_iff.1 hstored
  obtain ⟨hstatus, hcompleted⟩ := Prod.mk.inj hends
  obtain ⟨⟨status, hform, -⟩, hmore, -⟩ := Engine.lifecycle Engine.idle [idleStart] hr
  have hsame : status = .completed := hform.status_eq.symm.trans hstatus
  have hstays (more : List Happening) :
      (Engine.idle.after (idleStart :: more)).2.store.get? 1 = some r := by
    obtain ⟨r', hr', -, -, hover⟩ := hmore more
    rw [hover (by rw [hstatus]; exact nofun)] at hr'
    exact hr'
  exact ⟨r, hstays [.recover], hsame ▸ hform, hcompleted,
    hstays [.recover, .call (secondsAfter 9) 1 .terminate, .migrate [("idle", ∅)]]⟩

end Perdure
