import Perdure.Proofs.Engine.Rearming

/-!
# What happens at a site

At a site there are an engine, its store and the timers that are pending outside, and all that
happens there are deployments, calls, recoveries and timers that go off.  An instance has two things
there: its record, and its pending timers.  Whatever happens changes these two in a few ways only,
and all of them are listed here: what an instance has after a step is told from what it had before,
without a look at the engine.

## Main definitions

* `SiteEvent`, `Site.next`, `Site.after` — what happens at a site, one after another.
* `Engine.Counts`, `Site.Counts` — the counters are words in what the run of an event comes to.
* `Presence`, `Site.presence` — what an instance has at a site.
* `Intake` — what is put into the soup of an instance before it runs.
* `Presence.Step` — what may become of a presence.

## Main results

* `Engine.ran_reduce`, `Engine.ran_serve` — what runs do on a store that works.
* `Site.step_next` — whatever happens, the presence of an instance changes by such a step.
-/

namespace Perdure

open Access (perform_bind)

/-! ### Runs on a store that works -/

/-- What an operation puts into the soup of its instance. -/
def Operation.injection : Operation → Injection
  | .start .. => .start
  | .deliver channel m => .message channel m
  | .terminate => .terminate

theorem Operation.Fits.injection {operation : Operation} (h : operation.Fits) :
    operation.injection.Fits := by
  cases operation with
  | start | terminate => trivial
  | deliver => exact h

/-- The soup that is stored when an instance has come to rest: its effects are handed over, and the
messages of its root activity are taken. -/
def Soup.settled (s : InstanceSoup) : InstanceSoup := (Solo.heard s.drainEffects.2).2

/-- The first completion among the messages of the root activity. -/
def Soup.completion? (s : InstanceSoup) : Option (Option Fault) :=
  (Solo.heard s.drainEffects.2).1.findSome? Message.completion?

/-- Nothing but messages and effects is taken out before a soup is stored. -/
theorem Soup.settled_frame (s : InstanceSoup) :
    s.settled = { s with messages := s.settled.messages, outbox := [] } := heard_frame _

/-- What is stored of a lasting soup is lasting. -/
theorem Soup.Lasting.settled {T : Instant → Prop} {Q : Part → Prop} {s : InstanceSoup}
    (h : s.Lasting T Q) : s.settled.Lasting T Q := h.drainEffects.heard

/-- Messages that are stored waited before. -/
theorem Soup.mem_queue_of_settled {s : InstanceSoup} {c : Channel} {m : Message}
    (h : m ∈ s.settled.queue c) : m ∈ s.queue c := by
  unfold settled Solo.heard at h
  split at h
  · rw [Soup.queue_takeMessages] at h
    split at h
    · cases h
    · exact h
  · exact h

namespace Engine

variable {e : Engine} {clock : Nat → Instant} {now : Instant} {id : InstanceId} {i : Injection}
  {h : Host}

/-- What a run of an instance does on a store that works. -/
inductive Ran (e : Engine) (now : Instant) (id : InstanceId) (i : Injection) (h : Host) :
    Except EngineError Status × Host → Prop
  /-- There was no soup to run from, or nowhere to put in what was to be put in. -/
  | idle {result : Except EngineError Status}
      (hno : ∀ r d soup sent, h.store.get? id = some r → e.Loads r d soup →
        i.into id soup ≠ .ok sent) : Ran e now id i h (result, h)
  /-- A reduction failed; the instance is marked. -/
  | failed {r : Record} {d : Deployed} {soup sent : InstanceSoup}
      {source : ReductionError RunError} {change : Change} (hr : h.store.get? id = some r)
      (hl : e.Loads r d soup) (hsent : i.into id soup = .ok sent)
      (ho : d.script.program.execute now e.limit sent = .error source)
      (hc : change = .markBroken id (source.message RunError.message)) :
      Ran e now id i h (.error (.reduction id source), h.make change r)
  /-- The instance came to rest: its verdict is stored, its timers are asked for, and after its end
  those that are still armed are cancelled. -/
  | rested {r : Record} {d : Deployed} {soup sent : InstanceSoup}
      {o : Outcome Shared Task Receiver Message} {change : Change} {status : Status}
      (hr : h.store.get? id = some r) (hl : e.Loads r d soup) (hsent : i.into id soup = .ok sent)
      (ho : d.script.program.execute now e.limit sent = .ok o)
      (hv : verdict now id o.rest o.soup.completion? o.soup.settled = (change, status)) :
      Ran e now id i h (.ok status, { h.make change r with
        journal := (h.make change r).journal ++ (o.soup.outbox.map (enact id) ++
          (if status.isFinal then o.soup.settled.timers.keys else []).map (.cancelTimer id)) })

/-- What a run does once it has its soup and comes to rest. -/
theorem perform_proceed_of_ok {r : Record} {script : Script} {soup : InstanceSoup}
    {o : Outcome Shared Task Receiver Message} {change : Change} {status : Status}
    (hf : h.failing = []) (hr : h.store.get? id = some r)
    (ho : (script.program.executeBy clock e.limit soup).outcome = .ok o)
    (hv : verdict (clock o.reductions) id o.rest o.soup.completion? o.soup.settled =
      (change, status)) :
    (e.proceed clock id script soup).perform h = (.ok status, { h.make change r with
      journal := (h.make change r).journal ++ (o.soup.outbox.map (enact id) ++
        (if status.isFinal then o.soup.settled.timers.keys else []).map (.cancelTimer id)) }) := by
  unfold proceed
  rw [ho]
  dsimp only
  rw [perform_settle hf hr o (takeCompletion_eq _) hv, List.append_cons]
  rfl

/-- What a run does once it has its soup. -/
theorem ran_proceed {r : Record} {d : Deployed} {soup sent : InstanceSoup} (hf : h.failing = [])
    (hr : h.store.get? id = some r) (hl : e.Loads r d soup) (hsent : i.into id soup = .ok sent) :
    Ran e now id i h ((e.proceed (fun _ => now) id d.script sent).perform h) := by
  have hby := d.script.program.execute_eq now e.limit sent
  cases ho : d.script.program.execute now e.limit sent with
  | error source =>
    rw [perform_proceed_of_error hf hr (hby.symm.trans ho) rfl]
    exact .failed hr hl hsent ho rfl
  | ok o =>
    rcases hv : verdict now id o.rest o.soup.completion? o.soup.settled with ⟨change, status⟩
    rw [perform_proceed_of_ok hf hr (hby.symm.trans ho) hv]
    exact .rested hr hl hsent ho hv

/-- Every run on a store that works is one of these. -/
theorem ran_reduce (e : Engine) (now : Instant) (id : InstanceId) (i : Injection)
    (hf : h.failing = []) : Ran e now id i h ((e.reduce now id i).perform h) := by
  unfold reduce
  cases hr : h.store.get? id with
  | none =>
    rw [perform_reduce_of_missing hf hr]
    refine .idle fun r d soup sent hr' => ?_
    rw [hr] at hr'
    cases hr'
  | some r =>
    -- nothing is stored and nothing is asked for before there is a soup to run from
    have hidle {result : Except EngineError Status}
        (hno : ∀ d soup sent, e.Loads r d soup → i.into id soup ≠ .ok sent) :
        Ran e now id i h (result, h) := by
      refine .idle fun r' d soup sent hr' => ?_
      rw [hr] at hr'
      cases hr'
      exact hno d soup sent
    by_cases hloads : ∃ d soup, e.Loads r d soup
    · obtain ⟨d, soup, hl⟩ := hloads
      obtain ⟨bytes, hb, hread⟩ := hl.read
      rw [perform_reduce hf hr hb hl.deployed hread]
      cases hsent : i.into id soup with
      | ok sent => exact ran_proceed hf hr hl hsent
      | error refusal =>
        refine hidle fun d' soup' sent hl' hsent' => ?_
        obtain ⟨-, rfl⟩ := hl.unique hl'
        rw [hsent] at hsent'
        cases hsent'
    · have hno (d : Deployed) (soup : InstanceSoup) : ¬ e.Loads r d soup := fun hl =>
        hloads ⟨d, soup, hl⟩
      have hquiet (result : Except EngineError Status) : Ran e now id i h (result, h) :=
        hidle fun d soup _ hl => absurd hl (hno d soup)
      unfold reduceBy
      rw [perform_bind, perform_record_of_get? hf hr]
      dsimp only
      cases hb : r.pending? with
      | none => exact hquiet (.ok r.status)
      | some bytes =>
        dsimp only
        rw [perform_bind, Access.perform_ofExcept]
        unfold deployed
        cases hd : e.processes.get? r.processId with
        | none => exact hquiet _
        | some d =>
          dsimp only
          rw [perform_bind, Access.perform_ofExcept]
          cases hread : Checkpoint.read d.remap bytes with
          | error source => exact hquiet _
          | ok soup => exact absurd ⟨hd, bytes, hb, hread⟩ (hno d soup)

/-- What a call does on a store that works: nothing, or it has its instance run. -/
theorem ran_serve (e : Engine) (c : EngineCall) (hf : h.failing = []) :
    (∃ createdAt processId refusal, c.operation = .start createdAt processId ∧
      (e.serve c).perform h = (.error refusal, h)) ∨
    ∃ h₀, Begins e c h h₀ ∧ Ran e c.now c.id c.operation.injection h₀ ((e.serve c).perform h) := by
  unfold serve
  cases hc : c.operation with
  | start createdAt processId =>
    rcases perform_start_cases hc h with ⟨refusal, -, hrefused⟩ | ⟨r, hnew, hid, hfree, hrun⟩
    · exact .inl ⟨createdAt, processId, refusal, rfl, hrefused⟩
    · refine .inr ⟨_, .created hnew hid hfree, ?_⟩
      dsimp only
      rw [hrun]
      exact ran_reduce e c.now c.id .start hf
  | deliver channel m =>
    refine .inr ⟨h, .stored ?_, ran_reduce e c.now c.id _ hf⟩
    unfold origin?
    rw [hc]
  | terminate =>
    refine .inr ⟨h, .stored ?_, ran_reduce e c.now c.id _ hf⟩
    unfold origin?
    rw [hc]

end Engine

/-! ### What happens at a site -/

/-- What happens at a site. -/
inductive SiteEvent where
  | register (d : Definition) (remap : RemapTable)
  | call (c : EngineCall)
  | recover
  /-- A pending timer goes off. -/
  | expire (now : Instant) (key : TimerKey)

/-- The call by which an instance is told that a timer of its own went off. -/
def TimerKey.call (now : Instant) (key : TimerKey) : EngineCall :=
  ⟨now, key.instanceId, .deliver key.channel .timeout⟩

namespace SiteEvent

/-- Is a message delivered that no timer has sent? -/
def IsDelivery : SiteEvent → Prop
  | .call c => ∃ channel m, c.operation = .deliver channel m
  | _ => False

/-- Is a process deployed, perhaps in place of another one? -/
def IsRegistration : SiteEvent → Prop
  | .register .. => True
  | _ => False

instance : (v : SiteEvent) → Decidable v.IsDelivery
  | .call ⟨_, _, .deliver channel m⟩ => .isTrue ⟨channel, m, rfl⟩
  | .call ⟨_, _, .start ..⟩ | .call ⟨_, _, .terminate⟩ => .isFalse fun ⟨_, _, hc⟩ => nomatch hc
  | .register .. | .recover | .expire .. => .isFalse id

theorem eq_register_of_isRegistration {v : SiteEvent} (hv : v.IsRegistration) :
    ∃ d remap, v = .register d remap := by
  cases v with
  | register d remap => exact ⟨d, remap, rfl⟩
  | call | recover | expire => cases hv

/-- Clocks show valid times and numbers are words; scripts fit, and no shape that a soup is stored
with is renamed. -/
def Fits (evaluator : Occasion → Evaluator) : SiteEvent → Prop
  | .register d remap => Script.Fits ⟨d, evaluator⟩ ∧ remap.Spares InstanceSoup.shapes
  | .call c => c.Fits
  | .recover => True
  | .expire now key => (key.call now).Fits

end SiteEvent

/-- The counters are words in whatever soup a call has its instance come to rest. -/
def Engine.Counts (e : Engine) (s : Store) (c : EngineCall) : Prop :=
  ∀ r d soup sent o, e.origin? c s = some r → e.Loads r d soup →
    c.operation.injection.into c.id soup = .ok sent →
    d.script.program.execute c.now e.limit sent = .ok o → o.soup.Counted

namespace Site

/-- A site after an event.  Only a pending timer goes off: it is taken out, and its instance is
told. -/
def next (s : Site) : SiteEvent → Site
  | .register d remap => { s with engine := s.engine.register d remap }
  | .call c => (s.perform (s.engine.serve c)).2
  | .recover => (s.perform s.engine.recover).2
  | .expire now key =>
    if s.pending.contains key then
      ({ s with now, pending := s.pending.erase key }.perform (s.engine.serve (key.call now))).2
    else s

/-- An event that is no registration leaves the engine as it is. -/
theorem engine_next {s : Site} {v : SiteEvent} (hv : ¬ v.IsRegistration) :
    (s.next v).engine = s.engine := by
  cases v with
  | register => exact absurd trivial hv
  | call | recover => rfl
  | expire =>
    unfold next
    dsimp only
    split <;> rfl

@[simp] theorem evaluator_next (s : Site) (v : SiteEvent) :
    (s.next v).engine.evaluator = s.engine.evaluator := by
  by_cases hv : v.IsRegistration
  · obtain ⟨d, remap, rfl⟩ := SiteEvent.eq_register_of_isRegistration hv
    rfl
  · rw [engine_next hv]

/-- A site after several events. -/
def after (s : Site) (events : List SiteEvent) : Site := events.foldl next s

/-- So do several of them. -/
theorem engine_after {s : Site} {events : List SiteEvent} (h : ∀ v ∈ events, ¬ v.IsRegistration) :
    (s.after events).engine = s.engine := by
  induction events generalizing s with
  | nil => rfl
  | cons v rest ih =>
    have hrest : ((s.next v).after rest).engine = (s.next v).engine :=
      ih fun v' hv' => h v' (List.mem_cons_of_mem v hv')
    exact hrest.trans (engine_next (h v List.mem_cons_self))

/-- The counters are words in whatever soup an event has an instance come to rest. -/
def Counts (s : Site) : SiteEvent → Prop
  | .call c => s.engine.Counts s.host.store c
  | .expire now key => s.engine.Counts s.host.store (key.call now)
  | _ => True

/-- The counters are words all along. -/
def Counted (s : Site) : List SiteEvent → Prop
  | [] => True
  | v :: rest => s.Counts v ∧ (s.next v).Counted rest

@[simp] theorem counted_nil (s : Site) : s.Counted [] := trivial

@[simp] theorem counted_cons (s : Site) (v : SiteEvent) (rest : List SiteEvent) :
    s.Counted (v :: rest) ↔ s.Counts v ∧ (s.next v).Counted rest := by
  rw [Counted]

@[simp] theorem after_nil (s : Site) : s.after [] = s := by
  rw [after, List.foldl_nil]

@[simp] theorem after_cons (s : Site) (v : SiteEvent) (rest : List SiteEvent) :
    s.after (v :: rest) = (s.next v).after rest := by
  rw [after, List.foldl_cons, after]

/-- A new site: nothing is deployed, and nothing has happened yet. -/
def founded (evaluator : Occasion → Evaluator) (limit : Nat) (now : Instant) : Site where
  engine := { evaluator, limit }
  now := now

/-- The store works, and all that was asked for has been done. -/
structure Ready (s : Site) : Prop where
  failing : s.host.failing = []
  journal : s.host.journal = []

end Site

/-! ### What an instance has at a site -/

/-- What an instance has at a site: its record, and its pending timers. -/
structure Presence where
  record : Option Record
  pending : Pending

/-- What an instance has at a site. -/
def Site.presence (s : Site) (id : InstanceId) : Presence :=
  ⟨s.host.store.get? id, pendingOf s.pending id⟩

/-- What is put into an instance, and how its pending timers are told: one that goes off is pending
no more.  Whether anything else is delivered is up to the outside. -/
inductive Intake (outside : Prop) (w : Pending) : Injection → Pending → Prop
  | start : Intake outside w .start w
  | delivery {c : Channel} {m : Message} (hout : outside) (hc : c < 2 ^ 64) (hm : m.Fits) :
      Intake outside w (.message c m) w
  | terminate : Intake outside w .terminate w
  | expiry {t : Channel} (hw : w t ≠ none) (ht : t < 2 ^ 64) :
      Intake outside w (.message t .timeout) (w.set t none)

theorem Intake.fits {outside : Prop} {w w₀ : Pending} {i : Injection} (h : Intake outside w i w₀) :
    i.Fits := by
  cases h with
  | start | terminate => trivial
  | delivery _ hc hm => exact ⟨hc, hm⟩
  | expiry _ ht => exact ⟨ht, trivial⟩

namespace Presence

/-- The record from which an instance is run: the one that it has, or a new one at its start. -/
inductive Origin (e : Engine) (p : Presence) : Injection → Record → Prop
  | stored {i : Injection} {r : Record} (hr : p.record = some r) : Origin e p i r
  | newborn {r : Record} {d : Deployed} (hnone : p.record = none)
      (hd : e.processes.get? r.processId = some d) (hactive : r.status = .active)
      (hstate : r.state = some (Checkpoint.write d.script.newSoup)) : Origin e p .start r

/-- An instance has something to run from, and something is put into it. -/
structure Enters (e : Engine) (id : InstanceId) (outside : Prop) (p : Presence) (r : Record)
    (d : Deployed) (soup sent : InstanceSoup) (w : Pending) : Prop where
  loads : e.Loads r d soup
  put : ∃ i, Origin e p i r ∧ Intake outside p.pending i w ∧ i.into id soup = .ok sent

/-- What may become of what an instance has at a site. -/
inductive Step (e : Engine) (id : InstanceId) (outside : Prop) (p : Presence) : Presence → Prop
  | same : Step e id outside p p
  /-- Recovery asks for the armed timers of the stored state. -/
  | rearmed {r : Record} {d : Deployed} {soup : InstanceSoup} (hr : p.record = some r)
      (hl : e.Loads r d soup) :
      Step e id outside p ⟨p.record, fun t => (soup.timers.get? t).or (p.pending t)⟩
  /-- There is no instance to put something into. -/
  | missing {i : Injection} {w : Pending} (hr : p.record = none)
      (hi : Intake outside p.pending i w) : Step e id outside p ⟨none, w⟩
  /-- There is nothing to run from, or nowhere to put in what was to be put in. -/
  | unread {i : Injection} {r : Record} {w : Pending} (ho : Origin e p i r)
      (hi : Intake outside p.pending i w)
      (hno : ∀ d soup sent, e.Loads r d soup → i.into id soup ≠ .ok sent) :
      Step e id outside p ⟨some r, w⟩
  /-- A reduction fails: the record is marked, and no timer is cancelled. -/
  | failed {r : Record} {d : Deployed} {soup sent : InstanceSoup} {w : Pending} {now : Instant}
      {source : ReductionError RunError} (h : Enters e id outside p r d soup sent w)
      (ho : d.script.program.execute now e.limit sent = .error source) :
      Step e id outside p ⟨some ((Change.markBroken id (source.message RunError.message)).update r), w⟩
  /-- The instance waits: its soup is stored, and its effects are carried out. -/
  | waiting {r : Record} {d : Deployed} {soup sent : InstanceSoup} {w : Pending} {now : Instant}
      {o : Outcome Shared Task Receiver Message} (h : Enters e id outside p r d soup sent w)
      (hnow : now.Valid) (ho : d.script.program.execute now e.limit sent = .ok o)
      (hcounted : o.soup.Counted) (hrest : o.rest = .suspended)
      (hnone : o.soup.completion? = none) :
      Step e id outside p ⟨some ((Change.setState id (Checkpoint.write o.soup.settled)).update r),
        w.after o.soup.outbox⟩
  /-- The instance came to its end: its effects are carried out, and what is still armed is
  cancelled. -/
  | ended {r q : Record} {d : Deployed} {soup sent : InstanceSoup} {w : Pending} {now : Instant}
      {o : Outcome Shared Task Receiver Message} (h : Enters e id outside p r d soup sent w)
      (ho : d.script.program.execute now e.limit sent = .ok o) (hfinal : q.status.isFinal = true) :
      Step e id outside p ⟨some q,
        (w.after o.soup.outbox).after (o.soup.settled.timers.keys.map .cancelTimer)⟩

/-- The first completion decides what becomes of an instance that came to rest; without one it
waits, or it is stranded. -/
theorem Enters.step_verdict {e : Engine} {id : InstanceId} {outside : Prop} {p : Presence}
    {r : Record} {d : Deployed} {soup sent : InstanceSoup} {w : Pending} {now : Instant}
    {o : Outcome Shared Task Receiver Message} {change : Change} {status : Status}
    (h : p.Enters e id outside r d soup sent w) (hnow : now.Valid)
    (ho : d.script.program.execute now e.limit sent = .ok o) (hcounted : o.soup.Counted)
    (hv : Engine.verdict now id o.rest o.soup.completion? o.soup.settled = (change, status)) :
    p.Step e id outside ⟨some (change.update r), (w.after o.soup.outbox).after
      ((if status.isFinal then o.soup.settled.timers.keys else []).map .cancelTimer)⟩ := by
  unfold Engine.verdict at hv
  cases hcompletion : o.soup.completion? with
  | some fault =>
    rw [hcompletion] at hv
    cases hv
    cases fault <;> exact .ended h ho rfl
  | none =>
    rw [hcompletion] at hv
    cases hrest : o.rest with
    | terminated =>
      rw [hrest] at hv
      cases hv
      exact .ended h ho rfl
    | suspended =>
      rw [hrest] at hv
      cases hv
      exact .waiting h hnow ho hcounted hrest hcompletion

end Presence

/-! ### Everything that happens is such a step -/

namespace Site

open Presence (Step Origin)

variable {s : Site} {id : InstanceId} {outside : Prop}

/-- What an instance has after some work is told by its record and by what was asked for. -/
theorem presence_perform {ε α : Type} (s : Site) (work : Access ε α) (id : InstanceId) :
    (s.perform work).2.presence id = ⟨(work.perform s.host).2.store.get? id,
      (pendingOf s.pending id).after
        ((work.perform s.host).2.journal.filterMap (Action.effectFor? id))⟩ := by
  unfold presence perform
  dsimp only
  rw [pendingOf_foldl]

/-- A timer that is taken out is pending no more; no other instance takes notice. -/
theorem pendingOf_erase (pending : Table TimerKey Instant) (key : TimerKey) (id : InstanceId) :
    pendingOf (pending.erase key) id = if key.instanceId = id
      then (pendingOf pending id).set key.channel none else pendingOf pending id := by
  have hsame := pendingOf_onPending pending id (.cancelTimer key.instanceId key.channel)
  unfold Action.onPending Action.effectFor? at hsame
  dsimp only at hsame
  rw [hsame]
  split <;> rfl

/-- Events leave a site ready. -/
theorem Ready.next (hs : s.Ready) (v : SiteEvent) : (s.next v).Ready := by
  have hserve {s : Site} (hs : s.Ready) (c : EngineCall) :
      (s.perform (s.engine.serve c)).2.Ready :=
    { failing := (s.engine.confined_serve c s.host).failing.trans hs.failing, journal := rfl }
  cases v with
  | register d remap => exact ⟨hs.failing, hs.journal⟩
  | call c => exact hserve hs c
  | recover =>
    obtain ⟨n, hrecover⟩ := s.engine.perform_recover hs.failing
    refine { failing := ?_, journal := rfl }
    show (s.engine.recover.perform s.host).2.failing = []
    rw [hrecover]
    exact hs.failing
  | expire now key =>
    show (if s.pending.contains key then _ else s).Ready
    split
    · exact hserve (s := { s with now, pending := s.pending.erase key })
        ⟨hs.failing, hs.journal⟩ (key.call now)
    · exact hs

/-- The record that a call runs its instance from was there, or is new. -/
theorem origin_of_begins {e : Engine} {c : EngineCall} {h h₀ : Host} (hb : Engine.Begins e c h h₀)
    {r : Record} (hr : h₀.store.get? c.id = some r) (w : Pending) :
    Origin e ⟨h.store.get? c.id, w⟩ c.operation.injection r := by
  cases hb with
  | stored => exact .stored hr
  | @created new hnew hid hfree =>
    have hget : (h.store.insert new).get? c.id = some new := h.store.get?_insert_self hid
    have hr : (h.store.insert new).get? c.id = some r := hr
    rw [hget] at hr
    cases hr
    obtain ⟨⟨createdAt, hc⟩, -, hactive, d, hd, hstate⟩ := Engine.exists_of_newborn? hnew
    have hi : c.operation.injection = .start := by rw [hc]; rfl
    rw [hi]
    exact .newborn hfree hd hactive hstate

/-- A call changes what its instance has by a step. -/
theorem step_serve (hs : s.Ready) {c : EngineCall} {w : Pending}
    (hi : Intake outside w c.operation.injection (pendingOf s.pending c.id)) (hnow : c.now.Valid)
    (hcounts : s.engine.Counts s.host.store c) :
    Step s.engine c.id outside ⟨s.host.store.get? c.id, w⟩
      ((s.perform (s.engine.serve c)).2.presence c.id) := by
  rw [presence_perform]
  rcases s.engine.ran_serve c hs.failing with ⟨createdAt, processId, refusal, hc, hrefused⟩ |
    ⟨h₀, hb, hran⟩
  · rw [hrefused, hs.journal]
    have hstart : c.operation.injection = .start := by rw [hc]; rfl
    rw [hstart] at hi
    generalize pendingOf s.pending c.id = w₀ at hi
    cases hi
    exact .same
  · -- before the run no timer is asked for
    have hquiet : h₀.journal.filterMap (Action.effectFor? c.id) = [] := by
      obtain ⟨changes, hjournal⟩ := hb.journal_eq
      rw [hjournal, hs.journal, List.nil_append, List.filterMap_eq_nil_iff]
      intro a ha
      obtain ⟨change, -, rfl⟩ := List.mem_map.1 ha
      rfl
    have horigin {r : Record} (hr : h₀.store.get? c.id = some r) :
        Origin s.engine ⟨s.host.store.get? c.id, w⟩ c.operation.injection r :=
      origin_of_begins hb hr w
    have hupdate {r : Record} (hr : h₀.store.get? c.id = some r) (change : Change) :
        (h₀.store.insert (change.update r)).get? c.id = some (change.update r) :=
      Store.get?_insert_update hr change
    generalize (s.engine.serve c).perform s.host = did at hran
    cases hran with
    | idle hno =>
      dsimp only
      rw [hquiet]
      cases hr : h₀.store.get? c.id with
      | none =>
        have hmissing : s.host.store.get? c.id = none := by
          rcases hb.store_eq with hsame | ⟨r, hnew, hfree, -⟩
          · rw [← hsame, hr]
          · exact hfree
        exact .missing hmissing hi
      | some r => exact .unread (horigin hr) hi fun d soup sent => hno r d soup sent hr
    | @failed r d soup sent source change hr hl hsent ho hc =>
      subst hc
      have hjournal : (h₀.make (.markBroken c.id (source.message RunError.message)) r).journal =
          h₀.journal ++ [.change (.markBroken c.id (source.message RunError.message))] := rfl
      have hstore : (h₀.make (.markBroken c.id (source.message RunError.message)) r).store =
          h₀.store.insert ((Change.markBroken c.id (source.message RunError.message)).update r) := rfl
      dsimp only
      rw [hjournal, hstore, hupdate hr, List.filterMap_append, hquiet]
      exact .failed ⟨hl, _, horigin hr, hi, hsent⟩ ho
    | @rested r d soup sent o change status hr hl hsent ho hv =>
      have hstore : (h₀.make change r).store = h₀.store.insert (change.update r) := rfl
      have heffects : ((h₀.make change r).journal ++ (o.soup.outbox.map (Engine.enact c.id) ++
          (if status.isFinal then o.soup.settled.timers.keys else []).map
            (Action.cancelTimer c.id))).filterMap (Action.effectFor? c.id) = o.soup.outbox ++
          (if status.isFinal then o.soup.settled.timers.keys else []).map Effect.cancelTimer := by
        have hjournal : (h₀.make change r).journal = h₀.journal ++ [.change change] := rfl
        rw [hjournal, List.filterMap_append, List.filterMap_append, List.filterMap_append, hquiet,
          filterMap_effectFor?_enact, filterMap_effectFor?_cancelTimer]
        rfl
      dsimp only
      rw [heffects, hstore, hupdate hr, Pending.after_append]
      have henters : Presence.Enters s.engine c.id outside ⟨s.host.store.get? c.id, w⟩ r d soup sent
          (pendingOf s.pending c.id) := ⟨hl, _, horigin hr, hi, hsent⟩
      have hcounted : o.soup.Counted := by
        refine hcounts r d soup sent o ?_ hl hsent ho
        rw [hb.origin?_eq, hr]
      exact henters.step_verdict hnow ho hcounted hv

/-- What is done about another instance changes nothing. -/
theorem presence_serve_of_ne (hs : s.Ready) {c : EngineCall} (hid : c.id ≠ id) :
    (s.perform (s.engine.serve c)).2.presence id = s.presence id := by
  obtain ⟨-, hothers, acts, hjournal, hacts⟩ := s.engine.confined_serve c s.host
  have hquiet : acts.filterMap (Action.effectFor? id) = [] := by
    rw [List.filterMap_eq_nil_iff]
    intro a ha
    apply Action.effectFor?_of_subject_ne
    rw [hacts a ha]
    exact hid
  rw [presence_perform, hjournal, hs.journal, List.nil_append, hquiet, hothers id hid.symm]
  rfl

/-- **Whatever happens at a site, what an instance has there changes by a step.** -/
theorem step_next (hs : s.Ready) {v : SiteEvent} {evaluator : Occasion → Evaluator}
    (hv : v.Fits evaluator) (hcounts : s.Counts v) (hout : v.IsDelivery → outside)
    (id : InstanceId) : Step s.engine id outside (s.presence id) ((s.next v).presence id) := by
  cases v with
  | register d remap => exact .same
  | call c =>
    by_cases hid : c.id = id
    · subst hid
      refine step_serve hs ?_ hv.now hcounts
      have hfits := hv.operation
      have hdelivery : (∃ channel m, c.operation = .deliver channel m) → outside := hout
      cases hc : c.operation with
      | start => exact .start
      | deliver channel m =>
        rw [hc] at hfits
        exact .delivery (hdelivery ⟨channel, m, hc⟩) hfits.1 hfits.2
      | terminate => exact .terminate
    · show Step s.engine id outside _ ((s.perform (s.engine.serve c)).2.presence id)
      rw [presence_serve_of_ne hs hid]
      exact .same
  | recover =>
    obtain ⟨n, hrecover⟩ := s.engine.perform_recover hs.failing
    have hpresence : (s.next .recover).presence id =
        ⟨s.host.store.get? id,
          pendingOf ((s.engine.rearmings s.host.store).foldl Action.onPending s.pending) id⟩ := by
      show (s.perform s.engine.recover).2.presence id = _
      rw [presence_perform, hrecover, hs.journal, pendingOf_foldl]
      rfl
    rw [hpresence]
    by_cases hloads : ∃ r d soup, s.host.store.get? id = some r ∧ s.engine.Loads r d soup
    · obtain ⟨r, d, soup, hr, hl⟩ := hloads
      rw [Engine.pendingOf_rearmings s.pending hr hl]
      exact .rearmed hr hl
    · rw [Engine.pendingOf_rearmings_of_not_loads s.pending
        fun r d soup hr hl => hloads ⟨r, d, soup, hr, hl⟩]
      exact .same
  | expire now key =>
    show Step s.engine id outside _ ((if s.pending.contains key then _ else s).presence id)
    split
    · next hkey =>
      have hs' : ({ s with now, pending := s.pending.erase key } : Site).Ready :=
        ⟨hs.failing, hs.journal⟩
      by_cases hid : key.instanceId = id
      · subst hid
        refine step_serve (c := key.call now) hs' ?_ hv.now hcounts
        have htaken := pendingOf_erase s.pending key key.instanceId
        rw [if_pos rfl] at htaken
        show Intake outside _ (.message key.channel .timeout)
          (pendingOf (s.pending.erase key) key.instanceId)
        rw [htaken]
        refine .expiry ?_ hv.operation.1
        show s.pending.get? key ≠ none
        intro hnone
        rw [Table.contains, hnone] at hkey
        cases hkey
      · rw [presence_serve_of_ne (c := key.call now) hs' hid]
        unfold presence
        dsimp only
        rw [pendingOf_erase, if_neg hid]
        exact .same
    · exact .same

/-- Recovery leaves what is stored as it is. -/
theorem store_recover (hs : s.Ready) : (s.next .recover).host.store = s.host.store := by
  obtain ⟨n, hrecover⟩ := s.engine.perform_recover hs.failing
  show (s.engine.recover.perform s.host).2.store = _
  rw [hrecover]

/-- Where no timers are pending, recovery leaves those pending that are armed. -/
theorem pending_recover (hs : s.Ready) (hempty : s.pending = ∅) {r : Record} {d : Deployed}
    {soup : InstanceSoup} (hr : s.host.store.get? id = some r) (hl : s.engine.Loads r d soup)
    (t : Channel) : (s.next .recover).pending.get? ⟨id, t⟩ = soup.timers.get? t := by
  obtain ⟨n, hrecover⟩ := s.engine.perform_recover hs.failing
  have hrearmed := Engine.pendingOf_rearmings (∅ : Table TimerKey Instant) hr hl
  refine Eq.trans ?_ ((congrFun hrearmed t).trans (Option.or_none ..))
  show ((s.engine.recover.perform s.host).2.journal.foldl Action.onPending s.pending).get? ⟨id, t⟩ = _
  rw [hrecover, hs.journal, hempty]
  rfl

end Site

end Perdure
