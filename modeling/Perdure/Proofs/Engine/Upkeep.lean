import Perdure.Proofs.Engine.Presence

/-!
# What is kept up at a site

Soups go through storage between any two runs, timers go off outside, and scripts are replaced while
instances wait.  What is kept between the soup of an instance and its pending timers is therefore
kept through many hands.  Here it is brought down to what happens to soups: whatever holds of a new
soup, and goes on to hold when something is put in, when the soup is reduced and when it is stored,
holds of every instance that waits at a site.

## Main definitions

* `Record.Keeps` — a record whose state is a soup that was stored.
* `Upkeep` — what is kept between soups and pending timers.
* `Presence.Kept` — what is known of an instance by this.

## Main results

* `Upkeep.step` — whatever becomes of an instance, it is kept up.
* `Upkeep.after` — so are all instances at a site, whatever happens there.
-/

namespace Perdure

/-! ### Stored soups -/

/-- An active record whose state is a soup that was stored. -/
structure Record.Keeps (r : Record) (soup : InstanceSoup) : Prop where
  active : r.status = .active
  state : r.state = some (Checkpoint.write soup)
  steady : soup.Steady Instant.Valid
  outbox : soup.outbox = []

/-- A soup that was stored is read back, and it is what the record runs from. -/
theorem Record.Keeps.loads {e : Engine} {r : Record} {soup : InstanceSoup} (hk : r.Keeps soup)
    (he : e.Fits) {d : Deployed} (hd : e.processes.get? r.processId = some d) :
    e.Loads r d soup where
  deployed := hd
  read := by
    refine ⟨Checkpoint.write soup, ?_, ?_⟩
    · unfold Record.pending?
      rw [hk.active]
      exact hk.state
    · rw [Checkpoint.read_write_of_spares (he.remap hd) hk.steady.fits, ← hk.outbox]

/-- A new record keeps a new soup. -/
theorem Record.Keeps.newSoup {r : Record} {s : Script} (hs : s.Fits) (hactive : r.status = .active)
    (hstate : r.state = some (Checkpoint.write s.newSoup)) : r.Keeps s.newSoup where
  active := hactive
  state := hstate
  steady := hs.steady_newSoup
  outbox := rfl

namespace Soup

/-- Who has nothing to do before messages are taken has nothing to do afterwards. -/
theorem hasWork_settled {s : InstanceSoup} (hs : s.hasWork = false) : s.settled.hasWork = false := by
  have hready (a : Arm Receiver) (ha : s.isReady a = false) : s.settled.isReady a = false := by
    unfold isReady at ha ⊢
    rw [Bool.not_eq_false', List.isEmpty_iff] at ha ⊢
    apply List.eq_nil_iff_forall_not_mem.2
    intro m hm
    have hm := mem_queue_of_settled hm
    rw [ha] at hm
    cases hm
  have hframe := s.settled_frame
  have hrunnables : s.settled.runnables = s.runnables := by rw [hframe]
  have hchoices : s.settled.choices = s.choices := by rw [hframe]
  unfold hasWork at hs ⊢
  rw [hrunnables, hchoices]
  rw [Bool.or_eq_false_iff] at hs ⊢
  refine ⟨hs.1, ?_⟩
  simp only [List.any_eq_false, Bool.not_eq_true] at hs ⊢
  exact fun choice hchoice a ha => hready a (hs.2 choice hchoice a ha)

end Soup

/-! ### What is kept -/

/-- What is kept between the soups of instances and their pending timers: it holds at the start, and
goes on to hold in whatever way soups and timers change. -/
structure Upkeep (outside : Prop) (P : Script → InstanceSoup → Pending → Prop)
    (K : Record → Pending → Prop) : Prop where
  newborn : ∀ s : Script, P s s.newSoup fun _ => none
  put : ∀ {s soup sent w w₀ i id}, P s soup w → soup.outbox = [] → Intake outside w i w₀ →
    i.into id soup = .ok sent → P s sent w₀
  run : ∀ {s : Script} {sent w now limit o}, P s sent w → s.program.execute now limit sent = .ok o →
    P s o.soup w
  stored : ∀ {s soup w}, P s soup w → soup.completion? = none →
    P s soup.settled (w.after soup.outbox)
  rearmed : ∀ {s soup w}, P s soup w → soup.outbox = [] →
    P s soup fun t => (soup.timers.get? t).or (w t)
  ended : ∀ {s soup w q}, P s soup w → q.status.isFinal = true →
    K q ((w.after soup.outbox).after (soup.settled.timers.keys.map .cancelTimer))
  failed : ∀ {s soup w w₀ i id source r}, P s soup w → r.Keeps soup → Intake outside w i w₀ →
    K ((Change.markBroken id (ReductionError.message RunError.message source)).update r) w₀
  /-- Timers may go off after the end. -/
  late : ∀ {r w w₀ i}, K r w → Intake outside w i w₀ → K r w₀

/-- What is known of an instance that is kept up. -/
inductive Presence.Kept (e : Engine) (P : Script → InstanceSoup → Pending → Prop)
    (K : Record → Pending → Prop) : Presence → Prop
  | unborn {w : Pending} (hw : ∀ t, w t = none) : Kept e P K ⟨none, w⟩
  /-- The instance waits, and has nothing to do. -/
  | waiting {r : Record} {w : Pending} {soup : InstanceSoup} {d : Deployed} (hk : r.Keeps soup)
      (hd : e.processes.get? r.processId = some d) (hrest : soup.hasWork = false)
      (hp : P d.script soup w) : Kept e P K ⟨some r, w⟩
  | ended {r : Record} {w : Pending} (hfinal : r.status.isFinal = true) (hk : K r w) :
      Kept e P K ⟨some r, w⟩

namespace Upkeep

variable {outside : Prop} {P : Script → InstanceSoup → Pending → Prop} {K : Record → Pending → Prop}
  {e : Engine} {id : InstanceId} {p q : Presence}

/-- Only an active record has something to run from. -/
theorem not_loads_of_final {r : Record} (hfinal : r.status.isFinal = true) (d : Deployed)
    (soup : InstanceSoup) : ¬ e.Loads r d soup := by
  rintro ⟨-, bytes, hb, -⟩
  have hactive := (Record.active_of_pending? hb).1
  rw [hactive] at hfinal
  cases hfinal

/-- What an instance is run from was stored by the instance itself. -/
theorem keeps_of_origin (hu : Upkeep outside P K) (he : e.Fits) (hp : p.Kept e P K) {i : Injection}
    {r : Record} (ho : p.Origin e i r) :
    (∃ d soup, r.Keeps soup ∧ e.processes.get? r.processId = some d ∧ P d.script soup p.pending) ∨
      p.record = some r ∧ r.status.isFinal = true ∧ K r p.pending := by
  cases ho with
  | stored hr =>
    cases hp with
    | unborn => cases hr
    | waiting hk hd _ hp =>
      cases hr
      exact .inl ⟨_, _, hk, hd, hp⟩
    | ended hfinal hk =>
      cases hr
      exact .inr ⟨rfl, hfinal, hk⟩
  | @newborn r d hnone hd hactive hstate =>
    cases hp with
    | @unborn w hw =>
      refine .inl ⟨d, _, .newSoup (he.script hd) hactive hstate, hd, ?_⟩
      have hempty : w = fun _ => none := funext hw
      rw [hempty]
      exact hu.newborn d.script
    | waiting | ended => cases hnone

/-- What enters an instance that is kept up enters the soup that was stored. -/
theorem keeps_of_enters (hu : Upkeep outside P K) (he : e.Fits) (hp : p.Kept e P K) {r : Record}
    {d : Deployed} {soup sent : InstanceSoup} {w : Pending}
    (h : p.Enters e id outside r d soup sent w) :
    r.Keeps soup ∧ e.processes.get? r.processId = some d ∧
      sent.Steady Instant.Valid ∧ P d.script sent w ∧
      P d.script soup p.pending ∧ ∃ i, Intake outside p.pending i w := by
  obtain ⟨i, ho, hi, hsent⟩ := h.put
  rcases hu.keeps_of_origin he hp ho with ⟨d', soup', hk, hd, hP⟩ | ⟨-, hfinal, -⟩
  · obtain ⟨rfl, rfl⟩ := h.loads.unique (hk.loads he hd)
    exact ⟨hk, hd, hk.steady.into hi.fits hsent, hu.put hP hk.outbox hi hsent, hP, i, hi⟩
  · exact absurd h.loads (not_loads_of_final hfinal d soup)

/-- Whatever becomes of an instance, it is kept up. -/
theorem step (hu : Upkeep outside P K) (he : e.Fits) (hp : p.Kept e P K)
    (hs : p.Step e id outside q) : q.Kept e P K := by
  cases hs with
  | same => exact hp
  | @rearmed r d soup hr hl =>
    cases hp with
    | unborn => cases hr
    | waiting hk hd hrest hp =>
      cases hr
      obtain ⟨rfl, rfl⟩ := hl.unique (hk.loads he hd)
      exact .waiting hk hd hrest (hu.rearmed hp hk.outbox)
    | ended hfinal =>
      cases hr
      exact absurd hl (not_loads_of_final hfinal d soup)
  | missing hr hi =>
    cases hp with
    | unborn hw =>
      cases hi with
      | start | delivery | terminate => exact .unborn hw
      | expiry ht => exact absurd (hw _) ht
    | waiting | ended => cases hr
  | @unread i r w ho hi hno =>
    rcases hu.keeps_of_origin he hp ho with ⟨d, soup, hk, hd, -⟩ | ⟨hr, hfinal, hk⟩
    · -- whatever was stored can be read, so there was nowhere to put something in
      have hnowhere (sent : InstanceSoup) : i.into id soup ≠ .ok sent :=
        hno d soup sent (hk.loads he hd)
      cases hi with
      | start | delivery | expiry => exact absurd rfl (hnowhere _)
      | terminate =>
        cases ho with
        | stored hr =>
          obtain ⟨record, pending⟩ := p
          cases hr
          exact hp
    · exact .ended hfinal (hu.late hk hi)
  | failed h ho =>
    obtain ⟨hk, -, -, -, hP, i, hi⟩ := hu.keeps_of_enters he hp h
    exact .ended rfl (hu.failed hP hk hi)
  | @waiting r d soup sent w now o h hnow ho hcounted _ hnone =>
    obtain ⟨hk, hd, hsteady, hP, -⟩ := hu.keeps_of_enters he hp h
    obtain ⟨-, hrest, hsoup⟩ := (Script.execute_eq_ok_iff (c := { soup := sent })).1 ho
    have hrest : o.soup.hasWork = false := hsoup ▸ hrest.2
    have hsteady := (he.script hd).over.steady_of_execute hnow hsteady ho hcounted
    have hkeeps : ((Change.setState id (Checkpoint.write o.soup.settled)).update r).Keeps
        o.soup.settled :=
      { active := hk.active, state := rfl, steady := hsteady.settled
        outbox := by rw [Soup.settled_frame] }
    exact .waiting hkeeps hd (Soup.hasWork_settled hrest) (hu.stored (hu.run hP ho) hnone)
  | ended h ho hfinal =>
    obtain ⟨-, -, -, hP, -⟩ := hu.keeps_of_enters he hp h
    exact .ended hfinal (hu.ended (hu.run hP ho) hfinal)

end Upkeep

/-! ### Sites -/

/-- An engine without processes fits. -/
theorem Engine.fits_empty (evaluator : Occasion → Evaluator) (limit : Nat) :
    Engine.Fits { evaluator, limit } where
  script hd := nomatch hd
  remap hd := nomatch hd

/-- A process whose script fits may be deployed to an engine that fits. -/
theorem Engine.Fits.register {e : Engine} (he : e.Fits) {d : Definition} {remap : RemapTable}
    (hd : Script.Fits ⟨d, e.evaluator⟩) (hremap : remap.Spares InstanceSoup.shapes) :
    (e.register d remap).Fits := by
  have hget {processId : String} {p : Deployed}
      (hp : (e.register d remap).processes.get? processId = some p) :
      p = ⟨⟨d, e.evaluator⟩, remap⟩ ∨ e.processes.get? processId = some p := by
    unfold Engine.register at hp
    rw [Table.get?_insert] at hp
    split at hp
    · exact .inl (Option.some.inj hp).symm
    · exact .inr hp
  refine { script := fun hp => ?_, remap := fun hp => ?_ }
  · rcases hget hp with rfl | hp
    · exact hd
    · exact he.script hp
  · rcases hget hp with rfl | hp
    · exact hremap
    · exact he.remap hp

/-- A site where all instances are kept up. -/
structure Site.Kept (P : Script → InstanceSoup → Pending → Prop) (K : Record → Pending → Prop)
    (s : Site) : Prop where
  ready : s.Ready
  fits : s.engine.Fits
  presence : ∀ id, (s.presence id).Kept s.engine P K

namespace Site.Kept

variable {P : Script → InstanceSoup → Pending → Prop} {K : Record → Pending → Prop} {s : Site}
  {id : InstanceId} {r : Record}

theorem presence_of_get? (hs : s.Kept P K) (hr : s.host.store.get? id = some r) :
    Presence.Kept s.engine P K ⟨some r, fun t => s.pending.get? ⟨id, t⟩⟩ := by
  have hpresence := hs.presence id
  unfold Site.presence at hpresence
  rw [hr] at hpresence
  exact hpresence

/-- An active instance waits with a soup that was stored. -/
theorem waiting (hs : s.Kept P K) (hr : s.host.store.get? id = some r)
    (hactive : r.status = .active) :
    ∃ d soup, r.Keeps soup ∧ s.engine.processes.get? r.processId = some d ∧
      soup.hasWork = false ∧ P d.script soup fun t => s.pending.get? ⟨id, t⟩ := by
  have hpresence := hs.presence_of_get? hr
  cases hpresence with
  | waiting hk hd hrest hp => exact ⟨_, _, hk, hd, hrest, hp⟩
  | ended hfinal =>
    rw [hactive] at hfinal
    cases hfinal

/-- Something is known of every instance that is over. -/
theorem ended (hs : s.Kept P K) (hr : s.host.store.get? id = some r)
    (hfinal : r.status.isFinal = true) : K r fun t => s.pending.get? ⟨id, t⟩ := by
  have hpresence := hs.presence_of_get? hr
  cases hpresence with
  | waiting hk =>
    rw [hk.active] at hfinal
    cases hfinal
  | ended _ hk => exact hk

end Site.Kept

namespace Upkeep

variable {outside : Prop} {P : Script → InstanceSoup → Pending → Prop} {K : Record → Pending → Prop}
  {s : Site} {events : List SiteEvent}

/-- At a new site there are no instances yet. -/
theorem founded (evaluator : Occasion → Evaluator) (limit : Nat) (now : Instant) :
    (Site.founded evaluator limit now).Kept P K where
  ready := ⟨rfl, rfl⟩
  fits := Engine.fits_empty evaluator limit
  presence _ := .unborn fun _ => rfl

/-- An instance may be taken over by another script, if what is kept does not depend on scripts. -/
theorem kept_register {e : Engine} {p : Presence} (hp : p.Kept e P K)
    (hany : ∀ {script script' soup w}, P script soup w → P script' soup w) (d : Definition)
    (remap : RemapTable) : p.Kept (e.register d remap) P K := by
  cases hp with
  | unborn hw => exact .unborn hw
  | ended hfinal hk => exact .ended hfinal hk
  | @waiting r w soup d' hk hd hrest hp =>
    by_cases hprocess : r.processId = d.processId
    · refine .waiting (d := ⟨⟨d, e.evaluator⟩, remap⟩) hk ?_ hrest (hany hp)
      unfold Engine.register
      rw [Table.get?_insert, if_pos hprocess]
    · refine .waiting hk ?_ hrest hp
      unfold Engine.register
      rw [Table.get?_insert, if_neg hprocess]
      exact hd

/-- An event keeps all instances up. -/
theorem next (hu : Upkeep outside P K) (hs : s.Kept P K) {v : SiteEvent}
    (hv : v.Fits s.engine.evaluator) (hcounts : s.Counts v) (hout : v.IsDelivery → outside)
    (hany : v.IsRegistration → ∀ {script script' soup w}, P script soup w → P script' soup w) :
    (s.next v).Kept P K where
  ready := hs.ready.next v
  fits := by
    by_cases hregister : v.IsRegistration
    · obtain ⟨d, remap, rfl⟩ := SiteEvent.eq_register_of_isRegistration hregister
      exact hs.fits.register hv.1 hv.2
    · rw [Site.engine_next hregister]
      exact hs.fits
  presence id := by
    by_cases hregister : v.IsRegistration
    · obtain ⟨d, remap, rfl⟩ := SiteEvent.eq_register_of_isRegistration hregister
      exact kept_register (hs.presence id) (hany trivial) d remap
    · rw [Site.engine_next hregister]
      exact hu.step hs.fits (hs.presence id) (Site.step_next hs.ready hv hcounts hout id)

/-- Whatever happens at a site, all its instances are kept up. -/
theorem after (hu : Upkeep outside P K) (hs : s.Kept P K)
    (hv : ∀ v ∈ events, v.Fits s.engine.evaluator) (hcounted : s.Counted events)
    (hout : ∀ v ∈ events, v.IsDelivery → outside)
    (hany : ∀ v ∈ events, v.IsRegistration →
      ∀ {script script' soup w}, P script soup w → P script' soup w) :
    (s.after events).Kept P K := by
  induction events generalizing s with
  | nil => exact hs
  | cons v rest ih =>
    have hnext := hu.next hs (hv v List.mem_cons_self) hcounted.1 (hout v List.mem_cons_self)
      (hany v List.mem_cons_self)
    refine ih (s := s.next v) hnext (fun v' hv' => ?_) hcounted.2
      (fun v' hv' => hout v' (List.mem_cons_of_mem v hv'))
      (fun v' hv' => hany v' (List.mem_cons_of_mem v hv'))
    rw [Site.evaluator_next]
    exact hv v' (List.mem_cons_of_mem v hv')

end Upkeep

end Perdure
