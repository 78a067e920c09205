import Perdure.Proofs.Engine.Upkeep

/-!
# Instances in memory at a site

An instance that is kept in memory does what the instance at a site does, timers included.  So
what an instance has at a site after some events can be found without a look at what is stored.

## Main definitions

* `Site.Shows` — what an instance has at a site agrees with an instance in memory.
* `Solo.outcome?` — what the run comes to that a call has the instance in memory make.

## Main results

* `Site.Shows.call`, `Site.Shows.expire` — it agrees after calls, and when timers go off.
* `Site.Shows.counts` — the counters at the site are those in memory.
-/

namespace Perdure

/-- What the run comes to that a call has an instance in memory make, if there is one that comes to
rest. -/
def Solo.outcome? (e : Engine) (c : EngineCall) :
    Solo → Option (Outcome Shared Task Receiver Message)
  | .unborn => match c.operation with
    | .start _ processId => (e.processes.get? processId).bind fun d =>
      (d.script.program.execute c.now e.limit d.script.newSoup).toOption
    | _ => none
  | .live script soup => (c.operation.injection.into c.id soup).toOption.bind fun sent =>
    (script.program.execute c.now e.limit sent).toOption
  | .ended _ => none

/-- The soup of an instance in memory that is not over. -/
def Solo.soup? : Solo → Option InstanceSoup
  | .live _ soup => some soup
  | .unborn | .ended _ => none

/-- What an instance has at a site agrees with an instance in memory and its pending timers. -/
structure Site.Shows (s : Site) (e : Engine) (id : InstanceId) (solo : Solo) (w : Pending) :
    Prop where
  ready : s.Ready
  engine : s.engine = e
  mirrors : Mirrors e solo (s.host.store.get? id)
  pending : pendingOf s.pending id = w

namespace Site.Shows

variable {s : Site} {e : Engine} {id : InstanceId} {solo : Solo} {w : Pending}

/-- At a new site no instance has started. -/
theorem founded (evaluator : Occasion → Evaluator) (limit : Nat) (now : Instant) (id : InstanceId) :
    (Site.founded evaluator limit now).Shows { evaluator, limit } id .unborn fun _ => none where
  ready := ⟨rfl, rfl⟩
  engine := rfl
  mirrors := .unborn
  pending := rfl

/-- Processes may be deployed before an instance starts. -/
theorem register (h : s.Shows e id .unborn w) (d : Definition) (remap : RemapTable) :
    (s.next (.register d remap)).Shows (e.register d remap) id .unborn w where
  ready := h.ready.next _
  engine := by rw [← h.engine]; rfl
  mirrors := by
    have hm := h.mirrors
    show Mirrors _ _ (s.host.store.get? id)
    generalize s.host.store.get? id = stored at hm
    cases hm
    exact .unborn
  pending := h.pending

/-- A call does as it does in memory. -/
theorem call (h : s.Shows e id solo w) (he : e.Fits) {c : EngineCall} (hc : c.Fits) (hid : c.id = id)
    (hw : (solo.ask e c.now id c.operation).2.Counted) :
    (s.next (.call c)).Shows e id (solo.ask e c.now id c.operation).2
      (w.after (solo.ask e c.now id c.operation).1.calls) := by
  obtain ⟨hready, rfl, hmirrors, rfl⟩ := h
  have hfollows := follows_ask he hready.failing hmirrors hc hid hw
  obtain ⟨acts, hjournal, hcalls⟩ := hfollows.journal
  have hpresence := s.presence_perform (s.engine.serve c) id
  rw [hjournal, hready.journal, List.nil_append, hcalls] at hpresence
  exact { ready := hready.next _, engine := rfl, mirrors := hfollows.mirrors
          pending := congrArg Presence.pending hpresence }

/-- A pending timer that goes off does as it does in memory. -/
theorem expire (h : s.Shows e id solo w) (he : e.Fits) {now : Instant} {t : Channel}
    (hc : (TimerKey.call now ⟨id, t⟩).Fits) (ht : (w t).isSome = true)
    (hw : (solo.ask e now id (.deliver t .timeout)).2.Counted) :
    (s.next (.expire now ⟨id, t⟩)).Shows e id (solo.ask e now id (.deliver t .timeout)).2
      ((w.set t none).after (solo.ask e now id (.deliver t .timeout)).1.calls) := by
  have hkey : s.pending.contains ⟨id, t⟩ = true := by
    rw [← h.pending] at ht
    exact ht
  have htaken : ({ s with now, pending := s.pending.erase ⟨id, t⟩ } : Site).Shows e id solo
      (w.set t none) :=
    { ready := ⟨h.ready.failing, h.ready.journal⟩, engine := h.engine, mirrors := h.mirrors
      pending := by
        show pendingOf (s.pending.erase ⟨id, t⟩) id = _
        rw [Site.pendingOf_erase, if_pos rfl, h.pending] }
  show (if s.pending.contains ⟨id, t⟩ then _ else s).Shows e id _ _
  rw [if_pos hkey]
  exact htaken.call he (c := TimerKey.call now ⟨id, t⟩) hc rfl hw

/-- What is stored of an instance at a site is the soup that it has in memory. -/
theorem soup?_eq_of_loads (h : s.Shows e id solo w) (he : e.Fits) {r : Record} {d : Deployed}
    {soup : InstanceSoup} (hr : s.host.store.get? id = some r) (hl : e.Loads r d soup) :
    solo.soup? = some soup := by
  have hmirrors := h.mirrors
  rw [hr] at hmirrors
  cases hmirrors with
  | @live script soup' _ remap hd hactive _ hstate hsteady houtbox =>
    obtain ⟨-, rfl⟩ := hl.unique (Record.Keeps.loads ⟨hactive, hstate, hsteady, houtbox⟩ he hd)
    rfl
  | ended hstanding hfinal =>
    rw [← hstanding] at hfinal
    exact absurd hl (Upkeep.not_loads_of_final hfinal d soup)

/-- How the instance stands at the site is how it stands in memory. -/
theorem exists_record (h : s.Shows e id solo w) {status : Status}
    (hs : solo.standing.map Standing.status = some status) :
    ∃ r, s.host.store.get? id = some r ∧ r.status = status := by
  rw [← h.mirrors.standing, Option.map_map] at hs
  exact Option.map_eq_some_iff.1 hs

/-- The counters at the site are those in memory. -/
theorem counts (h : s.Shows e id solo w) (he : e.Fits) {c : EngineCall} (hid : c.id = id)
    (hw : ∀ o ∈ solo.outcome? e c, o.soup.Counted) : s.engine.Counts s.host.store c := by
  obtain ⟨-, rfl, hmirrors, -⟩ := h
  subst hid
  intro r d soup sent o ho hl hsent hexec
  generalize hstored : s.host.store.get? c.id = stored at hmirrors
  unfold Engine.origin? at ho
  rw [hstored] at ho
  cases hmirrors with
  | unborn =>
    cases hc : c.operation with
    | deliver | terminate => rw [hc] at ho; cases ho
    | start createdAt processId =>
      rw [hc] at ho hsent
      unfold Engine.newborn? at ho
      rw [hc] at ho
      obtain ⟨d', hd', rfl⟩ := Option.map_eq_some_iff.1 ho
      obtain ⟨rfl, rfl⟩ := hl.unique
        ((Record.Keeps.newSoup (he.script hd') rfl rfl).loads he hd')
      cases hsent
      refine hw o ?_
      unfold Solo.outcome?
      simp only [hc, hd', Option.bind_some, hexec, Except.toOption, Option.mem_def]
  | @live script soup' r' remap hd hactive _ hstate hsteady houtbox =>
    have hr : r = r' := by
      split at ho
      · cases ho
      · exact (Option.some.inj ho).symm
    subst hr
    obtain ⟨rfl, rfl⟩ := hl.unique
      (Record.Keeps.loads ⟨hactive, hstate, hsteady, houtbox⟩ he hd)
    refine hw o ?_
    unfold Solo.outcome?
    simp only [hsent, hexec, Except.toOption, Option.bind_some, Option.mem_def]
  | @ended r' standing hstanding hfinal =>
    have hr : r = r' := by
      split at ho
      · cases ho
      · exact (Option.some.inj ho).symm
    subst hr
    rw [← hstanding] at hfinal
    exact absurd hl (Upkeep.not_loads_of_final hfinal d soup)

end Site.Shows

/-! ### A vigil at a site -/

namespace Site

/-- The start of a vigil. -/
def vigilStart : EngineCall := ⟨⟨0, 0⟩, 1, .start ⟨0, 0⟩ "vigil"⟩

theorem vigilStart_fits : vigilStart.Fits where
  now := ⟨by decide, .inl (by decide)⟩
  operation := trivial

/-- A vigil is deployed and starts, and after an hour its alarm goes off. -/
def vigilEvents : List SiteEvent :=
  [.register Script.vigil.definition (Table.ofList [("wait", "wait-activity")]), .call vigilStart,
    .expire ⟨3600, 0⟩ ⟨1, 9⟩]

theorem vigilAlarm_fits : (TimerKey.call ⟨3600, 0⟩ ⟨1, 9⟩).Fits where
  now := ⟨by decide, .inl (by decide)⟩
  operation := ⟨by decide, trivial⟩

theorem vigilEvents_fit : ∀ v ∈ vigilEvents, v.Fits Script.vigil.evaluator := by
  intro v hv
  simp only [vigilEvents, List.mem_cons, List.not_mem_nil, or_false] at hv
  rcases hv with rfl | rfl | rfl
  · refine ⟨Script.vigil_fits, ?_⟩
    unfold RemapTable.Spares
    decide +kernel
  · exact vigilStart_fits
  · exact vigilAlarm_fits

/-- A vigil at a site does as it does in memory: its wait is pending on, and so is the alarm for
another hour. -/
theorem shows_vigil : (founded Script.vigil.evaluator 100 ⟨0, 0⟩).Counted vigilEvents ∧
    ∃ solo w, ((founded Script.vigil.evaluator 100 ⟨0, 0⟩).after vigilEvents).Shows vigils 1 solo w ∧
      solo.standing.map Standing.status = some .active ∧
      w 8 = some ⟨86400, 0⟩ ∧ w 12 = some ⟨7200, 0⟩ := by
  have hdeployed : Shows _ vigils 1 _ _ :=
    (Shows.founded Script.vigil.evaluator 100 ⟨0, 0⟩ 1).register Script.vigil.definition
      (Table.ofList [("wait", "wait-activity")])
  have hcounts := hdeployed.counts vigils_fits (c := vigilStart) rfl (by decide +kernel)
  have hstarted := hdeployed.call vigils_fits vigilStart_fits rfl (by decide +kernel)
  have hcounts' := hstarted.counts vigils_fits (c := TimerKey.call ⟨3600, 0⟩ ⟨1, 9⟩) rfl
    (by decide +kernel)
  have htold := hstarted.expire vigils_fits vigilAlarm_fits (by decide +kernel) (by decide +kernel)
  simp only [vigilEvents, counted_cons, after_cons, after_nil, counted_nil, and_true]
  exact ⟨⟨trivial, hcounts, hcounts'⟩, _, _, htold, by decide +kernel, by decide +kernel,
    by decide +kernel⟩

end Site

end Perdure
