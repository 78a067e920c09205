import Perdure.Proofs.Engine.Wakeups

/-!
# What is left of an instance that is over

An instance can come to its end in four ways.  When it completes, when it faults and when nobody is
left who listens, the timers that are still armed are cancelled.  When a reduction fails they are
not: the run ends before they are looked at, and they stay pending until they go off, although
nobody will hear them.  So what is pending of an instance that is over tells how it ended.

## Main results

* `Table.mem_keys_iff` — the keys of a table are those that it has a value for.
* `Leaves.upkeep` — what is kept of pending timers up to the end and beyond it.
* `Site.leaves_no_timers` — no timer of an instance that is over is pending, unless a reduction
  failed; then some of those may be that its kept state has armed.
-/

namespace Perdure

/-- The keys of a table are those that it has a value for. -/
theorem Table.mem_keys_iff {κ ν : Type} [Ord κ] [Std.TransOrd κ] [Std.LawfulEqOrd κ]
    {t : Table κ ν} {k : κ} : k ∈ t.keys ↔ ∃ v, t.get? k = some v := by
  unfold keys
  rw [List.mem_map]
  constructor
  · rintro ⟨⟨k, v⟩, he, rfl⟩
    exact ⟨v, Table.mem_entries_iff.1 he⟩
  · rintro ⟨v, hv⟩
    exact ⟨(k, v), Table.mem_entries_iff.2 hv, rfl⟩

variable {outside : Prop} {w w₀ : Pending} {soup : InstanceSoup} {i : Injection}

/-- Nothing is pending that was not when something is put in. -/
theorem Intake.pending_of_pending (hi : Intake outside w i w₀) {t : Channel} {d : Instant}
    (hd : w₀ t = some d) : w t = some d := by
  cases hi with
  | start | delivery | terminate => exact hd
  | expiry =>
    rw [Pending.set_apply] at hd
    split at hd
    · cases hd
    · exact hd

/-- When the effects of a soup are carried out and then all that it has armed is cancelled, nothing is
pending any more. -/
theorem Pending.Within.after_cancel (h : w.Within soup) (t : Channel) :
    (w.after soup.outbox).after (soup.settled.timers.keys.map .cancelTimer) t = none := by
  rw [after_cancelTimer]
  split
  · rfl
  · next hkept =>
    by_contra hne
    obtain ⟨d, hd⟩ := Option.ne_none_iff_exists'.1 hne
    refine hkept (Table.mem_keys_iff.2 ⟨d, ?_⟩)
    rw [Soup.timers_settled]
    exact h t d hd

/-- What is pending of an instance that is over: nothing, or after a failed reduction some of the
timers that its kept state has armed. -/
def Leaves (r : Record) (w : Pending) : Prop :=
  (∀ t, w t = none) ∨ ∃ source soup, r.status = .broken ∧
    r.fault = some (ReductionError.message RunError.message source) ∧
    r.state = some (Checkpoint.write soup) ∧ ∀ t d, w t = some d → soup.timers.get? t = some d

/-- Where nothing is delivered but what timers send, nothing is pending but what is armed, and hardly
anything is left in the end. -/
theorem Leaves.upkeep :
    Upkeep False (fun _ soup w => soup.Apart ∧ w.Within soup) Leaves where
  newborn s := ⟨s.apart_newSoup, nofun⟩
  put := fun ⟨hapart, hwithin⟩ hnone hi hsent =>
    ⟨hapart.into hsent, hwithin.into hapart hnone id hi hsent⟩
  run := fun ⟨hapart, hwithin⟩ ho => ⟨hapart.of_execute ho, hwithin.of_execute hapart ho⟩
  stored := fun ⟨hapart, hwithin⟩ _ => ⟨hapart.settled, hwithin.settled⟩
  rearmed := fun ⟨hapart, hwithin⟩ hnone => ⟨hapart, hwithin.rearmed hnone⟩
  ended := fun ⟨_, hwithin⟩ _ => .inl hwithin.after_cancel
  failed {s soup w w₀ i id source r} := by
    rintro ⟨-, hwithin⟩ hk hi
    exact .inr ⟨source, soup, rfl, rfl, hk.state, fun t d hd =>
      hwithin.armed hk.outbox (hi.pending_of_pending hd)⟩
  late {r w w₀ i} := by
    rintro (hnone | ⟨source, soup, hstatus, hfault, hstate, harmed⟩) hi
    · refine .inl fun t => ?_
      by_contra hne
      obtain ⟨d, hd⟩ := Option.ne_none_iff_exists'.1 hne
      have hw := hi.pending_of_pending hd
      rw [hnone t] at hw
      cases hw
    · exact .inr ⟨source, soup, hstatus, hfault, hstate,
        fun t d hd => harmed t d (hi.pending_of_pending hd)⟩

namespace Site

/-- **An instance that is over leaves no timers, unless a reduction failed.**  Where nothing is
delivered but what timers send, no timer of an instance that has completed, faulted or stopped
without a listener is ever pending.  An instance that broke because a reduction failed may leave some
of the timers that are armed in the state that it keeps. -/
theorem leaves_no_timers (evaluator : Occasion → Evaluator) (limit : Nat) (now : Instant)
    {events : List SiteEvent} (hfits : ∀ v ∈ events, v.Fits evaluator)
    (hcounted : (founded evaluator limit now).Counted events)
    (hinside : ∀ v ∈ events, ¬ v.IsDelivery) :
    let s := (founded evaluator limit now).after events
    ∀ id r, s.host.store.get? id = some r → r.status.isFinal = true →
      (∀ t, s.pending.get? ⟨id, t⟩ = none) ∨
      ∃ source soup, r.status = .broken ∧
        r.fault = some (ReductionError.message RunError.message source) ∧
        r.state = some (Checkpoint.write soup) ∧
        ∀ t deadline, s.pending.get? ⟨id, t⟩ = some deadline →
          soup.timers.get? t = some deadline := by
  intro s id r hr hfinal
  have hkept : s.Kept _ _ :=
    Leaves.upkeep.after (Upkeep.founded evaluator limit now) hfits hcounted hinside
      fun _ _ _ _ _ _ _ h => h
  exact hkept.ended hr hfinal

/-- A day's wait beside an alarm that goes off after an hour and has no time to do so again. -/
def faltering : Script where
  definition :=
    { processId := "faltering", name := "faltering", root := 0
      activities :=
        [{ id := 0, name := none, kind := .scope 1 [⟨some "hour", none, some "never", 2⟩] none },
         { id := 1, name := none, kind := .wait (.delay "day") },
         { id := 2, name := none, kind := .empty }] }
  evaluator occasion :=
    { duration := fun e => match e with
        | "day" => .ok 86400000000000
        | "hour" => .ok 3600000000000
        | _ => .error (.invalid ⟨e, .other "no duration"⟩)
      deadline := fun _ => .ok occasion.now }

theorem faltering_fits : faltering.Fits where
  definition :=
    { root := by decide, references := by decide, lengths := by decide, alarms := by decide }
  deadlines hnow ht := by
    cases ht
    exact hnow

/-- An engine to which this process is deployed. -/
def falterings : Engine :=
  ({ evaluator := faltering.evaluator, limit := 100 } : Engine).register faltering.definition ∅

theorem falterings_fits : falterings.Fits :=
  (Engine.fits_empty faltering.evaluator 100).register faltering_fits fun _ _ => rfl

/-- The start of such an instance. -/
def falteringStart : EngineCall := ⟨⟨0, 0⟩, 1, .start ⟨0, 0⟩ "faltering"⟩

theorem falteringStart_fits : falteringStart.Fits where
  now := ⟨by decide, .inl (by decide)⟩
  operation := trivial

/-- It is deployed and starts, and after an hour its alarm goes off. -/
def falteringEvents : List SiteEvent :=
  [.register faltering.definition ∅, .call falteringStart,
    .expire ⟨3600, 0⟩ ⟨1, 9⟩]

theorem falteringEvents_fit : ∀ v ∈ falteringEvents, v.Fits faltering.evaluator := by
  intro v hv
  simp only [falteringEvents, List.mem_cons, List.not_mem_nil, or_false] at hv
  rcases hv with rfl | rfl | rfl
  · exact ⟨faltering_fits, fun _ _ => rfl⟩
  · exact falteringStart_fits
  · exact vigilAlarm_fits

/-- It breaks when the alarm went off, and its wait stays pending. -/
theorem shows_faltering : (founded faltering.evaluator 100 ⟨0, 0⟩).Counted falteringEvents ∧
    ∃ solo w, ((founded faltering.evaluator 100 ⟨0, 0⟩).after falteringEvents).Shows falterings 1
        solo w ∧
      solo.standing.map Standing.status = some .broken ∧ w 8 = some ⟨86400, 0⟩ := by
  have hdeployed : Shows _ falterings 1 _ _ :=
    (Shows.founded faltering.evaluator 100 ⟨0, 0⟩ 1).register faltering.definition ∅
  have hcounts := hdeployed.counts falterings_fits (c := falteringStart) rfl (by decide +kernel)
  have hstarted := hdeployed.call falterings_fits falteringStart_fits rfl (by decide +kernel)
  have hcounts' := hstarted.counts falterings_fits (c := TimerKey.call ⟨3600, 0⟩ ⟨1, 9⟩) rfl
    (by decide +kernel)
  have htold := hstarted.expire falterings_fits vigilAlarm_fits (by decide +kernel)
    (by decide +kernel)
  simp only [falteringEvents, counted_cons, after_cons, after_nil, counted_nil, and_true]
  exact ⟨⟨trivial, hcounts, hcounts'⟩, _, _, htold, by decide +kernel, by decide +kernel⟩

/-- The wait of a day is pending on, although its instance is broken; it is armed in the state that
was kept. -/
theorem leaves_no_timers_faltering :
    (∀ v ∈ falteringEvents, v.Fits faltering.evaluator) ∧
    (founded faltering.evaluator 100 ⟨0, 0⟩).Counted falteringEvents ∧
    (∀ v ∈ falteringEvents, ¬ v.IsDelivery) ∧
    let s := (founded faltering.evaluator 100 ⟨0, 0⟩).after falteringEvents
    ∃ r soup, s.host.store.get? 1 = some r ∧ r.status = .broken ∧
      s.pending.get? ⟨1, 8⟩ = some ⟨86400, 0⟩ ∧ r.state = some (Checkpoint.write soup) ∧
      soup.timers.get? 8 = some ⟨86400, 0⟩ := by
  obtain ⟨hcounted, solo, w, hshows, hstatus, hday⟩ := shows_faltering
  have hinside : ∀ v ∈ falteringEvents, ¬ v.IsDelivery := by decide
  obtain ⟨r, hr, hbroken⟩ := hshows.exists_record hstatus
  have hpending := (congrFun hshows.pending 8).trans hday
  have hfinal : r.status.isFinal = true := by
    rw [hbroken]
    rfl
  refine ⟨falteringEvents_fit, hcounted, hinside, ?_⟩
  rcases leaves_no_timers faltering.evaluator 100 ⟨0, 0⟩ falteringEvents_fit hcounted hinside 1 r hr
    hfinal with hnone | ⟨source, soup, -, -, hstate, harmed⟩
  · have hnone := (hnone 8).symm.trans hpending
    cases hnone
  · exact ⟨r, soup, hr, hbroken, hpending, hstate, harmed 8 _ hpending⟩

end Site

end Perdure
