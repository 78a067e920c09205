import Perdure.Proofs.Engine.Reflection
import Perdure.Proofs.Instance.Tidy

/-!
# No wake-up is lost

The armed timers of an instance and its pending timers at a site are kept by different hands.  They
agree as long as nothing is delivered but what timers send.  A message from outside can make them
differ in one way only: an alarm that is told that its time has come although it has not closes its
timer without disarming it, so that a timer is armed in the soup that nobody listens to.  Every
armed timer whose channel is open is pending, whatever is delivered.

## Main results

* `Soup.Tidy.into`, `Pending.Within.into`, `Pending.Covers.into` — what is put in keeps the two
  together.
* `Site.keeps_wakeups` — armed timers that are open are pending; without deliveries from outside the
  armed timers are the pending ones, and recovery restores them.
-/

namespace Perdure

/-! ### What is put in -/

variable {outside : Prop} {w w₀ : Pending} {soup sent : InstanceSoup} {i : Injection}
  {id : InstanceId}

/-- What is put in keeps timers apart. -/
theorem Soup.Apart.into (h : soup.Apart) (hsent : i.into id soup = .ok sent) : sent.Apart := by
  cases i with
  | start =>
    cases hsent
    exact h
  | message c m =>
    cases hsent
    exact h.send c m
  | terminate =>
    obtain ⟨root, -, rfl⟩ := Injection.into_terminate_eq_ok hsent
    exact h.send _ _

/-- Once effects are handed over, what is pending is armed. -/
theorem Pending.Within.armed (h : w.Within soup) (hnone : soup.outbox = []) {t : Channel}
    {d : Instant} (hd : w t = some d) : soup.timers.get? t = some d := by
  apply h
  rw [hnone, after_nil, hd]

/-- Nothing else is pending than what is armed, when timers go off and the root is told to stop. -/
theorem Pending.Within.into (h : w.Within soup) (hapart : soup.Apart) (hnone : soup.outbox = [])
    (hinside : ¬ outside) (hi : Intake outside w i w₀) (hsent : i.into id soup = .ok sent) :
    w₀.Within sent := by
  -- a message keeps what is armed if its channel has no timer, or if that is not pending any more
  have hsend {c : Channel} {m : Message} {w₀ : Pending}
      (hw : ∀ t d, w₀ t = some d → w t = some d ∧ (t = c → soup.timers.get? c = none)) :
      w₀.Within (soup.send c m) := by
    intro t d hd
    rw [Soup.outbox_send, hnone, after_nil] at hd
    obtain ⟨hpending, hfree⟩ := hw t d hd
    have harmed := h.armed hnone hpending
    rw [Soup.get?_timers_send, if_neg, harmed]
    rintro ⟨rfl, -⟩
    rw [hfree rfl] at harmed
    cases harmed
  cases hi with
  | start =>
    cases hsent
    exact h
  | delivery hout => exact absurd hout hinside
  | terminate =>
    obtain ⟨root, hroot, rfl⟩ := Injection.into_terminate_eq_ok hsent
    exact hsend fun t d hd => ⟨hd, fun _ => hapart.root root hroot⟩
  | @expiry c hw ht =>
    cases hsent
    refine hsend fun t d hd => ?_
    rw [set_apply] at hd
    split at hd
    · cases hd
    · next hne => exact ⟨hd, fun he => absurd he hne⟩

/-- A soup stays tidy when timers go off and the root is told to stop. -/
theorem Soup.Tidy.into (h : soup.Tidy) (hwithin : w.Within soup) (hnone : soup.outbox = [])
    (hinside : ¬ outside) (hi : Intake outside w i w₀) (hsent : i.into id soup = .ok sent) :
    sent.Tidy := by
  cases hi with
  | start =>
    cases hsent
    exact h
  | delivery hout => exact absurd hout hinside
  | terminate =>
    obtain ⟨root, hroot, rfl⟩ := Injection.into_terminate_eq_ok hsent
    exact h.send (h.root_below root hroot) nofun
  | @expiry c hw ht =>
    cases hsent
    obtain ⟨d, hd⟩ := Option.ne_none_iff_exists'.1 hw
    have harmed := hwithin.armed hnone hd
    exact h.send (h.timers_below c d harmed) fun _ P hP => h.apart c d harmed P hP

/-- Armed timers stay pending, whatever is put in. -/
theorem Pending.Covers.into (h : w.Covers soup) (hnone : soup.outbox = [])
    (hi : Intake outside w i w₀) (hsent : i.into id soup = .ok sent) : w₀.Covers sent := by
  cases hi with
  | start =>
    cases hsent
    exact h
  | delivery =>
    cases hsent
    exact h.send _ _
  | terminate =>
    obtain ⟨root, -, rfl⟩ := Injection.into_terminate_eq_ok hsent
    exact h.send _ _
  | expiry =>
    cases hsent
    exact h.send_timeout hnone _

/-! ### What is stored -/

/-- When effects are carried out, what is pending was pending after them. -/
theorem Soup.after_outbox_settled (s : InstanceSoup) (w : Pending) :
    (w.after s.outbox).after s.settled.outbox = w.after s.outbox := by
  rw [s.settled_frame]
  rfl

theorem Soup.timers_settled (s : InstanceSoup) : s.settled.timers = s.timers := by
  rw [s.settled_frame]

theorem Soup.isClosed_settled (s : InstanceSoup) (c : Channel) :
    s.settled.isClosed c = s.isClosed c := by
  rw [s.settled_frame]
  rfl

theorem Pending.Covers.settled (h : w.Covers soup) : (w.after soup.outbox).Covers soup.settled := by
  intro t d hd hopen
  rw [Soup.after_outbox_settled]
  rw [Soup.timers_settled] at hd
  rw [Soup.isClosed_settled] at hopen
  exact h t d hd hopen

theorem Pending.Within.settled (h : w.Within soup) : (w.after soup.outbox).Within soup.settled := by
  intro t d hd
  rw [Soup.after_outbox_settled] at hd
  rw [Soup.timers_settled]
  exact h t d hd

theorem Pending.Within.rearmed (h : w.Within soup) (hnone : soup.outbox = []) :
    Pending.Within (fun t => (soup.timers.get? t).or (w t)) soup := by
  intro t d hd
  rw [hnone, after_nil] at hd
  rcases Option.or_eq_some_iff.1 hd with harmed | ⟨-, hpending⟩
  · exact harmed
  · exact h.armed hnone hpending

theorem Soup.Apart.settled (h : soup.Apart) : soup.settled.Apart := by
  have hframe := soup.settled_frame
  refine h.mono (fun P hP => ?_) (fun t d hd => ?_) (by rw [hframe]) (by rw [hframe])
  · rw [hframe] at hP
    cases P <;> exact hP
  · rw [Soup.timers_settled] at hd
    exact hd

theorem Soup.Tidy.settled (h : soup.Tidy) : soup.settled.Tidy := by
  refine h.mono ?_ fun c m hm => Soup.mem_queue_of_settled hm
  rw [soup.settled_frame]

/-! ### Wake-ups at a site -/

/-- Open armed timers are pending; where nothing else is delivered than what timers send, the armed
timers are the pending ones. -/
structure Wakes (outside : Prop) (soup : InstanceSoup) (w : Pending) : Prop where
  covers : w.Covers soup
  tidy : ¬ outside → soup.Tidy
  within : ¬ outside → w.Within soup

theorem Wakes.upkeep (outside : Prop) :
    Upkeep outside (fun _ soup w => Wakes outside soup w) fun _ _ => True where
  newborn s :=
    { covers := nofun
      tidy := fun _ => s.tidy_newSoup
      within := fun _ => nofun }
  put h hnone hi hsent :=
    { covers := h.covers.into hnone hi hsent
      tidy := fun hinside => (h.tidy hinside).into (h.within hinside) hnone hinside hi hsent
      within := fun hinside =>
        (h.within hinside).into (h.tidy hinside).toApart hnone hinside hi hsent }
  run h ho :=
    { covers := h.covers.of_execute ho
      tidy := fun hinside => (h.tidy hinside).of_execute ho
      within := fun hinside => (h.within hinside).of_execute (h.tidy hinside).toApart ho }
  stored h _ :=
    { covers := h.covers.settled
      tidy := fun hinside => (h.tidy hinside).settled
      within := fun hinside => (h.within hinside).settled }
  rearmed {_ soup w} h hnone :=
    { covers := by
        intro t d hd _
        rw [hnone, Pending.after_nil]
        exact Option.or_eq_some_iff.2 (.inl hd)
      tidy := h.tidy
      within := fun hinside => (h.within hinside).rearmed hnone }
  ended _ _ := trivial
  failed _ _ _ := trivial
  late _ _ := trivial

/-- In a tidy soup the armed timers are exactly the pending ones. -/
theorem Wakes.pending_eq (h : Wakes outside soup w) (hinside : ¬ outside)
    (hnone : soup.outbox = []) (t : Channel) : w t = soup.timers.get? t := by
  have hcovers := h.covers t
  have hwithin := h.within hinside t
  rw [hnone, Pending.after_nil] at hcovers hwithin
  cases hd : soup.timers.get? t with
  | some d => exact hcovers d hd ((h.tidy hinside).armed t d hd).1
  | none =>
    by_contra hne
    obtain ⟨d, hw⟩ := Option.ne_none_iff_exists'.1 hne
    rw [hwithin d hw] at hd
    cases hd

namespace Site

/-- **No wake-up is lost.**  Whatever happens at a site, the state of every active instance can be
read, and every armed timer in it whose channel is open is pending with the same deadline.  If
nothing is delivered but what timers send, then the pending timers of every active instance are
exactly the armed timers of its stored state; and an engine with the same processes that starts on
the same store, and knows of no timers, has the same timers pending once it has recovered. -/
theorem keeps_wakeups (evaluator : Occasion → Evaluator) (limit : Nat) (now : Instant)
    {events : List SiteEvent} (hfits : ∀ v ∈ events, v.Fits evaluator)
    (hcounted : (founded evaluator limit now).Counted events) :
    let s := (founded evaluator limit now).after events
    ∀ id r, s.host.store.get? id = some r → r.status = .active →
      ∃ d soup, s.engine.Loads r d soup ∧
        (∀ t deadline, soup.timers.get? t = some deadline → soup.isClosed t = false →
          s.pending.get? ⟨id, t⟩ = some deadline) ∧
        ((∀ v ∈ events, ¬ v.IsDelivery) →
          (∀ t, s.pending.get? ⟨id, t⟩ = soup.timers.get? t) ∧
          ∀ back : Site, back.engine.processes = s.engine.processes →
            back.host.store = s.host.store → back.Ready → back.pending = ∅ → ∀ t,
              (back.next .recover).pending.get? ⟨id, t⟩ = s.pending.get? ⟨id, t⟩) := by
  intro s id r hr hactive
  have hkept : s.Kept _ _ :=
    (Wakes.upkeep (∃ v ∈ events, v.IsDelivery)).after (Upkeep.founded evaluator limit now) hfits
      hcounted (fun v hv hdelivery => ⟨v, hv, hdelivery⟩) fun _ _ _ _ _ _ _ h => h
  obtain ⟨d, soup, hk, hd, -, hwakes⟩ := hkept.waiting hr hactive
  have hloads := hk.loads hkept.fits hd
  refine ⟨d, soup, hloads, fun t deadline ht hopen => ?_, fun hinside => ?_⟩
  · have hcovers := hwakes.covers t deadline ht hopen
    rw [hk.outbox] at hcovers
    exact hcovers
  · have hinside : ¬ ∃ v ∈ events, v.IsDelivery := fun ⟨v, hv, hdelivery⟩ =>
      hinside v hv hdelivery
    have hpending := hwakes.pending_eq hinside hk.outbox
    refine ⟨hpending, fun back hprocesses hstore hready hempty t => ?_⟩
    have hback : back.engine.Loads r d soup := ⟨hprocesses ▸ hd, hloads.read⟩
    rw [back.pending_recover hready hempty (hstore ▸ hr) hback, ← hpending t]

/-- The wait of a day is pending on, and so is the alarm for another hour. -/
theorem keeps_wakeups_vigil :
    (∀ v ∈ vigilEvents, v.Fits Script.vigil.evaluator) ∧
    (founded Script.vigil.evaluator 100 ⟨0, 0⟩).Counted vigilEvents ∧
    (∀ v ∈ vigilEvents, ¬ v.IsDelivery) ∧
    let s := (founded Script.vigil.evaluator 100 ⟨0, 0⟩).after vigilEvents
    ∃ r d soup, s.host.store.get? 1 = some r ∧ r.status = .active ∧ s.engine.Loads r d soup ∧
      soup.timers.get? 8 = some ⟨86400, 0⟩ ∧ soup.timers.get? 12 = some ⟨7200, 0⟩ ∧
      ∀ t, s.pending.get? ⟨1, t⟩ = soup.timers.get? t := by
  obtain ⟨hcounted, solo, w, hshows, hstatus, hday, hhour⟩ := shows_vigil
  have hinside : ∀ v ∈ vigilEvents, ¬ v.IsDelivery := by decide
  refine ⟨vigilEvents_fit, hcounted, hinside, ?_⟩
  obtain ⟨r, hr, hactive⟩ := hshows.exists_record hstatus
  obtain ⟨d, soup, hloads, -, hwakes⟩ := keeps_wakeups Script.vigil.evaluator 100 ⟨0, 0⟩
    vigilEvents_fit hcounted 1 r hr hactive
  obtain ⟨hsame, -⟩ := hwakes hinside
  refine ⟨r, d, soup, hr, hactive, hloads, ?_, ?_, hsame⟩
  · rw [← hsame]
    exact (congrFun hshows.pending 8).trans hday
  · rw [← hsame]
    exact (congrFun hshows.pending 12).trans hhour

end Site

end Perdure
