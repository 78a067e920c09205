import Perdure.Proofs.Instance.Punctual
import Perdure.Proofs.Instance.Schedule
import Perdure.Proofs.Instance.Stale

/-!
# Alarms keep to their schedule

Between two firings an alarm passes through stages that are spread over tasks, receivers, timers and
messages under way.  What each stage promises is said in terms of what has happened to the alarm so
far, not of how the alarm got there; a stage keeps its promises while other parts react, and hands
them on to the next stage when its own part does.  So an alarm that is about to fire has a deadline
that is reached, whether it waited for a timer or found that the deadline had passed.

## Main definitions

* `Script.Stage` — what the stage of an alarm promises.
* `Script.FiresDuly` — a firing that is due.

## Main results

* `Script.stage_of_heir` — a part that goes on passes to a stage whose promises are kept.
* `Script.Clocked.stage` — every part keeps its promises.
* `Script.Clocked.firesDuly` — every firing is due.
* `Script.Punctual.keeps_schedule` — the alarms of punctual courses keep to their schedule.
-/

namespace Perdure

namespace Script

variable {s : Script} {h : Channel} {place : AlarmRef} {ts : List Tick}

/-! ### The stages of an alarm -/

/-- What the stage of an alarm promises: what has happened so far is in accordance with its
schedule, a timer that it waits for was registered with its deadline, a deadline at which it fires
has been reached, and as long as it may wait for a next deadline nobody has told it to stop. -/
def Stage (s : Script) (now : Instant) (ts : List Tick) (c : Course) : Part → Prop
  | .ready (.alarmStart alarm) => ∀ t ∈ ts, t.home ≠ alarm.parent
  | .ready (.alarmWait alarm deadline) =>
    s.Schedule alarm.parent alarm.alarm ts deadline ∧ Unordered ts alarm.parent
  | .waiting (.alarmWaiting alarm timer) =>
    ∃ deadline, s.Schedule alarm.parent alarm.alarm ts deadline ∧ Unordered ts alarm.parent ∧
      ∀ t, timer = some t → ∃ d, deadline = some d ∧ .registerTimer t d ∈ c.emitted
  | .ready (.alarmFire alarm) =>
    (∃ d, s.Schedule alarm.parent alarm.alarm ts (some d) ∧ d.isAtMost now = true) ∧
      Unordered ts alarm.parent
  | .ready (.alarmActive alarm child stopped) | .waiting (.alarmActive alarm child stopped) =>
    s.Firing alarm.parent alarm.alarm child now (c.soup.queue child.parent) ts ∧
      (stopped = false → Unordered ts alarm.parent)
  | _ => True

/-- The promises are about what was emitted, and about reports that wait to be taken. -/
theorem stage_congr {now : Instant} {c d : Course} {P : Part} (hs : s.Stage now ts c P)
    (hemitted : d.emitted = c.emitted)
    (hqueue : ∀ u ∈ P.awaits, d.soup.queue u.parent = c.soup.queue u.parent) :
    s.Stage now ts d P := by
  match P, hs with
  | .waiting (.alarmWaiting alarm timer), ⟨deadline, hschedule, hun, htimer⟩ =>
    exact ⟨deadline, hschedule, hun, hemitted ▸ htimer⟩
  | .ready (.alarmActive alarm child stopped), ⟨hfiring, hun⟩
  | .waiting (.alarmActive alarm child stopped), ⟨hfiring, hun⟩ =>
    have hchild := hqueue child.link (List.mem_singleton_self _)
    exact ⟨hchild ▸ hfiring, hun⟩
  | .ready (.alarmStart _), hs | .ready (.alarmWait _ _), hs | .ready (.alarmFire _), hs
  | .ready (.activity _), hs | .ready (.sequenceStep _), hs | .ready (.scopeActive _), hs
  | .waiting (.waitActivity _ _), hs | .waiting (.sequenceWaiting _ _), hs
  | .waiting (.scopeWaiting _), hs => exact hs

section Move

variable {now : Instant} {c : Course} {r : Reduction} {p : Products} {consumed : List Link}
  (m : Move s now .root c.soup r p consumed)

include m

/-- Reports that are not taken wait, and those on record as sent join them. -/
theorem queue_extend {u : Link} (hu : u ∈ c.soup.awaited) (hkept : u ∉ consumed) :
    (c.extend r).soup.queue u.parent = c.soup.queue u.parent ++ r.sentTo u.parent := by
  have hold : u ∈ c.soup.expected .root := List.mem_cons_of_mem _ hu
  have hnew := m.mem_expected_after.2 (.inr ⟨hold, hkept⟩)
  rw [Course.soup_extend, m.queue_after (Family.parent_mem_owned hnew),
    m.queue_before_parent hold hkept, m.sentTo_eq]

/-- While its activity is not known to have ended, an alarm goes on firing. -/
theorem firing_extend {h : Channel} {place : AlarmRef} {child : Run} {P : Part}
    (hP : P ∈ c.soup.parts) (hchild : child.link ∈ P.awaits) (hkept : child.link ∉ consumed)
    (hs : s.Firing h place child now (c.soup.queue child.parent) ts)
    (hfires : (⟨now, r⟩ : Tick).fires h = false) :
    s.Firing h place child now ((c.extend r).soup.queue child.parent) (ts ++ [⟨now, r⟩]) := by
  have hawaited : child.link ∈ c.soup.awaited := List.mem_flatMap.2 ⟨P, hP, hchild⟩
  have hqueue : (c.extend r).soup.queue child.parent = _ := queue_extend m hawaited hkept
  rw [hqueue]
  exact hs.append hfires rfl

/-- A part keeps its promises while another part reacts. -/
theorem stage_of_before {Q : Part} (hQ : Q ∈ r.before.parts) (hs : s.Stage now ts c Q) :
    s.Stage now (ts ++ [⟨now, r⟩]) (c.extend r) Q := by
  have hne : r.part.home ≠ Q.home := (m.home_ne_of_before hQ).symm
  have hfires : (⟨now, r⟩ : Tick).fires Q.home = false := Tick.fires_eq_false hne
  have hord : ¬ (⟨now, r⟩ : Tick).Ordered Q.home := fun ho => hne ho.1
  match Q, hs with
  | .ready (.alarmStart alarm), hs =>
    exact forall_mem_concat hs hne
  | .ready (.alarmWait alarm deadline), ⟨hschedule, hun⟩ =>
    exact ⟨hschedule.append hfires, hun.append hord⟩
  | .waiting (.alarmWaiting alarm timer), ⟨deadline, hschedule, hun, htimer⟩ =>
    refine ⟨deadline, hschedule.append hfires, hun.append hord, fun t ht => ?_⟩
    obtain ⟨d, hd, hreg⟩ := htimer t ht
    refine ⟨d, hd, ?_⟩
    rw [m.emitted_extend rfl]
    exact List.mem_append_left _ hreg
  | .ready (.alarmFire alarm), ⟨⟨d, hschedule, hdue⟩, hun⟩ =>
    exact ⟨⟨d, hschedule.append hfires, hdue⟩, hun.append hord⟩
  | .ready (.alarmActive alarm child stopped), ⟨hfiring, hun⟩
  | .waiting (.alarmActive alarm child stopped), ⟨hfiring, hun⟩ =>
    have hown := List.mem_singleton_self child.link
    have hQ' := m.mem_of_before hQ
    refine ⟨firing_extend m hQ' hown (fun hu => ?_) hfiring hfires,
      fun hstopped => (hun hstopped).append hord⟩
    exact hne (congrArg Part.home (m.family.awaiter_unique m.part_mem hQ' (m.consumes _ hu).1 hown))
  | .ready (.activity _), _ | .ready (.sequenceStep _), _ | .ready (.scopeActive _), _
  | .waiting (.waitActivity _ _), _ | .waiting (.sequenceWaiting _ _), _
  | .waiting (.scopeWaiting _), _ => exact True.intro

/-- An alarm that is started has not done anything yet. -/
theorem stage_of_kid (hts : ∀ u ∈ ts, u.home < (c.soup.nextChannel : Nat)) {t : Task}
    (ht : t ∈ p.kids) : s.Stage now (ts ++ [⟨now, r⟩]) (c.extend r) (.ready t) := by
  have hnew := m.home_new_of_kid ht
  have hpart := m.family.home_below m.part_mem
  obtain ⟨_, _, _, rfl⟩ | ⟨_, _, _, rfl⟩ := m.yields.kid_cases ht
  · exact True.intro
  · intro u hu he
    have hlt : u.home < (c.soup.nextChannel : Nat) := forall_mem_concat hts hpart u hu
    rw [he] at hlt
    exact absurd hlt (Nat.not_lt.2 hnew)

/-- A part that goes on passes to a stage whose promises are kept. -/
theorem stage_of_heir (hs : s.Stage now ts c r.part)
    (hdue : ∀ t d, r.part.timer = some t → r.taken = some (t, .timeout) →
      .registerTimer t d ∈ c.emitted → d.isAtMost now = true) {Q : Part} (hQ : p.heir = some Q) :
    s.Stage now (ts ++ [⟨now, r⟩]) (c.extend r) Q := by
  have hy := m.yields
  have hd := m.delivery
  generalize hP : r.part = P at hs hdue hy hd
  generalize htaken : r.taken = taken at hdue hy hd
  have hfires (hno : ∀ alarm, P ≠ .ready (.alarmFire alarm)) (h : Channel) :
      (⟨now, r⟩ : Tick).fires h = false := Tick.fires_eq_false_of_part hP hno h
  have hfiring {h : Channel} {place : AlarmRef} {child : Run} (hown : child.link ∈ P.awaits)
      (hkept : consumed = []) (hno : ∀ alarm, P ≠ .ready (.alarmFire alarm))
      (hs : s.Firing h place child now (c.soup.queue child.parent) ts) :
      s.Firing h place child now ((c.extend r).soup.queue child.parent) (ts ++ [⟨now, r⟩]) :=
    firing_extend m m.part_mem (hP ▸ hown) (hkept ▸ List.not_mem_nil) hs (hfires hno h)
  have hord (hno : ∀ c msg, taken = some (c, msg) → msg ≠ .stop ∧ msg ≠ .terminate) (h : Channel) :
      ¬ (⟨now, r⟩ : Tick).Ordered h := Tick.not_ordered_of_taken htaken hno h
  cases hy <;> cases hQ
  case alarmTimed alarm a deadline ha hdl =>
    have hnone : ∀ u ∈ ts, u.home ≠ alarm.parent := hs
    have hnothing : ∀ u ∈ ([] : List Tick), u.fires alarm.parent = false := List.forall_mem_nil _
    refine ⟨.first hP rfl hnone hnothing ha (firstDeadline_eq_ok_iff.1 hdl), ?_⟩
    exact Unordered.append (fun u hu ho => hnone u hu ho.1) (hord nofun _)
  case alarmRests alarm =>
    exact ⟨none, hs.1.append (hfires nofun _), hs.2.append (hord nofun _), nofun⟩
  case alarmPassed alarm t ht =>
    exact ⟨⟨t, hs.1.append (hfires nofun _), ht⟩, hs.2.append (hord nofun _)⟩
  case alarmArmed alarm t ht =>
    refine ⟨some t, hs.1.append (hfires nofun _), hs.2.append (hord nofun _), ?_⟩
    intro u hu
    refine ⟨t, rfl, ?_⟩
    rw [m.emitted_extend rfl, ← Option.some.inj hu]
    exact List.mem_append_right _ (List.mem_append_right _ List.mem_cons_self)
  case alarmDue alarm timer ch =>
    obtain ⟨deadline, hschedule, hun, htimer⟩ := hs
    -- the event is that of the timer, whose deadline is the current one
    have hch : timer = some ch := by
      cases hd with
      | event hc _ => exact hc
    obtain ⟨d, rfl, hreg⟩ := htimer ch hch
    exact ⟨⟨d, hschedule.append (hfires nofun _), hdue ch d hch rfl hreg⟩,
      hun.append (hord (by rintro c msg ⟨⟩; exact ⟨nofun, nofun⟩) _)⟩
  case alarmFired alarm a ha =>
    obtain ⟨⟨d, hschedule, hreached⟩, hun⟩ := hs
    have hfirst : (⟨now, r⟩ : Tick).fires alarm.parent = true := Tick.fires_iff.2 ⟨alarm, hP, rfl⟩
    have hstarted : (⟨now, r⟩ : Tick).started =
        some (Run.fresh a.activity c.soup.nextMonotonic c.soup.nextChannel) := by
      rw [Tick.started, m.produced_eq]
      rfl
    have hnothing : ∀ u ∈ ([] : List Tick), u.fires alarm.parent = false := List.forall_mem_nil _
    -- nothing is reported yet on the new channel
    have hnew : (c.soup.nextChannel : Nat) ≤
        (Run.fresh a.activity c.soup.nextMonotonic c.soup.nextChannel).parent := Nat.le_succ _
    have hempty := m.queue_after_new hnew
    exact ⟨.intro hschedule hreached hfirst hstarted hnothing hempty (List.forall_mem_nil _),
      fun _ => hun.append (hord nofun _)⟩
  case firingWatched =>
    exact ⟨hfiring (List.mem_singleton_self _) (hd.eq_nil_of_no_report nofun) nofun hs.1,
      fun hstopped => (hs.2 hstopped).append (hord nofun _)⟩
  case firingAgain alarm child ch msg cs a deadline hm ha hdl =>
    obtain ⟨u, hu, rfl, rfl, -⟩ := hd.of_report hm
    obtain rfl := List.mem_singleton.1 hu
    have hreport : .completed none cs ∈ c.soup.queue child.parent := by
      rw [m.gives.queue child.parent, htaken]
      exact List.mem_append_left _ (Soup.mem_addressed.2 (List.mem_singleton_self _))
    have hschedule := hs.1.schedule hreport ha (nextDeadline_eq_ok_iff.1 hdl)
    exact ⟨hschedule.append (hfires nofun _),
      (hs.2 rfl).append (hord (by rintro c msg ⟨⟩; exact ⟨nofun, nofun⟩) _)⟩
  case firingTold | firingStopped =>
    have hnone := hd.eq_nil_of_no_report (by rintro c msg ⟨⟩; rfl)
    exact ⟨hfiring (List.mem_singleton_self _) hnone nofun hs.1, nofun⟩
  case firingAsked =>
    have hnone := hd.eq_nil_of_no_report (by rintro c msg ⟨⟩; rfl)
    refine ⟨hfiring (List.mem_singleton_self _) hnone nofun hs.1, fun hstopped => ?_⟩
    exact (hs.2 hstopped).append (hord (by rintro c msg ⟨⟩; exact ⟨nofun, nofun⟩) _)
  all_goals exact True.intro

end Move

/-! ### Courses on schedule -/

/-- A firing is due: the deadline that the alarm had is reached, what the alarm has started before
has reported that it has completed, and nobody has told the alarm to stop. -/
structure FiresDuly (s : Script) (earlier : List Tick) (firing : Tick) (alarm : AlarmRun) : Prop where
  due : ∃ d, s.Schedule alarm.parent alarm.alarm earlier (some d) ∧ d.isAtMost firing.now = true
  completed : ∀ before after last, earlier = before ++ last :: after →
    last.fires alarm.parent = true →
    ∃ child, last.started = some child ∧ ∃ report ∈ after, report.completes child = true
  unordered : ∀ t ∈ earlier, ¬ t.Ordered alarm.parent

namespace Clocked

variable {now : Instant} {c : Course}

/-- Every part keeps its promises. -/
theorem stage (hc : s.Clocked now ts c) : ∀ P ∈ c.soup.parts, s.Stage now ts c P := by
  induction hc with
  | start _ => exact fun P hP => mem_parts_newSoup.1 hP ▸ True.intro
  | @set now ts c hc hw next ih =>
    intro P hP
    have hs := ih P hP
    obtain ⟨q, rfl, hq⟩ := hc.ticked.driven.orderly.family.waits_of_rest hw hP
    cases q with
    | alarmActive alarm child stopped =>
      -- at rest nothing is reported that could have been reported at another time
      have hempty : c.soup.queue child.parent = [] :=
        hq _ (Receiver.mem_channels.2 (.inr (.inl List.mem_cons_self)))
      obtain ⟨hfiring, hun⟩ := hs
      rw [hempty] at hfiring
      refine ⟨?_, hun⟩
      rw [hempty]
      exact hfiring.set next
    | _ => exact hs
  | @inject now ts c ch msg hc ha hon ih =>
    have ho := hc.ticked.driven.orderly
    intro P hP
    have hP : P ∈ c.soup.parts := c.soup.parts_send ch msg ▸ hP
    refine stage_congr (ih P hP) (c.emitted_inject _) fun u hu => ?_
    exact ho.family.queue_send_parent (ho.accepts ha) (Family.mem_expected_of_awaits .root hP hu)
  | @reduce now ts c r hc hr ih =>
    have hd := hc.ticked.driven
    obtain ⟨p, consumed, m⟩ := hd.orderly.family.exists_move hr
    intro Q hQ
    rcases m.mem_after.1 hQ with hQ | ⟨t, ht, rfl⟩ | hQ
    · exact stage_of_heir m (ih _ m.part_mem) (fun t d ht htaken => hc.due_of_timeout hr ht htaken) hQ
    · refine stage_of_kid m ?_ ht
      intro u hu
      refine hd.home_below _ (List.mem_append_left _ (List.mem_map_of_mem ?_))
      rw [← hc.ticked.log_eq]
      exact List.mem_map_of_mem hu
    · exact stage_of_before m hQ (ih Q (m.mem_of_before hQ))
  | @drain now ts c _ ih =>
    exact fun P hP => stage_congr (ih P hP) c.emitted_drain fun _ _ => rfl

/-- Every firing is due. -/
theorem firesDuly (hc : s.Clocked now ts c) {earlier later : List Tick} {firing : Tick}
    {alarm : AlarmRun} (hts : ts = earlier ++ firing :: later)
    (hfiring : firing.reduction.part = .ready (.alarmFire alarm)) :
    s.FiresDuly earlier firing alarm := by
  induction hc generalizing later with
  | start _ =>
    have hlength := congrArg List.length hts
    simp at hlength
  | set _ _ _ ih => exact ih hts
  | inject _ _ _ ih => exact ih hts
  | @reduce now ts c r hc hr ih =>
    rcases List.eq_nil_or_concat later with rfl | ⟨rest, last, rfl⟩
    · -- the firing is the reduction that was just made
      obtain ⟨rfl, hlast⟩ := List.append_inj' hts rfl
      obtain rfl := (List.cons_eq_cons.1 hlast).1
      obtain ⟨p, consumed, m⟩ := hc.ticked.driven.orderly.family.exists_move hr
      have hs := hc.stage _ m.part_mem
      rw [show r.part = _ from hfiring] at hs
      obtain ⟨⟨d, hschedule, hdue⟩, hun⟩ := hs
      exact ⟨⟨d, hschedule, hdue⟩, fun _ _ _ he => hschedule.completed he, hun⟩
    · rw [List.concat_eq_append, ← List.cons_append, ← List.append_assoc] at hts
      exact ih (List.append_inj' hts rfl).1
  | drain _ ih => exact ih hts

/-- What reports on the channel of an alarm works for that alarm. -/
theorem place_unique (hc : s.Clocked now ts c) {t u : Tick} (ht : t ∈ ts) (hu : u ∈ ts)
    (he : t.home = u.home) : t.reduction.part.place? = u.reduction.part.place? := by
  have hmem {t : Tick} (ht : t ∈ ts) : t.reduction.part ∈ c.members := by
    refine List.mem_append_left _ (List.mem_map_of_mem ?_)
    rw [← hc.ticked.log_eq]
    exact List.mem_map_of_mem ht
  exact hc.ticked.driven.eq_of_home (fun hy hQ => hy.place?_heir hQ) _ (hmem ht) _ (hmem hu) he

/-- A firing has the deadline of the alarm that has started on its channel. -/
theorem exists_deadline (hc : s.Clocked now ts c) {start : Tick} {alarm : AlarmRun}
    (hmem : start ∈ ts) (hstart : start.reduction.part = .ready (.alarmStart alarm))
    {earlier later : List Tick} {firing : Tick} (hts : ts = earlier ++ firing :: later)
    (hfires : firing.fires alarm.parent = true) :
    ∃ d, s.Schedule alarm.parent alarm.alarm earlier (some d) := by
  obtain ⟨run, hP, hhome⟩ := Tick.fires_iff.1 hfires
  obtain ⟨d, hd, -⟩ := (hc.firesDuly hts hP).due
  have hfiring : firing ∈ ts := hts ▸ List.mem_append_right _ List.mem_cons_self
  have hplace := hc.place_unique hmem hfiring (by rw [Tick.home, Tick.home, hstart, hP]; exact hhome.symm)
  rw [hstart, hP] at hplace
  have hplace : alarm.alarm = run.alarm := Option.some.inj hplace
  exact ⟨d, hhome ▸ hplace ▸ hd⟩

end Clocked

/-- **Alarms keep to their schedule.**  In every round of a punctual course, after any number of
reductions, every firing of an alarm is due: its deadline, which its first expression has set at its
start and its repetition whenever its activity had completed, is reached, the firing before it has
completed, and nobody has told the alarm to stop.  An alarm that does not repeat fires at most once,
and one without any expression never does. -/
theorem Punctual.keeps_schedule {c : Course} (hc : s.Punctual ts c) {ms : List (Channel × Message)}
    (hms : ∀ e ∈ ms, c.Admits e.1 e.2) {now : Instant} (hon : c.OnTime now ms) (n : Nat) :
    let ticks := ts ++ (s.advance now n (c.inject ms)).since c now
    (∀ earlier firing later alarm, ticks = earlier ++ firing :: later →
      firing.reduction.part = .ready (.alarmFire alarm) → s.FiresDuly earlier firing alarm) ∧
    ∀ start ∈ ticks, ∀ alarm a, start.reduction.part = .ready (.alarmStart alarm) →
      s.alarm alarm.alarm = .ok a →
      (a.repetition = none → ticks.countP (·.fires alarm.parent) ≤ 1) ∧
      (a.delay = none → a.instant = none → a.repetition = none →
        ticks.countP (·.fires alarm.parent) = 0) := by
  intro ticks
  have hd : s.Clocked now ticks _ := (hc.clocked now).further hms hon n
  refine ⟨fun _ _ _ _ hts hP => hd.firesDuly hts hP, ?_⟩
  intro start hmem alarm a hstart ha
  constructor
  · intro honce
    refine countP_le_one fun pre firing post hts hfires => ?_
    obtain ⟨d, hschedule⟩ := hd.exists_deadline hmem hstart hts hfires
    exact hschedule.not_fires_of_once ha honce
  · intro hdelay hinstant hrepetition
    rw [List.countP_eq_zero]
    intro firing hfiring hfires
    obtain ⟨pre, post, hts⟩ := List.append_of_mem hfiring
    obtain ⟨d, hschedule⟩ := hd.exists_deadline hmem hstart hts hfires
    exact hschedule.first_ne_none ha (Alarm.first_eq_none_iff.2 ⟨hdelay, hinstant, hrepetition⟩)

/-- What has happened in the first round of a vigil. -/
def vigilOnce : List Tick := vigilStarted.since { soup := vigil.newSoup } ⟨0, 0⟩

theorem punctual_vigilStarted : vigil.Punctual vigilOnce vigilStarted := by
  have hrest : vigil.RestsAfter ⟨0, 0⟩ 5 (Course.inject { soup := vigil.newSoup } []) :=
    ⟨by decide +kernel, by decide +kernel⟩
  have hround := Punctual.round_of_restsAfter (.start rfl) (List.forall_mem_nil _) True.intro hrest
  rw [List.nil_append] at hround
  exact hround

/-- What has happened in the first two rounds of a vigil, in the second of which its alarm fires. -/
def vigilTwice : List Tick := vigilOnce ++ vigilRung.since vigilStarted ⟨3600, 0⟩

theorem punctual_vigilRung : vigil.Punctual vigilTwice vigilRung := by
  have harmed : vigilStarted.soup.timers.get? 9 = some ⟨3600, 0⟩ := by decide +kernel
  have hon : vigilStarted.OnTime ⟨3600, 0⟩ [(9, .timeout)] := by
    refine ⟨fun _ d hd => ?_, True.intro⟩
    cases harmed.symm.trans hd
    rfl
  exact punctual_vigilStarted.round_of_restsAfter admits_vigilStarted hon (n := 6)
    ⟨by decide +kernel, by decide +kernel⟩

/-- What has happened to a vigil until its alarm fires again. -/
def vigilThrice : List Tick := vigilTwice ++
  (vigil.advance ⟨7200, 0⟩ 2 (vigilRung.inject [(12, .timeout)])).since vigilRung ⟨7200, 0⟩

theorem vigilThrice_ne_nil : vigilThrice ≠ [] := fun hnil =>
  absurd (congrArg List.length hnil) (by decide +kernel)

/-- The alarm of a vigil. -/
def vigilAlarm : AlarmRun :=
  { alarm := ⟨0, 0⟩, scopeInstance := 1, parent := 5, termination := 6, control := 7 }

/-- Two hours after a vigil has started its alarm fires for the second time, which is due. -/
theorem keeps_schedule_vigil :
    ∃ earlier firing, vigilThrice = earlier ++ [firing] ∧ firing.now = ⟨7200, 0⟩ ∧
      earlier.countP (·.fires 5) = 1 ∧ vigil.FiresDuly earlier firing vigilAlarm := by
  have hms : ∀ e ∈ [((12 : Channel), Message.timeout)], vigilRung.Admits e.1 e.2 := by
    intro e he
    rw [List.mem_singleton.1 he]
    exact .inl ⟨.inl rfl, ⟨7200, 0⟩, by decide +kernel⟩
  have harmed : vigilRung.soup.timers.get? 12 = some ⟨7200, 0⟩ := by decide +kernel
  have hon : vigilRung.OnTime ⟨7200, 0⟩ [(12, .timeout)] := by
    refine ⟨fun _ d hd => ?_, True.intro⟩
    cases harmed.symm.trans hd
    rfl
  have hlast := (List.dropLast_append_getLast vigilThrice_ne_nil).symm
  exact ⟨_, _, hlast, by decide +kernel, by decide +kernel,
    (punctual_vigilRung.keeps_schedule hms hon 2).1 _ _ [] _ hlast (by decide +kernel)⟩

end Script

end Perdure
