import Perdure.Proofs.Instance.Codec
import Perdure.Proofs.Instance.Scopes
import Perdure.Proofs.Time.Strict

/-!
# Numbers stay words

A definition fits when its places and the lengths of its lists are words; a script fits when its
evaluator also names valid instants only.  What a part of a script with a fitting definition yields
fits again, as long as the channels and numbers it takes are words: its messages, the timers it arms
and disarms, the channels it closes, what it starts and its heir.  What is known of instants beside
that, validity for one, is a property that passes from the time to all deadlines that are set then.

## Main definitions

* `Definition.Fits` — the places of a definition and the lengths of its lists are words.
* `Script.Tells` — a property of instants passes from the time to the deadlines that the evaluator
  names.
* `Script.FitsOver`, `Script.Fits` — the definition fits, and a property of instants passes to all
  deadlines; the property may be validity.
* `Part.Fits` — the numbers of a part are words, and a sequence that waits can still count on.
* `Part.Almost` — the same, but for the place of a sequence that goes on.
* `Products.Keeps` — the products of a reaction fit, and its parts have a given property.

## Main results

* `Yields.keeps_almost` — what a part yields almost fits, by one law for each product:
  `Yields.fits_sent`, `Yields.fits_closed`, `Yields.fits_armed`, `Yields.fits_kids`,
  `Yields.almost_heir`.
* `Yields.keeps_fits` — what a fitting part yields fits, since sequences count on.
-/

namespace Perdure

/-! ### Sets of compensations -/

namespace Compensations

theorem fits_empty : Compensations.Fits ∅ := fun _ h => nomatch h

theorem fits_add {cs : Compensations} (h : cs.Fits) {c : Compensation} (hc : c.Fits) :
    Compensations.Fits (cs.add c) := by
  intro d hd
  obtain ⟨e, he, rfl⟩ := List.mem_map.1 hd
  rcases Table.mem_place he with rfl | he
  · exact hc
  · exact h e.1 (List.mem_map_of_mem he)

theorem fits_union {cs ds : Compensations} (h : cs.Fits) (hd : ds.Fits) :
    Compensations.Fits (cs.union ds) := by
  intro c hc
  rw [← KeySet.contains_iff_mem_keys, KeySet.contains_union, KeySet.contains_iff_mem_keys,
    KeySet.contains_iff_mem_keys] at hc
  exact hc.elim (h c) (hd c)

end Compensations

/-- What a fitting message reports fits. -/
theorem Message.fits_report {m : Message} {fault : Option Fault} {cs : Compensations}
    (h : m.Fits) (hm : m.report? = some (fault, cs)) : cs.Fits := by
  cases m <;> cases hm
  · exact h
  · exact Compensations.fits_empty
  · exact Compensations.fits_empty

/-! ### New names -/

theorem Run.fits_fresh {activity : ActivityId} {n k : Nat} (ha : activity < 2 ^ 32)
    (hn : n + 2 ≤ 2 ^ 64) (hk : k + 1 ≤ 2 ^ 64) : (Run.fresh activity k n).Fits where
  id := hk
  activity := ha
  termination := by
    show n < 2 ^ 64
    omega
  parent := hn

theorem AlarmLink.fits_fresh {n : Nat} (hn : n + 3 ≤ 2 ^ 64) : (AlarmLink.fresh n).Fits where
  parent := by
    show n < 2 ^ 64
    omega
  termination := by
    show n + 1 < 2 ^ 64
    omega
  control := hn

theorem AlarmRun.fits_fresh {run : Run} (h : run.Fits) {i n : Nat} (hi : i < 2 ^ 32)
    (hn : n + 3 ≤ 2 ^ 64) : (AlarmRun.fresh run i n).Fits where
  alarm := ⟨h.activity, hi⟩
  scopeInstance := h.id
  parent := (AlarmLink.fits_fresh hn).parent
  termination := (AlarmLink.fits_fresh hn).termination
  control := (AlarmLink.fits_fresh hn).control
  compensations := Compensations.fits_empty

/-- The alarms of a scope that takes its channels from `n` end with these channels. -/
theorem alarmChannel_add_le {n i count : Nat} (hi : i < count) :
    alarmChannel n i + 3 ≤ n + (2 + 3 * count) := by
  show (n + 2 + 3 * i + 3 : Nat) ≤ n + (2 + 3 * count)
  omega

/-! ### Definitions -/

/-- The places of a definition and the lengths of its lists are words. -/
structure Definition.Fits (d : Definition) : Prop where
  root : d.root < 2 ^ 32
  references : ∀ a ∈ d.activities, ∀ r ∈ a.kind.references, r < 2 ^ 32
  lengths : ∀ a ∈ d.activities, a.kind.references.length < 2 ^ 64
  alarms : ∀ a ∈ d.activities, a.kind.alarms.length < 2 ^ 32

/-- A property of instants passes from the time of an occasion to what the evaluator names then. -/
def Script.Tells (T : Instant → Prop) (s : Script) : Prop :=
  ∀ {o : Occasion} {expression : String} {t : Instant}, T o.now →
    (s.evaluator o).deadline expression = .ok t → T t

/-- The definition fits, and a property of instants passes from the time of an occasion to all
deadlines that are set then. -/
structure Script.FitsOver (T : Instant → Prop) (s : Script) : Prop where
  definition : s.definition.Fits
  tells : s.Tells T
  endures : Instant.Endures T

/-- The definition fits, and what the evaluator names at a valid time is a valid instant. -/
structure Script.Fits (s : Script) : Prop where
  definition : s.definition.Fits
  deadlines : ∀ {o : Occasion} {expression : String} {t : Instant}, o.now.Valid →
    (s.evaluator o).deadline expression = .ok t → t.Valid

theorem Script.Fits.over {s : Script} (h : s.Fits) : s.FitsOver Instant.Valid :=
  ⟨h.definition, h.deadlines, Instant.endures_valid⟩

/-- A definition fits with the evaluator whose expressions are durations and timestamps
themselves. -/
theorem Definition.Fits.literal {d : Definition} (h : d.Fits) : Script.Fits ⟨d, Evaluator.literal⟩ :=
  ⟨h, fun _ ht => Evaluator.valid_literal ht⟩

/-- A definition fits with the evaluator whose expressions may also raise a fault. -/
theorem Definition.Fits.raising {d : Definition} (h : d.Fits) :
    Script.Fits ⟨d, Evaluator.raising Evaluator.literal⟩ :=
  ⟨h, fun _ ht => Evaluator.valid_raising Evaluator.valid_literal ht⟩

theorem Script.mem_of_activity {s : Script} {id : ActivityId} {a : Activity}
    (ha : s.activity id = .ok a) : a ∈ s.definition.activities := by
  unfold Script.activity at ha
  split at ha
  · next hget =>
    cases ha
    exact List.mem_of_getElem? hget
  · cases ha

namespace Definition.Fits

variable {s : Script} (hs : s.definition.Fits)

include hs

theorem children {id : ActivityId} {children : List ActivityId}
    (h : s.children id = .ok children) :
    (∀ c ∈ children, c < 2 ^ 32) ∧ children.length < 2 ^ 64 := by
  obtain ⟨a, ha, h⟩ := exists_of_bind_eq_ok h
  have hrefs := hs.references a (Script.mem_of_activity ha)
  have hlength := hs.lengths a (Script.mem_of_activity ha)
  split at h
  · next hk =>
    cases h
    rw [hk] at hrefs hlength
    exact ⟨hrefs, hlength⟩
  · cases h

theorem scopeParts {id body : ActivityId} {alarms : List Alarm}
    (h : s.scopeParts id = .ok (body, alarms)) : body < 2 ^ 32 ∧ alarms.length < 2 ^ 32 := by
  obtain ⟨a, compensation, ha, hk⟩ := Script.kind_of_scopeParts h
  have hrefs := hs.references a (Script.mem_of_activity ha)
  have halarms := hs.alarms a (Script.mem_of_activity ha)
  rw [hk] at hrefs halarms
  exact ⟨hrefs body List.mem_cons_self, halarms⟩

/-- The activity of an alarm is one that its scope refers to. -/
theorem alarm {place : AlarmRef} {a : Alarm} (h : s.alarm place = .ok a) : a.activity < 2 ^ 32 := by
  obtain ⟨scope, hscope, h⟩ := exists_of_bind_eq_ok h
  have hrefs := hs.references scope (Script.mem_of_activity hscope)
  split at h
  · next hget =>
    cases h
    have hmem := List.mem_of_getElem? hget
    cases hk : scope.kind with
    | scope body alarms compensation =>
      rw [hk] at hrefs hmem
      refine hrefs _ (List.mem_append_left _ (List.mem_cons_of_mem _ ?_))
      exact List.mem_map_of_mem hmem
    | empty | throw | wait | sequence =>
      rw [hk] at hmem
      cases hmem
  · cases h

theorem leftBehind {scope : ScopeRun} (h : scope.run.Fits) {left : Option Compensation}
    (hl : s.leftBehind scope = .ok left) : ∀ c ∈ left, c.Fits := by
  rintro c rfl
  unfold Script.leftBehind at hl
  split at hl
  · cases hl
  · obtain ⟨a, ha, hl⟩ := exists_of_bind_eq_ok hl
    have hrefs := hs.references a (Script.mem_of_activity ha)
    split at hl
    · next activity hk =>
      cases hl
      rw [hk] at hrefs
      exact ⟨h.id, h.activity, hrefs activity (by simp [ActivityKind.references])⟩
    · cases hl

end Definition.Fits

/-! ### Deadlines -/

namespace Script

variable {s : Script}

/-- An expression that is settled with a value was evaluated to it. -/
theorem eq_ok_of_settle {α : Type} {expression : String} {r : Except EvaluationFailure α} {a : α}
    (h : settle expression r = .ok (.ok a)) : r = .ok a := by
  unfold settle at h
  split at h <;> cases h
  rfl

/-- A deadline that an alarm may have is one that it does have. -/
theorem eq_ok_of_optional {r : Except RunError (Except Fault Instant)} {t : Instant}
    (h : (do pure ((← r).map some)) = (.ok (.ok (some t)) : Except RunError _)) :
    r = .ok (.ok t) := by
  rcases r with e | (fault | u) <;> cases h
  rfl

namespace FitsOver

variable {T : Instant → Prop} (hs : s.FitsOver T) {o : Occasion} (ho : T o.now)

include hs ho

theorem deadlineAfter {duration : String} {t : Instant}
    (h : s.deadlineAfter o duration = .ok (.ok t)) : T t := by
  obtain ⟨nanos, -, h⟩ := exists_of_bind_eq_ok (eq_ok_of_settle h)
  split at h
  · next ht =>
    cases h
    exact hs.endures ho ht
  · cases h

theorem deadlineAt {timestamp : String} {t : Instant}
    (h : s.deadlineAt o timestamp = .ok (.ok t)) : T t := hs.tells ho (eq_ok_of_settle h)

theorem deadline {deadline : Deadline} {t : Instant}
    (h : s.deadline o deadline = .ok (.ok t)) : T t := by
  cases deadline with
  | delay duration => exact hs.deadlineAfter ho h
  | instant timestamp => exact hs.deadlineAt ho h

theorem firstDeadline {a : Alarm} {t : Option Instant}
    (h : s.firstDeadline o a = .ok (.ok t)) : ∀ u ∈ t, T u := by
  rintro u rfl
  unfold Script.firstDeadline at h
  split at h
  · exact hs.deadlineAfter ho (eq_ok_of_optional h)
  · exact hs.deadlineAt ho (eq_ok_of_optional h)
  · exact hs.deadlineAfter ho (eq_ok_of_optional h)
  · cases h

theorem nextDeadline {a : Alarm} {t : Option Instant}
    (h : s.nextDeadline o a = .ok (.ok t)) : ∀ u ∈ t, T u := by
  rintro u rfl
  unfold Script.nextDeadline at h
  split at h
  · exact hs.deadlineAfter ho (eq_ok_of_optional h)
  · cases h

end FitsOver

end Script

/-! ### Links -/

/-- The channels of a link are words. -/
def Link.Fits (l : Link) : Prop := ∀ c ∈ l.channels, c < 2 ^ 64

theorem Run.Fits.link {r : Run} (h : r.Fits) : r.link.Fits := by
  intro c hc
  rcases Link.mem_channels.1 hc with rfl | rfl | hc
  · exact h.parent
  · exact h.termination
  · cases hc

theorem AlarmLink.Fits.link {l : AlarmLink} (h : l.Fits) : l.link.Fits := by
  intro c hc
  rcases Link.mem_channels.1 hc with rfl | rfl | hc
  · exact h.parent
  · exact h.termination
  · cases hc
    exact h.control

theorem AlarmRun.Fits.link {a : AlarmRun} (h : a.Fits) : a.link.Fits := by
  intro c hc
  rcases Link.mem_channels.1 hc with rfl | rfl | hc
  · exact h.parent
  · exact h.termination
  · cases hc
    exact h.control

/-- The links that a scope waits for. -/
theorem ScopeRun.Fits.awaits {scope : ScopeRun} (h : scope.Fits) {u : Link}
    (hu : u ∈ scope.awaits) : u.Fits := by
  rcases List.mem_append.1 hu with hu | hu
  · obtain ⟨body, hbody, rfl⟩ := List.mem_map.1 hu
    exact (h.body body (Option.mem_toList.1 hbody)).link
  · obtain ⟨link, hlink, rfl⟩ := List.mem_map.1 hu
    exact (h.handlers link (List.mem_of_mem_filter hlink)).link

namespace Receiver

variable {r : Receiver} (h : r.Fits)

include h

theorem fits_link : r.link.Fits := by
  cases r with
  | waitActivity => exact h.1.link
  | sequenceWaiting => exact h.1.run.link
  | scopeWaiting => exact h.run.link
  | alarmWaiting | alarmActive => exact h.1.link

theorem fits_awaits {u : Link} (hu : u ∈ r.awaits) : u.Fits := by
  cases r with
  | waitActivity | alarmWaiting => cases hu
  | sequenceWaiting | alarmActive =>
    rw [List.mem_singleton.1 hu]
    exact h.2.link
  | scopeWaiting => exact h.awaits hu

theorem fits_timer {c : Channel} (hc : r.timer = some c) : c < 2 ^ 64 := by
  cases r with
  | waitActivity =>
    cases hc
    exact h.2
  | alarmWaiting => exact h.2 c hc
  | sequenceWaiting | scopeWaiting | alarmActive => cases hc

/-- A receiver listens on words. -/
theorem fits_channels {c : Channel} (hc : c ∈ r.channels) : c < 2 ^ 64 := by
  rcases Receiver.mem_channels.1 hc with hc | hc | hc | rfl
  · exact fits_timer h hc
  · obtain ⟨u, hu, rfl⟩ := List.mem_map.1 hc
    exact fits_awaits h hu u.parent (by simp)
  · exact fits_link h c (by simp [hc])
  · exact fits_link h _ (by simp)

end Receiver

/-! ### Parts -/

/-- A sequence that waits can count its child. -/
def Receiver.Counts : Receiver → Prop
  | .sequenceWaiting sequence _ => sequence.position + 1 < 2 ^ 64
  | _ => True

namespace Part

variable (T : Instant → Prop)

/-- The numbers of a part are words, and its deadline has a property. -/
def Fits : Part → Prop
  | .ready t => t.Fits T
  | .waiting r => r.Fits ∧ r.Counts

/-- The same, but for the place of a sequence that goes on: after the last child this may be one that
no word can hold. -/
def Almost : Part → Prop
  | .ready (.sequenceStep sequence) => SequenceRun.Fits { sequence with position := 0 }
  | .ready t => t.Fits T
  | .waiting r => r.Fits

/-- The place of a sequence is a word, and goes on to be one. -/
def Counts : Part → Prop
  | .ready (.sequenceStep sequence) => sequence.position < 2 ^ 64
  | .ready _ => True
  | .waiting r => r.Counts

variable {T}

/-- What is ready to run and fits does so in any place. -/
theorem almost_of_fits {t : Task} (h : t.Fits T) : (ready t).Almost T := by
  cases t with
  | sequenceStep => exact ⟨h.run, Nat.two_pow_pos 64, h.compensations⟩
  | _ => exact h

theorem fits_iff {P : Part} : P.Fits T ↔ P.Almost T ∧ P.Counts := by
  cases P with
  | waiting r => rfl
  | ready t =>
    constructor
    · intro h
      refine ⟨almost_of_fits h, ?_⟩
      cases t with
      | sequenceStep => exact h.position
      | _ => trivial
    · rintro ⟨h, hcounts⟩
      cases t with
      | sequenceStep => exact ⟨h.run, hcounts, h.compensations⟩
      | _ => exact h

end Part

/-- All channels among the products are words, the messages sent fit, the deadline of the armed timer
has a property, and a property of parts holds of all parts. -/
structure Products.Keeps (T : Instant → Prop) (Q : Part → Prop) (p : Products) : Prop where
  closed : ∀ c ∈ p.closed, c < 2 ^ 64
  armed : ∀ e ∈ p.armed, e.1 < 2 ^ 64 ∧ T e.2
  sent : ∀ e ∈ p.sent, e.1 < 2 ^ 64 ∧ e.2.Fits
  kids : ∀ t ∈ p.kids, Q (.ready t)
  heir : ∀ P ∈ p.heir, Q P

namespace ScopeRun.Fits

variable {scope : ScopeRun} (h : scope.Fits)

include h

theorem absorb {cs : Compensations} (hcs : cs.Fits) (fault : Option Fault) :
    (scope.absorb fault cs).Fits :=
  ⟨h.run, h.body, h.handlers, Compensations.fits_union h.compensations hcs⟩

theorem stop : ({ scope with terminating := true }).Fits :=
  ⟨h.run, h.body, h.handlers, h.compensations⟩

theorem bodyDone : ({ scope with body := none }).Fits :=
  ⟨h.run, fun _ hr => (by cases hr), h.handlers, h.compensations⟩

/-- The alarm that is marked is an alarm of the scope, and so are all others. -/
theorem markDone {c : Channel} {link : AlarmLink} {handlers : List AlarmLink}
    (hd : ScopeRun.markDone c scope.handlers = some (link, handlers)) :
    link.Fits ∧ ({ scope with handlers }).Fits := by
  obtain ⟨pre, post, hs, -, rfl⟩ := markDone_eq_some hd
  have hlinks := h.handlers
  rw [hs] at hlinks
  have hlink := hlinks link (by simp)
  refine ⟨hlink, h.run, h.body, ?_, h.compensations⟩
  intro l hl
  rcases List.mem_append.1 hl with hl | hl
  · exact hlinks l (List.mem_append_left _ hl)
  · rcases List.mem_cons.1 hl with rfl | hl
    · exact ⟨hlink.parent, hlink.termination, hlink.control⟩
    · exact hlinks l (List.mem_append_right _ (List.mem_cons_of_mem _ hl))

theorem orders {e : Channel × Message} (he : e ∈ scope.orders) : e.1 < 2 ^ 64 ∧ e.2.Fits := by
  obtain ⟨u, hu, hc, hm⟩ := mem_orders he
  rw [hc, hm]
  exact ⟨h.awaits hu u.termination (by simp), trivial⟩

theorem softOrders {e : Channel × Message} (he : e ∈ scope.softOrders) :
    e.1 < 2 ^ 64 ∧ e.2.Fits := by
  obtain ⟨u, hu, hc, hm⟩ := mem_softOrders he
  rw [hm]
  exact ⟨h.bodyDone.awaits hu e.1 (by simp [hc]), trivial⟩

end ScopeRun.Fits

/-- A scope that starts with channels and a number that are words. -/
theorem ScopeRun.fits_fresh {run : Run} (h : run.Fits) {body : ActivityId} (hbody : body < 2 ^ 32)
    {alarms n k : Nat} (hn : n + (2 + 3 * alarms) ≤ 2 ^ 64) (hk : k + 1 ≤ 2 ^ 64) :
    (ScopeRun.fresh run body alarms k n).Fits where
  run := h
  body r hr := by
    cases hr
    exact Run.fits_fresh hbody (by omega) hk
  handlers l hl := by
    obtain ⟨i, hi, rfl⟩ := List.mem_map.1 hl
    exact AlarmLink.fits_fresh ((alarmChannel_add_le (List.mem_range.1 hi)).trans hn)
  compensations := Compensations.fits_empty

/-! ### Laws of reactions -/

namespace Yields

variable {s : Script} {now : Instant} {n k : Nat} {P : Part} {taken : Option (Channel × Message)}
  {p : Products} (h : Yields s now n k P taken p) {T : Instant → Prop}

section

variable (hs : s.FitsOver T) (hP : P.Almost T) (ht : ∀ {c m}, taken = some (c, m) → m.Fits)

include h hP in
/-- A part closes channels that it knows. -/
theorem fits_closed {c : Channel} (hc : c ∈ p.closed) : c < 2 ^ 64 := by
  cases h
  case waitOver =>
    rw [List.mem_singleton.1 hc]
    exact hP.2
  case bodyFaulted hb _ _ | bodyDone hb _ _ =>
    rw [List.mem_singleton.1 hc]
    exact (hP.body _ hb).termination
  case alarmFaulted hd _ | alarmDone hd _ =>
    have hlink := (hP.markDone hd).1
    rcases List.mem_cons.1 hc with rfl | hc
    · exact hlink.termination
    · rw [List.mem_singleton.1 hc]
      exact hlink.control
  case alarmDue | alarmOver => exact hP.2 c (Option.mem_toList.1 hc)
  all_goals cases hc

include h hs hP in
/-- A part arms the next channel, with a deadline that has the property. -/
theorem fits_armed (hnow : T now) (hn : n + p.channels ≤ 2 ^ 64) {e : Channel × Instant}
    (he : e ∈ p.armed) : e.1 < 2 ^ 64 ∧ T e.2 := by
  cases h
  case waitArmed hd _ =>
    cases he
    exact ⟨hn, hs.deadline hnow hd⟩
  case alarmArmed t _ =>
    cases he
    exact ⟨hn, hP.2 t rfl⟩
  all_goals cases he

include h hs hP ht in
/-- A part sends to channels that it knows, and sends what it has, has heard or starts with. -/
theorem fits_sent {e : Channel × Message} (he : e ∈ p.sent) : e.1 < 2 ^ 64 ∧ e.2.Fits := by
  cases h
  -- an activity without parts reports to its parent, with nothing to undo
  case emptyDone | thrown | waitFaulted | waitPassed =>
    rw [List.mem_singleton.1 he]
    exact ⟨hP.parent, Compensations.fits_empty⟩
  case sequenceDone =>
    rw [List.mem_singleton.1 he]
    exact ⟨hP.run.parent, hP.compensations⟩
  case sequenceFaulted hm =>
    rw [List.mem_singleton.1 he]
    -- what a child reports joins what the sequence has gathered
    have hreport := Message.fits_report (ht rfl) hm
    exact ⟨hP.1.run.parent, Compensations.fits_union hP.1.compensations hreport⟩
  case sequenceTold =>
    rw [List.mem_singleton.1 he]
    exact ⟨hP.2.termination, trivial⟩
  case sequenceAsked =>
    rw [List.mem_singleton.1 he]
    exact ⟨hP.1.run.parent, ht rfl⟩
  case waitOver =>
    rw [List.mem_singleton.1 he]
    exact ⟨hP.1.parent, Compensations.fits_empty⟩
  case scopeDone left _ hl =>
    rw [List.mem_singleton.1 he]
    refine ⟨hP.run.parent, ?_⟩
    -- the handler that the scope leaves behind, if any, joins what it has gathered
    cases left with
    | none => exact hP.compensations
    | some c => exact Compensations.fits_add hP.compensations (hs.definition.leftBehind hP.run hl c rfl)
  -- a scope orders only links that it awaits, and knows their channels
  case scopeTold => exact hP.orders he
  case bodyFaulted => exact hP.bodyDone.orders he
  case bodyDone => exact hP.softOrders he
  case alarmFaulted hd _ => exact (hP.markDone hd).2.orders he
  case scopeAsked =>
    rw [List.mem_singleton.1 he]
    exact ⟨hP.run.parent, ht rfl⟩
  case alarmUntimed =>
    rw [List.mem_singleton.1 he]
    exact ⟨hP.parent, hP.compensations⟩
  case alarmOver =>
    rw [List.mem_singleton.1 he]
    exact ⟨hP.1.parent, hP.1.compensations⟩
  case firingFaulted hm | firingLast hm | firingUntimed hm _ _ =>
    rw [List.mem_singleton.1 he]
    have hreport := Message.fits_report (ht rfl) hm
    exact ⟨hP.1.parent, Compensations.fits_union hP.1.compensations hreport⟩
  case firingTold =>
    rw [List.mem_singleton.1 he]
    exact ⟨hP.2.termination, trivial⟩
  case firingAsked =>
    rw [List.mem_singleton.1 he]
    exact ⟨hP.1.parent, ht rfl⟩
  all_goals cases he

include h hs hP in
/-- What a part starts gets numbers and channels that are words. -/
theorem fits_kids (hn : n + p.channels ≤ 2 ^ 64) (hk : k + p.numbers ≤ 2 ^ 64) {t : Task}
    (htask : t ∈ p.kids) : t.Fits T := by
  cases h
  case scopeStarted hp =>
    obtain ⟨hbody, halarms⟩ := hs.definition.scopeParts hp
    rcases List.mem_cons.1 htask with rfl | htask
    · exact Run.fits_fresh hbody ((Nat.add_le_add_left (Nat.le_add_right _ _) n).trans hn) hk
    · obtain ⟨alarm, halarm, rfl⟩ := List.mem_map.1 htask
      obtain ⟨i, hi, rfl⟩ := List.mem_map.1 halarm
      have hi := List.mem_range.1 hi
      exact AlarmRun.fits_fresh hP (hi.trans halarms) ((alarmChannel_add_le hi).trans hn)
  case childStarted hc hnext _ =>
    rw [List.mem_singleton.1 htask]
    exact Run.fits_fresh ((hs.definition.children hc).1 _ (List.mem_of_getElem? hnext)) hn hk
  case alarmFired ha =>
    rw [List.mem_singleton.1 htask]
    exact Run.fits_fresh (hs.definition.alarm ha) hn hk
  all_goals cases htask

include h hs hP ht in
/-- What works on in the place of a part almost fits. -/
theorem almost_heir (hnow : T now) (hn : n + p.channels ≤ 2 ^ 64)
    (hk : k + p.numbers ≤ 2 ^ 64) {Q : Part} (hQ : Q ∈ p.heir) : Q.Almost T := by
  cases h <;> cases hQ
  -- activities and sequences
  case waitArmed => exact ⟨hP, hn⟩
  case sequenceStarted => exact ⟨hP, Nat.two_pow_pos 64, Compensations.fits_empty⟩
  case scopeStarted hp => exact ScopeRun.fits_fresh hP (hs.definition.scopeParts hp).1 hn hk
  case childStarted sequence children next hc hnext _ =>
    obtain ⟨hplaces, hlength⟩ := hs.definition.children hc
    have hposition : sequence.position < children.length := (List.getElem?_eq_some_iff.1 hnext).1
    have hchild := Run.fits_fresh (hplaces _ (List.mem_of_getElem? hnext)) hn hk
    exact ⟨⟨hP.run, hposition.trans hlength, hP.compensations⟩, hchild⟩
  case sequenceNext hm =>
    have hreport := Message.fits_report (ht rfl) hm
    exact ⟨hP.1.run, Nat.two_pow_pos 64, Compensations.fits_union hP.1.compensations hreport⟩
  case sequenceTold => exact ⟨⟨hP.1.run, hP.1.position, hP.1.compensations⟩, hP.2⟩
  case sequenceAsked => exact hP
  -- scopes
  case scopeWaits => exact hP
  case scopeTold => exact hP.stop
  case bodyFaulted hm =>
    exact (hP.absorb (Message.fits_report (ht rfl) hm) _).bodyDone.stop
  case bodyDone hm => exact (hP.absorb (Message.fits_report (ht rfl) hm) _).bodyDone
  case alarmFaulted hd hm =>
    have hreport := Message.fits_report (ht rfl) hm
    exact ((hP.absorb hreport _).markDone hd).2.stop
  case alarmDone hd hm =>
    have hreport := Message.fits_report (ht rfl) hm
    exact ((hP.absorb hreport _).markDone hd).2
  case scopeAsked => exact hP
  -- alarms
  case alarmTimed hd => exact ⟨hP, hs.firstDeadline hnow hd⟩
  case alarmRests => exact ⟨hP.1, fun _ ht => (by cases ht)⟩
  case alarmPassed => exact hP.1
  case alarmArmed =>
    refine ⟨hP.1, ?_⟩
    intro t ht
    cases ht
    exact hn
  case alarmDue => exact hP.1
  case alarmFired ha => exact ⟨hP, Run.fits_fresh (hs.definition.alarm ha) hn hk⟩
  case firingWatched => exact hP
  case firingAgain hm _ hd =>
    have halarm := hP.1
    have hreport := Message.fits_report (ht rfl) hm
    exact ⟨⟨halarm.alarm, halarm.scopeInstance, halarm.parent, halarm.termination, halarm.control,
      Compensations.fits_union halarm.compensations hreport⟩,
      hs.nextDeadline hnow hd⟩
  case firingTold | firingStopped | firingAsked => exact hP

include h hs hP ht in
/-- What a part yields almost fits. -/
theorem keeps_almost (hnow : T now) (hn : n + p.channels ≤ 2 ^ 64)
    (hk : k + p.numbers ≤ 2 ^ 64) : p.Keeps T (Part.Almost T) where
  closed _ hc := h.fits_closed hP hc
  armed _ he := h.fits_armed hs hP hnow hn he
  sent _ he := h.fits_sent hs hP ht he
  kids _ htask := Part.almost_of_fits (h.fits_kids hs hP hn hk htask)
  heir _ hQ := h.almost_heir hs hP ht hnow hn hk hQ

end

include h in
/-- What works on in the place of a part counts on. -/
theorem counts_heir (hs : s.definition.Fits) (hP : P.Counts) {Q : Part} (hQ : Q ∈ p.heir) : Q.Counts := by
  cases h <;> cases hQ
  case sequenceStarted => exact Nat.two_pow_pos 64
  case childStarted sequence children next hc hnext _ =>
    have hposition : sequence.position < children.length := (List.getElem?_eq_some_iff.1 hnext).1
    exact Nat.lt_of_le_of_lt hposition (hs.children hc).2
  case sequenceNext | sequenceTold | sequenceAsked => exact hP
  all_goals trivial

include h in
/-- What a part yields fits. -/
theorem keeps_fits (hs : s.FitsOver T) (hP : P.Fits T) (ht : ∀ {c m}, taken = some (c, m) → m.Fits) (hnow : T now)
    (hn : n + p.channels ≤ 2 ^ 64) (hk : k + p.numbers ≤ 2 ^ 64) : p.Keeps T (Part.Fits T) := by
  obtain ⟨halmost, hcounts⟩ := Part.fits_iff.1 hP
  have hkeeps := h.keeps_almost hs halmost ht hnow hn hk
  exact { hkeeps with
    kids := fun t htask => h.fits_kids hs halmost hn hk htask
    heir := fun Q hQ => Part.fits_iff.2 ⟨hkeeps.heir Q hQ, h.counts_heir hs.definition hcounts hQ⟩ }

end Yields

end Perdure
