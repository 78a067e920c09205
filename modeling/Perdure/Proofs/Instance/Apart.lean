import Perdure.Proofs.Instance.Kin
import Perdure.Proofs.Instance.Pending

/-!
# Timers stand apart

A part speaks to others, and hears of them, on the channels of its own link and of the links of what
it has started.  A timer has a channel of its own, which is not among these.  So nobody ever disarms
the timer of another part by a message, and nothing but a timer is told that its time has come.  None
of this depends on the definition that the parts belong to: it holds as well when an instance goes
on by another definition than it has begun with.

## Main definitions

* `Part.kin`, `Part.contacts` — the links that a part knows, and their channels.
* `Reacts` — a reduction of a soup that may be no family.
* `Soup.Apart` — armed timers are not among the contacts of any part.

## Main results

* `Yields.contacts_part` — what is produced knows no more than its predecessor and what is new.
* `Yields.contact_of_sent` — messages go to contacts only.
* `Soup.Apart.after_of_reduction` — every reduction keeps timers apart.
* `Pending.Within.after_of_reduction` — and with this, nothing else is pending than what is armed.
-/

namespace Perdure

/-! ### The links that a part knows -/

/-- The links of a scope, its body and all of its alarms. -/
def ScopeRun.kin (s : ScopeRun) : List Link :=
  s.run.link :: (s.body.toList.map Run.link ++ s.handlers.map AlarmLink.link)

/-- The link of a task, and those of what it has started. -/
def Task.kin : Task → List Link
  | .scopeActive scope => scope.kin
  | .alarmActive alarm child _ => [alarm.link, child.link]
  | t => [t.link]

/-- The link of a receiver, and those of what it has started. -/
def Receiver.kin : Receiver → List Link
  | .sequenceWaiting sequence child => [sequence.run.link, child.link]
  | .scopeWaiting scope => scope.kin
  | .alarmActive alarm child _ => [alarm.link, child.link]
  | r => [r.link]

/-- The links that a part knows. -/
def Part.kin : Part → List Link
  | .ready t => t.kin
  | .waiting r => r.kin

/-- The channels on which a part speaks to others and hears of them. -/
def Part.contacts (P : Part) : List Channel := P.kin.flatMap Link.channels

theorem Part.mem_contacts {P : Part} {l : Link} (hl : l ∈ P.kin) {c : Channel}
    (hc : c ∈ l.channels) : c ∈ P.contacts := List.mem_flatMap.2 ⟨l, hl, hc⟩

/-- A part knows its own link. -/
theorem Part.link_mem_kin (P : Part) : P.link ∈ P.kin := by
  rcases P with t | r
  · cases t <;> exact List.mem_cons_self
  · cases r <;> exact List.mem_cons_self

/-- A scope knows what it awaits. -/
theorem ScopeRun.mem_kin_of_awaits {s : ScopeRun} {l : Link} (hl : l ∈ s.awaits) : l ∈ s.kin := by
  rcases List.mem_append.1 hl with hl | hl
  · exact List.mem_cons_of_mem _ (List.mem_append_left _ hl)
  · obtain ⟨a, ha, rfl⟩ := List.mem_map.1 hl
    have ha : a ∈ s.handlers := (List.mem_filter.1 ha).1
    exact List.mem_cons_of_mem _ (List.mem_append_right _ (List.mem_map_of_mem ha))

/-- A part knows what it awaits. -/
theorem Part.mem_kin_of_awaits {P : Part} {l : Link} (hl : l ∈ P.awaits) : l ∈ P.kin := by
  rcases P with t | r
  · cases t with
    | scopeActive scope => exact ScopeRun.mem_kin_of_awaits hl
    | alarmActive => exact List.mem_cons_of_mem _ hl
    | _ => cases hl
  · cases r with
    | sequenceWaiting | alarmActive => exact List.mem_cons_of_mem _ hl
    | scopeWaiting scope => exact ScopeRun.mem_kin_of_awaits hl
    | waitActivity | alarmWaiting => cases hl

/-- A scope whose body is done knows less. -/
theorem ScopeRun.mem_kin_bodyDone {s : ScopeRun} {l : Link}
    (hl : l ∈ ({ s with body := none }).kin) : l ∈ s.kin := by
  rcases List.mem_cons.1 hl with rfl | hl
  · exact List.mem_cons_self
  · exact List.mem_cons_of_mem _ (List.mem_append_right _ hl)

theorem ScopeRun.mem_of_markDone {c : Channel} {links marked : List AlarmLink} {l : AlarmLink}
    (h : markDone c links = some (l, marked)) : l ∈ links := by
  obtain ⟨pre, post, rfl, -, -⟩ := markDone_eq_some h
  exact List.mem_append_right _ List.mem_cons_self

/-- An alarm that is done stays known. -/
theorem ScopeRun.kin_alarmDone {s : ScopeRun} {c : Channel} {l : AlarmLink}
    {handlers : List AlarmLink} (h : markDone c s.handlers = some (l, handlers)) :
    ({ s with handlers }).kin = s.kin := by
  obtain ⟨pre, post, hpre, -, rfl⟩ := markDone_eq_some h
  simp [kin, hpre, AlarmLink.link]

/-! ### Reactions -/

namespace Yields

variable {s : Script} {now : Instant} {n k : Nat} {P : Part} {taken : Option (Channel × Message)}
  {p : Products}

/-- What goes on knows the links that its predecessor knew, and those of what was just started. -/
theorem kin_heir (h : Yields s now n k P taken p) {Q : Part} (hQ : p.heir = some Q) {l : Link}
    (hl : l ∈ Q.kin) : l ∈ P.kin ∨ l ∈ p.kidLinks := by
  cases h <;> cases hQ
  case scopeStarted run body alarms hp =>
    have hkids : ((AlarmRun.freshAll run alarms.length n).map Task.alarmStart).map Task.link =
        (ScopeRun.fresh run body alarms.length k n).handlers.map AlarmLink.link := by
      simp [AlarmRun.freshAll, ScopeRun.fresh, AlarmLink.fresh, AlarmRun.fresh, AlarmRun.link,
        AlarmLink.link, Task.link]
    rcases List.mem_cons.1 hl with rfl | hl
    · exact .inl List.mem_cons_self
    · rcases List.mem_append.1 hl with hl | hl
      · rw [List.mem_singleton.1 hl]
        exact .inr List.mem_cons_self
      · exact .inr (List.mem_cons_of_mem _ (hkids ▸ hl))
  case childStarted | alarmFired =>
    rcases List.mem_cons.1 hl with rfl | hl
    · exact .inl List.mem_cons_self
    · exact .inr hl
  case bodyFaulted | bodyDone => exact .inl (ScopeRun.mem_kin_bodyDone hl)
  case alarmFaulted hfound _ | alarmDone hfound _ =>
    exact .inl ((ScopeRun.kin_alarmDone hfound).subst hl)
  case sequenceNext | firingAgain =>
    rw [List.mem_singleton.1 hl]
    exact .inl List.mem_cons_self
  all_goals exact .inl hl

/-- What is started knows its own link. -/
theorem kin_kid (h : Yields s now n k P taken p) {t : Task} (ht : t ∈ p.kids) :
    t.kin = [t.link] := by
  obtain ⟨_, _, _, rfl⟩ | ⟨_, _, _, rfl⟩ := h.kid_cases ht <;> rfl

/-- Among the contacts of what is produced are those of the part that reacts, and new ones, of which
none is the timer that is armed. -/
theorem contacts_part (h : Yields s now n k P taken p) {Q : Part} (hQ : Q ∈ p.parts) {c : Nat}
    (hc : c ∈ Q.contacts) :
    c ∈ P.contacts ∨ n ≤ c ∧ c < n + p.channels ∧ p.timer ≠ some c := by
  have hnew {l : Link} (hl : l ∈ p.kidLinks) {c : Nat} (hc : c ∈ l.channels) :
      n ≤ c ∧ c < n + p.channels ∧ p.timer ≠ some c := by
    have hmem : c ∈ p.kidLinks.flatMap Link.channels := List.mem_flatMap.2 ⟨l, hl, hc⟩
    have hrange := List.mem_range'_1.1 (h.fresh_perm.mem_iff.1 (List.mem_append_left _ hmem))
    refine ⟨hrange.1, hrange.2, fun ht => ?_⟩
    have hnodup := h.fresh_perm.nodup_iff.2 List.nodup_range'
    exact (List.nodup_append.1 hnodup).2.2 c hmem c (Option.mem_toList.2 ht) rfl
  obtain ⟨l, hl, hcl⟩ := List.mem_flatMap.1 hc
  rcases List.mem_append.1 hQ with hQ | hQ
  · obtain ⟨t, ht, rfl⟩ := List.mem_map.1 hQ
    have hl : l ∈ t.kin := hl
    rw [h.kin_kid ht, List.mem_singleton] at hl
    have hl : l ∈ p.kidLinks := List.mem_map.2 ⟨t, ht, hl.symm⟩
    exact .inr (hnew hl hcl)
  · rcases h.kin_heir (Option.mem_toList.1 hQ) hl with hl | hl
    · exact .inl (Part.mem_contacts hl hcl)
    · exact .inr (hnew hl hcl)

/-- A timer that is armed is new. -/
theorem new_of_timer (h : Yields s now n k P taken p) {t : Nat} (ht : p.timer = some t) :
    n ≤ t ∧ t < n + p.channels :=
  List.mem_range'_1.1
    (h.fresh_perm.mem_iff.1 (List.mem_append_right _ (Option.mem_toList.2 ht)))

theorem timer_of_armed (h : Yields s now n k P taken p) {t : Channel} {d : Instant}
    (ha : p.armed = some (t, d)) : p.timer = some t := by
  rw [← h.armed_eq, ha]
  rfl

/-- A message is a report of the part that reacts, or an order to what it knows. -/
theorem report_or_order (h : Yields s now n k P taken p) {c : Channel} {m : Message}
    (hm : (c, m) ∈ p.sent) : c = P.home ∧ m ≠ .timeout ∨
      ∃ u ∈ P.kin, c = u.termination ∧ m = .terminate ∨ u.control = some c ∧ m = .stop := by
  cases h
  case sequenceTold | firingTold =>
    cases List.mem_singleton.1 hm
    exact .inr ⟨_, List.mem_cons_of_mem _ List.mem_cons_self, .inl ⟨rfl, rfl⟩⟩
  case scopeTold =>
    obtain ⟨u, hu, ho⟩ := ScopeRun.mem_orders hm
    exact .inr ⟨u, ScopeRun.mem_kin_of_awaits hu, .inl ho⟩
  case bodyFaulted =>
    obtain ⟨u, hu, ho⟩ := ScopeRun.mem_orders hm
    exact .inr ⟨u, ScopeRun.mem_kin_bodyDone (ScopeRun.mem_kin_of_awaits hu), .inl ho⟩
  case bodyDone =>
    obtain ⟨u, hu, ho⟩ := ScopeRun.mem_softOrders hm
    exact .inr ⟨u, ScopeRun.mem_kin_bodyDone (ScopeRun.mem_kin_of_awaits hu), .inr ho⟩
  case alarmFaulted hfound _ =>
    obtain ⟨u, hu, ho⟩ := ScopeRun.mem_orders hm
    refine .inr ⟨u, ?_, .inl ho⟩
    exact (ScopeRun.kin_alarmDone hfound).subst (ScopeRun.mem_kin_of_awaits hu)
  case emptyDone | thrown | waitFaulted | waitPassed | waitOver | sequenceDone | sequenceFaulted |
      sequenceAsked | scopeDone | scopeAsked | alarmUntimed | alarmOver | firingFaulted |
      firingLast | firingUntimed | firingAsked =>
    cases List.mem_singleton.1 hm
    exact .inl ⟨rfl, nofun⟩
  -- no message is sent
  all_goals cases hm

/-- Messages go to contacts, and none of them says that the time has come. -/
theorem contact_of_sent (h : Yields s now n k P taken p) {c : Channel} {m : Message}
    (hm : (c, m) ∈ p.sent) : c ∈ P.contacts ∧ m ≠ .timeout := by
  rcases h.report_or_order hm with ⟨rfl, hne⟩ | ⟨u, hu, ⟨rfl, rfl⟩ | ⟨hc, rfl⟩⟩
  · exact ⟨Part.mem_contacts P.link_mem_kin (by simp), hne⟩
  · exact ⟨Part.mem_contacts hu (by simp), nofun⟩
  · exact ⟨Part.mem_contacts hu (by simp [hc]), nofun⟩

/-- What is closed is a contact, or the own timer. -/
theorem contact_of_closed (h : Yields s now n k P taken p) {c : Channel} (hc : c ∈ p.closed) :
    P.timer = some c ∨ c ∈ P.contacts := by
  cases h
  case waitOver =>
    rw [List.mem_singleton.1 hc]
    exact .inl rfl
  case alarmDue | alarmOver => exact .inl (Option.mem_toList.1 hc)
  case bodyFaulted scope body _ _ _ _ hb _ _ | bodyDone scope body _ _ _ hb _ _ =>
    have hu : body.link ∈ scope.kin :=
      ScopeRun.mem_kin_of_awaits (ScopeRun.awaits_of_body hb ▸ List.mem_cons_self)
    rw [List.mem_singleton.1 hc]
    exact .inr (Part.mem_contacts (P := .waiting (.scopeWaiting scope)) hu (by simp [Run.link]))
  case alarmFaulted scope l _ _ _ _ _ _ hfound _ | alarmDone scope l _ _ _ _ _ hfound _ =>
    have hu : l.link ∈ scope.kin := List.mem_cons_of_mem _ <| List.mem_append_right _ <|
      List.mem_map_of_mem (ScopeRun.mem_of_markDone hfound)
    have hc : c = l.termination ∨ c = l.control := by simpa using hc
    refine .inr (Part.mem_contacts (P := .waiting (.scopeWaiting scope)) hu ?_)
    exact Link.mem_channels.2 (.inr (hc.imp_right fun he => congrArg some he.symm))
  all_goals cases hc

/-- A part disarms its own timer when it reacts, unless it is told that a time has come. -/
theorem cancelled_or_timeout (h : Yields s now n k P taken p) {t : Channel}
    (ht : P.timer = some t) : p.cancelled = some t ∨ ∃ c, taken = some (c, .timeout) := by
  cases h <;> cases ht
  case alarmDue => exact .inr ⟨_, rfl⟩
  all_goals exact .inl rfl

end Yields

/-- A timer that is armed after a reaction was armed by it, or was armed before and not disarmed. -/
theorem Products.armed_or_kept {p : Products} {s : InstanceSoup} {t : Channel} {d : Instant}
    (h : (p.addTo s).timers.get? t = some d) :
    p.armed = some (t, d) ∨ s.timers.get? t = some d ∧ p.cancelled ≠ some t := by
  have hkept (h : (p.disarm s).timers.get? t = some d) :
      s.timers.get? t = some d ∧ p.cancelled ≠ some t := by
    rw [get?_timers_disarm] at h
    split at h
    · cases h
    · next hne => exact ⟨h, hne⟩
  rw [get?_timers_addTo] at h
  split at h
  · cases h
  split at h
  · next c d' harmed =>
    split at h
    · next hc =>
      cases h
      exact .inl (hc ▸ harmed)
    · exact .inr (hkept h)
  · exact .inr (hkept h)

/-! ### What a soup holds -/

namespace Soup

/-- What is picked is held, and what stays behind was held before. -/
theorem holds_of_pick? {s rest : InstanceSoup} {P : Part} {taken : Option (Channel × Message)}
    (h : s.pick? = some (P, taken, rest)) : s.Holds P ∧ ∀ Q, rest.Holds Q → s.Holds Q := by
  unfold pick? at h
  split at h
  · next t rest' ht =>
    cases h
    unfold takeRunnable? at ht
    split at ht
    · cases ht
    · next u us hr =>
      cases ht
      refine ⟨?_, fun Q hQ => ?_⟩
      · show t ∈ s.runnables
        rw [hr]
        exact List.mem_cons_self
      · cases Q with
        | ready q =>
          show q ∈ s.runnables
          rw [hr]
          exact List.mem_cons_of_mem _ hQ
        | waiting q => exact hQ
  · obtain ⟨⟨a, m, rest'⟩, hm, he⟩ := Option.map_eq_some_iff.1 h
    cases he
    obtain ⟨pre, c, post, hcs, ha, hframe⟩ := exists_of_takeMatch? hm
    refine ⟨⟨c, ?_, a, ha, rfl⟩, fun Q hQ => ?_⟩
    · rw [hcs]
      exact List.mem_append_right _ List.mem_cons_self
    · rw [hframe] at hQ
      cases Q with
      | ready q => exact hQ
      | waiting q =>
        obtain ⟨d, hd, hq⟩ := hQ
        refine ⟨d, ?_, hq⟩
        rw [hcs]
        exact (List.mem_append.1 hd).elim (List.mem_append_left _)
          fun hd => List.mem_append_right _ (List.mem_cons_of_mem _ hd)

/-- What a soup holds after a reaction was held before, or is produced. -/
theorem holds_addTo {s : InstanceSoup} {p : Products} {Q : Part} (h : (p.addTo s).Holds Q) :
    s.Holds Q ∨ Q ∈ p.parts := by
  cases Q with
  | ready t =>
    have ht : t ∈ s.runnables ++ p.tasks := p.runnables_addTo s ▸ h
    rcases List.mem_append.1 ht with ht | ht
    · exact .inl ht
    · refine .inr (List.mem_append.2 ?_)
      rcases Products.mem_tasks.1 ht with ht | ht
      · exact .inl (List.mem_map_of_mem ht)
      · exact .inr (Option.mem_toList.2 ht)
  | waiting r =>
    obtain ⟨c, hc, a, ha, rfl⟩ := h
    rw [p.choices_addTo s] at hc
    rcases List.mem_append.1 hc with hc | hc
    · exact .inl ⟨c, hc, a, ha, rfl⟩
    · obtain ⟨r, hr, rfl⟩ := List.mem_map.1 hc
      rw [(Receiver.mem_arms_choice.1 ha).2]
      exact .inr (List.mem_append_right _ (Option.mem_toList.2 (Products.mem_receivers.1 hr)))

end Soup

/-! ### Reactions of a soup -/

/-- A reduction of a soup that may be no family: a part that it holds reacts, and what that yields is
added. -/
structure Reacts (s : Script) (now : Instant) (soup : InstanceSoup) (r : Reduction) (p : Products) :
    Prop where
  picked : soup.pick? = some (r.part, r.taken, r.before)
  yields : Yields s now soup.nextChannel soup.nextMonotonic r.part r.taken p
  after : r.after = p.addTo r.before

/-- Every reduction is one. -/
theorem Script.exists_reacts {s : Script} {now : Instant} {soup : InstanceSoup} {r : Reduction}
    (hr : s.reduction? now soup = .ok (some r)) : ∃ p, Reacts s now soup r p := by
  obtain ⟨hp, p, hy, ha⟩ := exists_products hr
  exact ⟨p, hp, hy, ha⟩

namespace Reacts

variable {s : Script} {now : Instant} {soup : InstanceSoup} {r : Reduction} {p : Products}
  (m : Reacts s now soup r p)

include m

theorem before_frame : r.before = { soup with
    runnables := r.before.runnables, choices := r.before.choices, messages := r.before.messages } :=
  (Soup.takes_of_pick? m.picked).2

/-- The part that reacts was held. -/
theorem holds_part : soup.Holds r.part := (Soup.holds_of_pick? m.picked).1

/-- What is held after a reaction was held before, or is produced. -/
theorem holds_after {Q : Part} (hQ : r.after.Holds Q) : soup.Holds Q ∨ Q ∈ p.parts :=
  (Soup.holds_addTo (m.after ▸ hQ)).imp_left ((Soup.holds_of_pick? m.picked).2 Q)

theorem nextChannel_after : r.after.nextChannel = soup.nextChannel + p.channels := by
  rw [m.after, Products.nextChannel_addTo, m.before_frame]

theorem global_after : r.after.global = soup.global := by
  rw [m.after, Products.global_addTo, m.before_frame]

theorem isClosed_after (c : Channel) :
    r.after.isClosed c = (decide (c ∈ p.closed) || soup.isClosed c) := by
  rw [m.after, Products.isClosed_addTo, m.before_frame]
  rfl

/-- A channel that had been handed out before stays so. -/
theorem lt_after {c : Nat} (hc : c < soup.nextChannel) : c < (r.after.nextChannel : Nat) := by
  rw [m.nextChannel_after]
  exact Nat.lt_add_right _ hc

/-- A timer that is armed after a reaction is armed by it, or it was armed before and is not
disarmed. -/
theorem armed_or_kept {t : Channel} {d : Instant} (hd : r.after.timers.get? t = some d) :
    p.armed = some (t, d) ∨ soup.timers.get? t = some d ∧ p.cancelled ≠ some t := by
  rw [m.after] at hd
  have htimers := Products.armed_or_kept hd
  rw [m.before_frame] at htimers
  exact htimers

/-- A timer that is armed after a reaction is new, or it was armed before. -/
theorem new_or_armed {t : Nat} {d : Instant} (hd : r.after.timers.get? t = some d) :
    (p.timer = some t ∧ soup.nextChannel ≤ t ∧ t < r.after.nextChannel) ∨
      soup.timers.get? t = some d := by
  refine (m.armed_or_kept hd).imp (fun harmed => ?_) And.left
  have ht := m.yields.timer_of_armed harmed
  rw [m.nextChannel_after]
  exact ⟨ht, m.yields.new_of_timer ht⟩

/-- A contact after a reaction is one before, or it is new and not the timer that is armed. -/
theorem contact_after {Q : Part} (hQ : r.after.Holds Q) {c : Nat} (hc : c ∈ Q.contacts) :
    (∃ P, soup.Holds P ∧ c ∈ P.contacts) ∨
      soup.nextChannel ≤ c ∧ c < r.after.nextChannel ∧ p.timer ≠ some c := by
  rcases m.holds_after hQ with hQ | hQ
  · exact .inl ⟨Q, hQ, hc⟩
  · rw [m.nextChannel_after]
    exact (m.yields.contacts_part hQ hc).imp_left fun hc => ⟨_, m.holds_part, hc⟩

end Reacts

/-! ### Timers stand apart -/

namespace Soup

/-- Armed timers are not among the contacts of any part, nor is the root told anything on one. -/
structure Apart (s : InstanceSoup) : Prop where
  contacts_below : ∀ P, s.Holds P → ∀ c ∈ P.contacts, c < (s.nextChannel : Nat)
  timers_below : ∀ t d, s.timers.get? t = some d → t < (s.nextChannel : Nat)
  root_below : ∀ l, s.global.root = some l → l.termination < (s.nextChannel : Nat)
  apart : ∀ t d, s.timers.get? t = some d → ∀ P, s.Holds P → t ∉ P.contacts
  root : ∀ l, s.global.root = some l → s.timers.get? l.termination = none

namespace Apart

variable {s : Script} {now : Instant} {soup : InstanceSoup}

/-- Less may be held, and less be armed. -/
theorem mono (h : soup.Apart) {rest : InstanceSoup} (hholds : ∀ P, rest.Holds P → soup.Holds P)
    (htimers : ∀ t d, rest.timers.get? t = some d → soup.timers.get? t = some d)
    (hchannel : rest.nextChannel = soup.nextChannel) (hglobal : rest.global = soup.global) :
    rest.Apart where
  contacts_below P hP := hchannel ▸ h.contacts_below P (hholds P hP)
  timers_below t d hd := hchannel ▸ h.timers_below t d (htimers t d hd)
  root_below l hl := hchannel ▸ h.root_below l (hglobal ▸ hl)
  apart t d hd P hP := h.apart t d (htimers t d hd) P (hholds P hP)
  root l hl := by
    by_contra hne
    obtain ⟨d, hd⟩ := Option.ne_none_iff_exists'.1 hne
    have hnone := h.root l (hglobal ▸ hl)
    rw [htimers _ d hd] at hnone
    cases hnone

/-- A message keeps timers apart. -/
theorem send (h : soup.Apart) (c : Channel) (m : Message) : (soup.send c m).Apart := by
  have hframe := soup.send_frame c m
  refine h.mono ?_ ?_ (by rw [hframe]) (by rw [hframe])
  · intro P hP
    rw [hframe] at hP
    cases P <;> exact hP
  · intro t d hd
    rw [Soup.get?_timers_send] at hd
    split at hd
    · cases hd
    · exact hd

/-- Every reduction keeps timers apart. -/
theorem after_of_reduction (h : soup.Apart) {r : Reduction}
    (hr : s.reduction? now soup = .ok (some r)) : r.after.Apart := by
  obtain ⟨p, m⟩ := Script.exists_reacts hr
  refine ⟨?_, ?_, ?_, ?_, ?_⟩
  · intro Q hQ c hc
    rcases m.contact_after hQ hc with ⟨P, hP, hc⟩ | ⟨-, hlt, -⟩
    · exact m.lt_after (h.contacts_below P hP c hc)
    · exact hlt
  · intro t d hd
    rcases m.new_or_armed hd with ⟨-, -, hlt⟩ | hold
    · exact hlt
    · exact m.lt_after (h.timers_below t d hold)
  · intro l hl
    exact m.lt_after (h.root_below l (m.global_after ▸ hl))
  · intro t d hd Q hQ ht
    rcases m.new_or_armed hd with ⟨hnew, hge, -⟩ | hold
    · rcases m.contact_after hQ ht with ⟨P, hP, ht⟩ | ⟨-, -, hne⟩
      · exact Nat.not_lt.2 hge (h.contacts_below P hP t ht)
      · exact hne hnew
    · rcases m.contact_after hQ ht with ⟨P, hP, ht⟩ | ⟨hge, -⟩
      · exact h.apart t d hold P hP ht
      · exact Nat.not_lt.2 hge (h.timers_below t d hold)
  · intro l hl
    rw [m.global_after] at hl
    by_contra hne
    obtain ⟨d, hd⟩ := Option.ne_none_iff_exists'.1 hne
    rcases m.new_or_armed hd with ⟨-, hge, -⟩ | hold
    · exact Nat.not_lt.2 hge (h.root_below l hl)
    · rw [h.root l hl] at hold
      cases hold

/-- An execution keeps timers apart. -/
theorem of_execute (h : soup.Apart) {limit : Nat} {o : Outcome Shared Task Receiver Message}
    (ho : s.program.execute now limit soup = .ok o) : o.soup.Apart :=
  Script.keeps_of_execute (fun _ _ h hr => h.after_of_reduction hr) h ho

end Apart

end Soup

/-- A new instance has armed no timer. -/
theorem Script.apart_newSoup (s : Script) : s.newSoup.Apart where
  contacts_below P hP c hc := by
    cases P with
    | ready t =>
      rw [List.mem_singleton.1 hP] at hc
      have hc : c ∈ ([2, 1] : List Channel) := hc
      have hlt : ∀ c ∈ ([2, 1] : List Channel), c < (3 : Nat) := by decide
      exact hlt c hc
    | waiting r =>
      obtain ⟨_, hnone, -⟩ := hP
      cases hnone
  timers_below _ _ hd := nomatch hd
  root_below l hl := by
    cases hl
    exact show 1 < 3 by decide
  apart _ _ hd := nomatch hd
  root _ _ := rfl

/-! ### Nothing else is pending -/

namespace Pending.Within

variable {s : Script} {now : Instant} {w : Pending} {soup : InstanceSoup}

/-- Where timers stand apart, a reduction leaves nothing pending but what is armed. -/
theorem after_of_reduction (h : w.Within soup) (hapart : soup.Apart) {r : Reduction}
    (hr : s.reduction? now soup = .ok (some r)) : w.Within r.after := by
  obtain ⟨p, m⟩ := Script.exists_reacts hr
  have hbefore {t : Channel} {d : Instant} (hd : w.after r.before.outbox t = some d) :
      r.before.timers.get? t = some d := by
    rw [m.before_frame] at hd ⊢
    exact h t d hd
  have hsilent {t : Channel} (ht : t ∉ (r.part).contacts) : Soup.addressed p.sent t = [] :=
    Soup.addressed_eq_nil_iff.2 fun _ hm => ht (m.yields.contact_of_sent hm).1
  -- what was pending is armed, hence no contact of the part that reacts
  have hkept {t : Channel} {d : Instant}
      (hd : (if p.cancelled = some t ∧ r.before.timers.contains t then none
        else w.after r.before.outbox t) = some d) :
      (p.disarm r.before).timers.get? t = some d ∧ Soup.addressed p.sent t = [] := by
    split at hd
    · cases hd
    · next hne =>
      have harmed := hbefore hd
      have hcontains : r.before.timers.contains t := by rw [Table.contains, harmed]; rfl
      refine ⟨?_, hsilent ?_⟩
      · rw [Products.get?_timers_disarm, if_neg fun hc => hne ⟨hc, hcontains⟩, harmed]
      · rw [m.before_frame] at harmed
        exact hapart.apart t d harmed _ m.holds_part
  intro t d hd
  rw [m.after, Products.after_outbox_addTo] at hd
  rw [m.after, Products.get?_timers_addTo]
  cases harmed : p.armed with
  | none =>
    rw [harmed] at hd
    obtain ⟨htimer, hnone⟩ := hkept hd
    rw [if_neg fun hc => hc.1 hnone]
    exact htimer
  | some a =>
    obtain ⟨c, d'⟩ := a
    rw [harmed] at hd
    dsimp only at hd ⊢
    split at hd
    · next hc =>
      cases hd
      subst hc
      have hge := (m.yields.new_of_timer (m.yields.timer_of_armed harmed)).1
      have hnone := hsilent fun ht => Nat.not_lt.2 hge (hapart.contacts_below _ m.holds_part t ht)
      rw [if_neg fun hc => hc.1 hnone, if_pos rfl]
    · next hc =>
      obtain ⟨htimer, hnone⟩ := hkept hd
      rw [if_neg fun hc => hc.1 hnone, if_neg hc]
      exact htimer

/-- Where timers stand apart, an execution leaves nothing pending but what is armed. -/
theorem of_execute (h : w.Within soup) (hapart : soup.Apart) {limit : Nat}
    {o : Outcome Shared Task Receiver Message}
    (ho : s.program.execute now limit soup = .ok o) : w.Within o.soup :=
  (Script.keeps_of_execute (P := fun soup => w.Within soup ∧ soup.Apart)
    (fun _ _ h hr => ⟨h.1.after_of_reduction h.2 hr, h.2.after_of_reduction hr⟩)
    ⟨h, hapart⟩ ho).1

end Pending.Within

end Perdure
