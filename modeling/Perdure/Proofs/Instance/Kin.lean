import Perdure.Proofs.Instance.Scopes

/-!
# The laws of kinship

Whatever rule of `Yields` a part follows, its links behave in one way.  A part that goes on keeps
its link; a part that does not reports on it, once, and leaves nothing behind.  A part awaits the
links of what it has started until their reports arrive.  What is started gets new channels; orders
go only to links that are awaited before and after.  These laws are all that the later modules need
of the rules.

## Main definitions

* `Delivery` — what a part may take, and the link that a report uses up.
* `Part.Sound` — what the data of a part promise by themselves.

## Main results

* `Yields.awaits_perm` — the links awaited before and after a reaction.
* `Yields.fresh_perm` — new channels go to what is started, or to a new timer.
* `Yields.sent_cases`, `Yields.closed_cases` — where messages go, and which channels close.
* `Yields.sound` — what is produced is sound.
-/

namespace Perdure

/-! ### Deliveries -/

/-- What a part may take, and the links that are used up by it: a ready part takes nothing, and a
waiting part takes a report on a link that it awaits, what became of its timer, the order to fire
no more or the order to stop at once. -/
inductive Delivery (P : Part) : Option (Channel × Message) → List Link → Prop
  | nothing {t : Task} (h : P = .ready t) : Delivery P none []
  | report {u : Link} (hu : u ∈ P.awaits) (fault : Option Fault) (cs : Compensations) :
      Delivery P (some (u.parent, .completed fault cs)) [u]
  | event {c : Channel} {m : Message} (hc : P.timer = some c)
      (hm : m = .timeout ∨ m = .timerCancelled) : Delivery P (some (c, m)) []
  | stop {c : Channel} (hc : P.link.control = some c) : Delivery P (some (c, .stop)) []
  | terminate {c : Channel} (hc : c = P.link.termination) : Delivery P (some (c, .terminate)) []

/-- A report is taken on an awaited link, and uses it up. -/
theorem Delivery.of_report {P : Part} {c : Channel} {m : Message} {consumed : List Link}
    (h : Delivery P (some (c, m)) consumed) {fault : Option Fault} {cs : Compensations}
    (hm : m.report? = some (fault, cs)) :
    ∃ u ∈ P.awaits, c = u.parent ∧ m = .completed fault cs ∧ consumed = [u] := by
  cases h with
  | report hu f xs =>
    cases hm
    exact ⟨_, hu, rfl, rfl, rfl⟩
  | event hc hm' => rcases hm' with rfl | rfl <;> cases hm
  | stop => cases hm
  | terminate => cases hm

/-- Only a report uses up a link. -/
theorem Delivery.eq_nil_of_no_report {P : Part} {taken : Option (Channel × Message)}
    {consumed : List Link} (h : Delivery P taken consumed)
    (hno : ∀ c m, taken = some (c, m) → m.report? = none) : consumed = [] := by
  cases h with
  | report hu fault cs => cases hno _ _ rfl
  | _ => rfl

namespace Products

/-- The links awaited by what is produced.  What is only just started awaits nothing. -/
def awaits (p : Products) : List Link := p.heir.elim [] Part.awaits

/-- The timer awaited by what is produced. -/
def timer (p : Products) : Option Channel := p.heir.bind Part.timer

/-- The links of what is started. -/
def kidLinks (p : Products) : List Link := p.kids.map Task.link

theorem filterMap_timer_parts (p : Products) :
    p.parts.filterMap Part.timer = p.timer.toList := by
  have hk : (p.kids.map Part.ready).filterMap Part.timer = [] := by
    rw [List.filterMap_eq_nil_iff]
    intro Q hQ
    obtain ⟨t, -, rfl⟩ := List.mem_map.1 hQ
    rfl
  rw [parts, List.filterMap_append, hk, List.nil_append, timer]
  cases p.heir with
  | none => rfl
  | some Q => cases hQ : Q.timer <;> simp [hQ]

end Products

/-! ### Sound parts -/

/-- What the data of a part promise by themselves. -/
def Part.Sound (s : Script) : Part → Prop
  | .ready (.sequenceStep sequence) | .waiting (.sequenceWaiting sequence _) =>
    ∃ children, s.children sequence.run.activity = .ok children
  | .ready (.scopeActive scope) => scope.Sound s
  | .waiting (.scopeWaiting scope) => scope.Sound s ∧ scope.isFinished = false
  | _ => True

namespace Yields

variable {s : Script} {now : Instant} {n k : Nat} {P : Part} {taken : Option (Channel × Message)}
  {p : Products} {consumed : List Link}

/-! ### Heirs and kids -/

/-- A part that goes on keeps its link. -/
theorem heir_link (h : Yields s now n k P taken p) {Q : Part} (hQ : p.heir = some Q) :
    Q.link = P.link := by
  cases h <;> cases hQ <;> rfl

/-- A part that goes on reports on the same channel. -/
theorem heir_home (h : Yields s now n k P taken p) {Q : Part} (hQ : p.heir = some Q) :
    Q.home = P.home := congrArg Link.parent (h.heir_link hQ)

/-- A part that does not go on reports, and does nothing else but close its timer. -/
theorem sent_of_heir_eq_none (h : Yields s now n k P taken p) (hn : p.heir = none) :
    p.kids = [] ∧ p.channels = 0 ∧ ∃ fault cs, p.sent = [(P.home, .completed fault cs)] := by
  cases h <;> cases hn <;> exact ⟨rfl, rfl, _, _, rfl⟩

/-- What is started awaits nothing yet. -/
theorem kid_awaits (h : Yields s now n k P taken p) {t : Task} (ht : t ∈ p.kids) :
    t.awaits = [] := by
  obtain ⟨_, _, _, rfl⟩ | ⟨_, _, _, rfl⟩ := h.kid_cases ht <;> rfl

/-! ### Links awaited -/

/-- A part awaits what it awaited and what it started, less what has reported. -/
theorem awaits_perm (h : Yields s now n k P taken p) (hd : Delivery P taken consumed)
    (hs : P.Sound s) : (p.awaits ++ consumed).Perm (P.awaits ++ p.kidLinks) := by
  cases h
  case scopeStarted run body alarms hp =>
    cases hd
    have hkids : (AlarmRun.freshAll run alarms.length n).map AlarmRun.link =
        (ScopeRun.fresh run body alarms.length k n).pending.map AlarmLink.link := by
      simp [AlarmRun.freshAll, ScopeRun.fresh, ScopeRun.pending, AlarmLink.fresh, AlarmRun.fresh,
        AlarmRun.link, AlarmLink.link, List.filter_map, Function.comp_def]
    simp [Products.awaits, Products.kidLinks, Part.awaits, Task.awaits, ScopeRun.awaits,
      ScopeRun.fresh, Task.link, Function.comp_def]
    exact .of_eq hkids.symm
  case sequenceFaulted hm | sequenceNext hm | firingFaulted hm | firingLast hm |
      firingUntimed hm _ _ | firingAgain hm _ _ =>
    obtain ⟨u, hu, rfl, rfl, rfl⟩ := hd.of_report hm
    rw [List.mem_singleton.1 hu]
    rfl
  case bodyFaulted scope body c m fault cs hb hc hm | bodyDone scope body c m cs hb hc hm =>
    -- the report uses up the link of the body, and the alarms stay awaited
    obtain ⟨u, hu, rfl, rfl, rfl⟩ := hd.of_report hm
    obtain rfl := hs.1.link_eq_body hb hu hc
    have ha : (Part.waiting (.scopeWaiting scope)).awaits = _ := ScopeRun.awaits_of_body hb
    rw [ha]
    simp only [Products.kidLinks, List.map_nil, List.append_nil]
    exact List.perm_append_singleton _ _
  case alarmFaulted scope l marked c m fault cs hb hl hm |
      alarmDone scope l marked c m cs hb hl hm =>
    -- the report uses up the link of one alarm
    obtain ⟨u, hu, rfl, rfl, rfl⟩ := hd.of_report hm
    obtain ⟨hdone, rfl⟩ := hs.1.link_eq_alarm hu hb hl
    have ha : (Part.waiting (.scopeWaiting scope)).awaits.Perm _ :=
      ScopeRun.awaits_perm_of_markDone hl hdone
    refine .trans ?_ (ha.append_right _).symm
    simp only [Products.kidLinks, List.map_nil, List.append_nil]
    exact List.perm_append_singleton _ _
  case scopeDone hf _ =>
    cases hd
    simp [Products.awaits, Products.kidLinks, Part.awaits, Task.awaits, ScopeRun.awaits_eq_nil hf]
  case scopeWaits | scopeTold | scopeAsked =>
    cases hd <;> simp_all [Products.awaits, Products.kidLinks, Part.awaits, Task.awaits,
      Receiver.awaits, ScopeRun.awaits, ScopeRun.pending]
  case waitOver hm | alarmOver hm =>
    cases hd <;> first | exact List.Perm.refl _ | simp at hm
  all_goals cases hd <;> exact List.Perm.refl _

/-! ### Channels -/

/-- New channels go to what is started, or to the timer that is armed. -/
theorem fresh_perm (h : Yields s now n k P taken p) :
    (p.kidLinks.flatMap Link.channels ++ p.timer.toList).Perm (List.range' n p.channels) := by
  cases h
  case scopeStarted run body alarms hp =>
    have hk : ((AlarmRun.freshAll run alarms.length n).map Task.alarmStart).map Task.link =
        (AlarmRun.freshAll run alarms.length n).map AlarmRun.link := by
      rw [List.map_map]
      rfl
    simp only [Products.kidLinks, List.map_cons, hk, List.flatMap_cons,
      AlarmRun.channels_freshAll run alarms.length n, ← List.range'_append_1]
    refine .trans (.of_eq (List.append_nil _)) ?_
    exact (List.Perm.swap _ _ _).append_right _
  case childStarted => exact List.Perm.swap _ _ _
  case alarmFired => exact List.Perm.swap _ _ _
  all_goals exact List.Perm.refl _

/-- The timer that is armed is the one that is awaited. -/
theorem armed_eq (h : Yields s now n k P taken p) : p.armed.map Prod.fst = p.timer := by
  cases h <;> rfl

/-- A part that goes on gives orders only, and only to links that it awaits before and after. -/
theorem sent_cases (h : Yields s now n k P taken p) (hd : Delivery P taken consumed)
    (hs : P.Sound s) {Q : Part} (hQ : p.heir = some Q) {c : Channel} {m : Message}
    (hm : (c, m) ∈ p.sent) :
    ∃ u ∈ P.awaits, u ∈ Q.awaits ∧
      (c = u.termination ∧ m = .terminate ∨ u.control = some c ∧ m = .stop) := by
  cases h
  case sequenceTold | firingTold =>
    cases hQ
    cases List.mem_singleton.1 hm
    exact ⟨_, List.mem_singleton_self _, List.mem_singleton_self _, .inl ⟨rfl, rfl⟩⟩
  case scopeTold scope _ _ =>
    cases hQ
    obtain ⟨u, hu, ho⟩ := ScopeRun.mem_orders hm
    exact ⟨u, hu, hu, .inl ho⟩
  -- the body is done: the heir awaits the alarms, and only these get the order
  case bodyFaulted scope body _ _ _ _ hb _ _ =>
    cases hQ
    obtain ⟨u, hu, ho⟩ := ScopeRun.mem_orders hm
    have hu' : u ∈ scope.awaits := by
      rw [ScopeRun.awaits_of_body hb]
      exact List.mem_cons_of_mem _ hu
    exact ⟨u, hu', hu, .inl ho⟩
  case bodyDone scope body _ _ _ hb _ _ =>
    cases hQ
    obtain ⟨u, hu, ho⟩ := ScopeRun.mem_softOrders hm
    have hu' : u ∈ scope.awaits := by
      rw [ScopeRun.awaits_of_body hb]
      exact List.mem_cons_of_mem _ hu
    exact ⟨u, hu', hu, .inr ho⟩
  case alarmFaulted scope l marked _ _ _ _ hb hl hr =>
    cases hQ
    obtain ⟨v, hv, rfl, -, -⟩ := hd.of_report hr
    obtain ⟨hdone, rfl⟩ := hs.1.link_eq_alarm hv hb hl
    obtain ⟨u, hu, ho⟩ := ScopeRun.mem_orders hm
    -- the alarm that failed is marked done before the others are told
    have hu' : u ∈ scope.awaits :=
      (ScopeRun.awaits_perm_of_markDone hl hdone).mem_iff.2 (List.mem_cons_of_mem _ hu)
    exact ⟨u, hu', hu, .inl ho⟩
  case sequenceAsked | scopeAsked | firingAsked =>
    cases hd with
    | event _ h => rcases h with h | h <;> cases h
  case emptyDone | thrown | waitFaulted | waitPassed | waitOver | sequenceDone | sequenceFaulted |
      scopeDone | alarmUntimed | alarmOver | firingFaulted | firingLast | firingUntimed => cases hQ
  -- no message is sent
  all_goals cases hm

/-- Channels close when nobody sends to them any more: a timer that is over, and the order channels
of what has reported. -/
theorem closed_cases (h : Yields s now n k P taken p) (hd : Delivery P taken consumed)
    (hs : P.Sound s) {c : Channel} (hc : c ∈ p.closed) :
    P.timer = some c ∨ ∃ u ∈ consumed, c = u.termination ∨ u.control = some c := by
  cases h
  case waitOver =>
    rw [List.mem_singleton.1 hc]
    exact .inl rfl
  case alarmDue | alarmOver =>
    exact .inl (Option.mem_toList.1 hc)
  case bodyFaulted hb hp hr | bodyDone hb hp hr =>
    obtain ⟨u, hu, rfl, -, rfl⟩ := hd.of_report hr
    obtain rfl := hs.1.link_eq_body hb hu hp
    exact .inr ⟨_, List.mem_singleton_self _, .inl (List.mem_singleton.1 hc)⟩
  case alarmFaulted hb hl hr | alarmDone hb hl hr =>
    obtain ⟨u, hu, rfl, -, rfl⟩ := hd.of_report hr
    obtain ⟨hdone, rfl⟩ := hs.1.link_eq_alarm hu hb hl
    refine .inr ⟨_, List.mem_singleton_self _, ?_⟩
    simpa [AlarmLink.link, eq_comm] using hc
  all_goals cases hc

/-- The timer of a part closes when the part reacts. -/
theorem timer_closed (h : Yields s now n k P taken p) {c : Channel} (hc : P.timer = some c) :
    c ∈ p.closed := by
  cases h <;> cases hc <;> exact List.mem_singleton_self _

/-- The control channel of an alarm closes when the alarm has reported. -/
theorem control_closed (h : Yields s now n k P taken p) (hd : Delivery P taken consumed)
    (hs : P.Sound s) {u : Link} (hu : u ∈ consumed) {c : Channel} (hc : u.control = some c) :
    c ∈ p.closed := by
  cases h
  -- only alarms have a control channel, the child of a sequence or of an alarm has none
  case sequenceFaulted hr | sequenceNext hr | firingFaulted hr | firingLast hr |
      firingUntimed hr _ _ | firingAgain hr _ _ =>
    obtain ⟨v, hv, rfl, -, rfl⟩ := hd.of_report hr
    cases List.mem_singleton.1 hv
    cases List.mem_singleton.1 hu
    cases hc
  case bodyFaulted hb hp hr | bodyDone hb hp hr =>
    obtain ⟨v, hv, rfl, -, rfl⟩ := hd.of_report hr
    obtain rfl := hs.1.link_eq_body hb hv hp
    cases List.mem_singleton.1 hu
    cases hc
  case alarmFaulted hb hl hr | alarmDone hb hl hr =>
    obtain ⟨v, hv, rfl, -, rfl⟩ := hd.of_report hr
    obtain ⟨hdone, rfl⟩ := hs.1.link_eq_alarm hv hb hl
    cases List.mem_singleton.1 hu
    cases hc
    simp
  case waitOver | alarmOver =>
    cases hd with
    | report hv => exact absurd hv List.not_mem_nil
    | _ => cases hu
  all_goals cases hd <;> cases hu

/-- Only the own timer is disarmed. -/
theorem cancelled_timer (h : Yields s now n k P taken p) {c : Channel}
    (hc : p.cancelled = some c) : P.timer = some c := by
  cases h <;> cases hc <;> rfl

/-- The own timer is disarmed, unless it went off. -/
theorem timer_cancelled (h : Yields s now n k P taken p) (hd : Delivery P taken consumed)
    {c : Channel} (hc : P.timer = some c) : p.cancelled = some c ∨ ∃ m, taken = some (c, m) := by
  cases h <;> cases hc
  case waitOver => exact .inl rfl
  case alarmOver => exact .inl rfl
  case alarmDue =>
    cases hd with
    | event hc hm =>
      cases hc
      exact .inr ⟨_, rfl⟩

/-! ### Soundness -/

/-- What goes on is sound. -/
theorem sound (h : Yields s now n k P taken p) (hd : Delivery P taken consumed)
    (hs : P.Sound s) {Q : Part} (hQ : p.heir = some Q) : Q.Sound s := by
  cases h <;> cases hQ
  case sequenceStarted ha hk =>
    exact ⟨_, Script.children_of_kind ha hk⟩
  case scopeStarted hp =>
    obtain ⟨a, -, ha, -⟩ := Script.kind_of_scopeParts hp
    exact ScopeRun.sound_fresh ⟨a, ha⟩ _ _ _ _
  case childStarted | sequenceNext | sequenceTold | sequenceAsked => exact hs
  case scopeWaits hf => exact ⟨hs, hf⟩
  case scopeTold => exact ⟨hs.1.distinct, fun _ => rfl, hs.1.known⟩
  case bodyFaulted => exact ⟨(List.nodup_append.1 hs.1.distinct).2.1, fun _ => rfl, hs.1.known⟩
  -- a report without a fault leaves the scope's own fault, which had stopped it already
  case bodyDone scope _ _ _ _ _ _ _ =>
    refine ⟨(List.nodup_append.1 hs.1.distinct).2.1, fun hf => hs.1.stopped ?_, hs.1.known⟩
    rwa [← Option.or_none (o := scope.fault)]
  case alarmFaulted hl _ =>
    refine ⟨?_, fun _ => rfl, hs.1.known⟩
    rw [ScopeRun.parents_of_markDone hl]
    exact hs.1.distinct
  case alarmDone scope _ _ _ _ _ _ hl _ =>
    refine ⟨?_, fun hf => hs.1.stopped ?_, hs.1.known⟩
    · rw [ScopeRun.parents_of_markDone hl]
      exact hs.1.distinct
    · rwa [← Option.or_none (o := scope.fault)]
  case scopeAsked => exact hs.1
  all_goals exact True.intro

/-- What is started is sound. -/
theorem kid_sound (h : Yields s now n k P taken p) {t : Task} (ht : t ∈ p.kids) :
    (Part.ready t).Sound s := by
  obtain ⟨_, _, _, rfl⟩ | ⟨_, _, _, rfl⟩ := h.kid_cases ht <;> exact True.intro

end Yields

end Perdure
