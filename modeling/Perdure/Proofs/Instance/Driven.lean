import Perdure.Proofs.Instance.Step

/-!
# Courses change by change

The rounds of a course taken apart into single changes: one message from outside, one reduction,
the handing over of effects.  What every such change keeps holds at every moment of every course,
also between two reductions of a round.

## Main definitions

* `Script.Driven` — courses made by single changes.
* `Course.Orderly` — what every change keeps: the family, and how the log speaks about it.
* `Course.members` — all parts that there ever were.

## Main results

* `Script.WellDriven.driven`, `Script.Driven.advance` — well-driven courses are made so.
* `Script.Driven.orderly` — every course made by single changes is orderly.
* `Script.Driven.forall_parts` — what reactions keep, all parts of a course have.
* `Script.Driven.eq_of_home` — what heirs take over, members that report on one channel have in
  common.
-/

namespace Perdure

/-- The link of the root activity. -/
def Link.root : Link := { parent := 2, termination := 1 }

namespace Script

/-- Courses made by single changes. -/
inductive Driven (s : Script) : Course → Prop
  | start (h : s.definition.validate = .ok ()) : Driven s { soup := s.newSoup }
  | inject {c : Course} {ch : Channel} {msg : Message} (h : Driven s c) (ha : c.Admits ch msg) :
      Driven s (c.inject [(ch, msg)])
  | reduce {c : Course} {now : Instant} {r : Reduction} (h : Driven s c)
      (hr : s.reduction? now c.soup = .ok (some r)) : Driven s (c.extend r)
  | drain {c : Course} (h : Driven s c) : Driven s c.drain

namespace Driven

variable {s : Script} {c : Course}

/-- Injections change neither what was emitted nor who is the root. -/
theorem admits_inject {ms : List (Channel × Message)} {ch : Channel} {msg : Message} :
    (c.inject ms).Admits ch msg ↔ c.Admits ch msg := by
  have hg : (c.inject ms).soup.global = c.soup.global := by
    rw [Course.inject, Soup.sendEach_frame]
  rw [Course.Admits, Course.Admits, Course.emitted_inject, hg]

theorem injectEach (h : Driven s c) (ms : List (Channel × Message))
    (hms : ∀ e ∈ ms, c.Admits e.1 e.2) : Driven s (c.inject ms) := by
  induction ms generalizing c with
  | nil => exact h
  | cons e ms ih =>
    have hfirst : Driven s (c.inject [e]) := .inject h (hms e List.mem_cons_self)
    exact ih hfirst fun e' he' => admits_inject.2 (hms e' (List.mem_cons_of_mem _ he'))

theorem advance (h : Driven s c) (now : Instant) (n : Nat) : Driven s (s.advance now n c) := by
  induction n generalizing c with
  | zero => exact h
  | succ n ih =>
    unfold Script.advance
    split
    · next r hr => exact ih (.reduce h hr)
    · exact h

end Driven

theorem WellDriven.driven {s : Script} {c : Course} (h : s.WellDriven c) : s.Driven c := by
  induction h with
  | start hv => exact .start hv
  | round _ hms _ ih => exact (ih.injectEach _ hms).advance _ _
  | drained _ ih => exact .drain ih

end Script

/-! ### The log -/

/-- All that disarming emits is that the timer is to be cancelled. -/
theorem Products.exists_of_mem_cancellation {p : Products} {soup : InstanceSoup} {e : Effect}
    (he : e ∈ p.cancelled.elim [] soup.cancellation) :
    ∃ t, p.cancelled = some t ∧ e = .cancelTimer t := by
  cases hc : p.cancelled with
  | none => simp [hc] at he
  | some t =>
    rw [hc] at he
    simp only [Option.elim, Soup.cancellation] at he
    split at he
    · exact ⟨t, rfl, List.mem_singleton.1 he⟩
    · cases he

namespace Move

variable {s : Script} {now : Instant} {root : Link} {soup : InstanceSoup} {r : Reduction}
  {p : Products} {consumed : List Link} (m : Move s now root soup r p consumed)

include m

/-- The log knows what was sent. -/
theorem sentTo_eq (c : Channel) : r.sentTo c = Soup.addressed p.sent c := by
  unfold Reduction.sentTo
  by_cases hc : c ∈ r.after.owned root
  · rw [m.queue_after hc, List.drop_left]
  · have hnil : Soup.addressed p.sent c = [] :=
      Soup.addressed_eq_nil_iff.2 fun msg hm => hc (m.owned_of_sent hm).2
    rw [hnil, m.after, Products.queue_addTo, hnil]
    split
    · exact List.drop_nil
    · split <;> simp

/-- The log knows what was produced: first what is ready, then what waits. -/
theorem produced_eq : r.produced = p.tasks.map .ready ++ p.receivers.map .waiting := by
  rw [Reduction.produced, m.after, Products.runnables_addTo, Products.receivers_addTo,
    List.drop_left, List.drop_left]

theorem mem_produced {P : Part} : P ∈ r.produced ↔ P ∈ p.parts := by
  rw [m.produced_eq, Products.parts, Products.tasks, Products.receivers]
  rcases p.heir with _ | (t | q) <;> simp

/-- The effects of a reduction: perhaps a timer is disarmed, perhaps a new one is registered. -/
theorem outbox_after : r.after.outbox = soup.outbox ++ p.cancelled.elim [] r.before.cancellation ++
    p.armed.elim [] fun a => [.registerTimer a.1 a.2] := by
  rw [m.after, Products.outbox_addTo, m.gives.frame]

/-- What a reduction emits comes after all that was emitted before. -/
theorem emitted_extend {c : Course} (hc : c.soup = soup) : (c.extend r).emitted =
    c.emitted ++ (p.cancelled.elim [] r.before.cancellation ++
      p.armed.elim [] fun a => [.registerTimer a.1 a.2]) := by
  show c.effects ++ r.after.outbox = _
  rw [m.outbox_after, ← hc, Course.emitted, List.append_assoc, List.append_assoc]

/-- A reduction cancels at most the timer of the part that reacts, and registers at most the timer
that it arms. -/
theorem mem_emitted_extend {c : Course} (hc : c.soup = soup) {e : Effect}
    (he : e ∈ (c.extend r).emitted) : e ∈ c.emitted ∨
      (∃ t, r.part.timer = some t ∧ e = .cancelTimer t) ∨
      ∃ a, p.armed = some a ∧ e = .registerTimer a.1 a.2 := by
  rw [m.emitted_extend hc] at he
  refine (List.mem_append.1 he).imp_right fun he => ?_
  rcases List.mem_append.1 he with hcancelled | harmed
  · obtain ⟨t, ht, rfl⟩ := Products.exists_of_mem_cancellation hcancelled
    exact .inl ⟨t, m.yields.cancelled_timer ht, rfl⟩
  · cases ha : p.armed with
    | none => simp [ha] at harmed
    | some a =>
      rw [ha] at harmed
      exact .inr ⟨a, rfl, List.mem_singleton.1 harmed⟩

/-- The only report is that of a part that is done. -/
theorem reports_cases (c : Channel) : (r.sentTo c).filter Message.isCompleted = [] ∨
    c = r.part.home ∧ p.heir = none ∧
      ∃ fault cs, (r.sentTo c).filter Message.isCompleted = [.completed fault cs] := by
  rw [m.sentTo_eq]
  cases hQ : p.heir with
  | none =>
    obtain ⟨-, -, fault, cs, hs⟩ := m.yields.sent_of_heir_eq_none hQ
    rw [hs, Soup.addressed_cons]
    by_cases hc : r.part.home = c
    · rw [if_pos hc]
      exact .inr ⟨hc.symm, rfl, fault, cs, rfl⟩
    · rw [if_neg hc]
      exact .inl rfl
  | some Q =>
    refine .inl (List.filter_eq_nil_iff.2 ?_)
    intro msg hm
    rcases m.mem_sent (Soup.mem_addressed.1 hm) with ⟨hn, -⟩ | ⟨u, -, -, ⟨-, rfl⟩ | ⟨-, rfl⟩⟩
    · rw [hQ] at hn
      cases hn
    · simp [Message.isCompleted]
    · simp [Message.isCompleted]

/-- Another part reports elsewhere. -/
theorem home_ne_of_before {Q : Part} (hQ : Q ∈ r.before.parts) : Q.home ≠ r.part.home := fun he =>
  m.link_ne_of_before hQ (m.family.parent_inj (m.family.link_mem (m.mem_of_before hQ)).1
    (m.family.link_mem m.part_mem).1 he)

/-- A link awaited by the part that reacts is used up or awaited by its heir. -/
theorem exists_heir_of_awaits {u : Link} (hu : u ∈ r.part.awaits ∨ u ∈ p.kidLinks)
    (hc : u ∉ consumed) : ∃ Q, p.heir = some Q ∧ u ∈ Q.awaits := by
  have hp := m.yields.awaits_perm m.delivery m.part_sound
  have hm := hp.mem_iff.2 (List.mem_append.2 hu)
  have ha := (List.mem_append.1 hm).resolve_right hc
  unfold Products.awaits at ha
  cases hQ : p.heir with
  | none =>
    rw [hQ] at ha
    cases ha
  | some Q =>
    rw [hQ] at ha
    exact ⟨Q, rfl, ha⟩

end Move

/-- What every change of a course keeps. -/
structure Course.Orderly (s : Script) (c : Course) : Prop where
  family : Family s .root c.soup
  root : c.soup.global.root = some ⟨1, 2⟩
  /-- A timer that was ever armed is awaited or closed. -/
  timers : ∀ t d, .registerTimer t d ∈ c.emitted →
    t ∈ c.soup.awaitedTimers ∨ c.soup.isClosed t = true
  reported_once : ∀ ch, (c.reports ch).length ≤ 1
  reported_below : ∀ ch : Nat, c.reports ch ≠ [] → ch < c.soup.nextChannel
  /-- Who has reported has no part any more. -/
  reported_gone : ∀ ch, c.reports ch ≠ [] → ∀ P ∈ c.soup.parts, P.home ≠ ch
  /-- Who was started by another part is awaited by it. -/
  lineage : ∀ P ∈ c.soup.parts, ∀ a, c.Started a P.home →
    a = P.home ∨ ∃ A ∈ c.soup.parts, A.home = a ∧ P.link ∈ A.awaits
  started_below : ∀ (a : Channel) (b : Nat), c.Started a b → b < c.soup.nextChannel
  /-- What was reported on a link that is awaited still waits. -/
  awaited_reports : ∀ l ∈ c.soup.expected .root, c.reports l.parent = c.soup.queue l.parent

namespace Course.Orderly

variable {s : Script} {c : Course}

theorem start (s : Script) : Orderly s { soup := s.newSoup } where
  family := Family.newSoup s
  root := rfl
  timers _ _ h := nomatch h
  reported_once _ := Nat.zero_le _
  reported_below _ h := absurd rfl h
  reported_gone _ h := absurd rfl h
  lineage _ _ _ h := by
    obtain ⟨r, hr, -⟩ := h
    cases hr
  started_below _ _ h := by
    obtain ⟨r, hr, -⟩ := h
    cases hr
  awaited_reports _ _ := rfl

/-- What the outside may send to a course, the family accepts. -/
theorem accepts (h : Orderly s c) {ch : Channel} {msg : Message} (ha : c.Admits ch msg) :
    Family.Accepts .root c.soup ch msg := by
  rcases ha with ⟨hm, d, ht⟩ | ⟨rfl, root, hr, rfl⟩
  · rcases h.timers ch d ht with ht | hc
    · exact .inr (.inl ⟨ht, hm⟩)
    · exact .inl hc
  · rw [h.root] at hr
    cases hr
    exact .inr (.inr ⟨rfl, rfl⟩)

theorem inject (h : Orderly s c) {ch : Channel} {msg : Message} (ha : c.Admits ch msg) :
    Orderly s (c.inject [(ch, msg)]) := by
  have hacc := h.accepts ha
  -- a message changes one queue: parts, counters and channels stay, so most laws carry over
  have hparts := c.soup.parts_send ch msg
  have hnext : (c.soup.send ch msg).nextChannel = c.soup.nextChannel := by rw [Soup.send_frame]
  refine
    { family := h.family.send hacc, root := ?_, timers := ?_, reported_once := h.reported_once
      reported_below := ?_, reported_gone := ?_, lineage := ?_, started_below := ?_
      awaited_reports := ?_ }
  · show (c.soup.send ch msg).global.root = _
    rw [Soup.send_frame]
    exact h.root
  · intro t d ht
    rw [emitted_inject] at ht
    show t ∈ (c.soup.send ch msg).awaitedTimers ∨ (c.soup.send ch msg).isClosed t = true
    rw [c.soup.awaitedTimers_send, Soup.isClosed_send]
    exact h.timers t d ht
  · show ∀ q : Nat, c.reports q ≠ [] → q < (c.soup.send ch msg).nextChannel
    rw [hnext]
    exact h.reported_below
  · show ∀ q, c.reports q ≠ [] → ∀ P ∈ (c.soup.send ch msg).parts, P.home ≠ q
    rw [hparts]
    exact h.reported_gone
  · show ∀ P ∈ (c.soup.send ch msg).parts, ∀ a, c.Started a P.home →
      a = P.home ∨ ∃ A ∈ (c.soup.send ch msg).parts, A.home = a ∧ P.link ∈ A.awaits
    rw [hparts]
    exact h.lineage
  · show ∀ (a : Channel) (b : Nat), c.Started a b → b < (c.soup.send ch msg).nextChannel
    rw [hnext]
    exact h.started_below
  · show ∀ l ∈ (c.soup.send ch msg).expected .root,
      c.reports l.parent = (c.soup.send ch msg).queue l.parent
    rw [c.soup.expected_send]
    intro l hl
    rw [h.family.queue_send_parent hacc hl]
    exact h.awaited_reports l hl

theorem drain (h : Orderly s c) : Orderly s c.drain where
  family := h.family.drain
  root := h.root
  timers t d ht := h.timers t d (c.emitted_drain ▸ ht)
  reported_once := h.reported_once
  reported_below := h.reported_below
  reported_gone := h.reported_gone
  lineage := h.lineage
  started_below := h.started_below
  awaited_reports := h.awaited_reports

/-- The reports of the root wait for the outside. -/
theorem root_reports (h : Orderly s c) :
    c.reports Link.root.parent = c.soup.queue Link.root.parent :=
  h.awaited_reports _ List.mem_cons_self

/-! ### Reductions -/

section Move

variable {now : Instant} {r : Reduction} {p : Products} {consumed : List Link}
  (h : Orderly s c) (m : Move s now .root c.soup r p consumed)

theorem reports_extend (c : Course) (r : Reduction) (ch : Channel) :
    (c.extend r).reports ch = c.reports ch ++ (r.sentTo ch).filter Message.isCompleted := by
  simp [Course.reports]

include m

/-- A start on record is an old one, or one of the last reduction. -/
theorem started_extend {a b : Channel} : (c.extend r).Started a b ↔
    c.Started a b ∨ r.part.home = a ∧ ∃ P ∈ p.parts, P.home = b := by
  have hp : (∃ P ∈ r.produced, P.home = b) ↔ ∃ P ∈ p.parts, P.home = b := by
    simp only [m.mem_produced]
  rw [← hp]
  simp only [Course.Started, log_extend, List.mem_append, List.mem_singleton]
  constructor
  · rintro ⟨q, hq | rfl, hs⟩
    · exact .inl ⟨q, hq, hs⟩
    · exact .inr hs
  · rintro (⟨q, hq, hs⟩ | hs)
    · exact ⟨q, .inl hq, hs⟩
    · exact ⟨r, .inr rfl, hs⟩

include h

theorem timers_extend (t : Channel) (d : Instant)
    (ht : .registerTimer t d ∈ (c.extend r).emitted) :
    t ∈ r.after.awaitedTimers ∨ r.after.isClosed t = true := by
  rcases m.mem_emitted_extend rfl ht with hold | ⟨q, -, he⟩ | ⟨a, ha, he⟩
  · rcases h.timers t d hold with ha | hc
    -- either the part that reacts awaited the timer, and closes it, or another one still does
    · rcases m.mem_awaitedTimers_of ha with hP | ha
      · refine .inr ?_
        rw [m.isClosed_after, decide_eq_true (m.yields.timer_closed hP)]
        rfl
      · exact .inl ha
    · refine .inr ?_
      rw [m.isClosed_after, hc, Bool.or_true]
  · cases he
  · cases he
    refine .inl (m.mem_awaitedTimers_of_new ?_)
    rw [← m.yields.armed_eq, ha]
    rfl

theorem reported_once_extend (ch : Channel) : ((c.extend r).reports ch).length ≤ 1 := by
  rw [reports_extend]
  rcases m.reports_cases ch with hr | ⟨rfl, -, fault, cs, hr⟩
  · rw [hr, List.append_nil]
    exact h.reported_once ch
  · have hnil : c.reports r.part.home = [] := by
      by_contra hne
      exact h.reported_gone _ hne _ m.part_mem rfl
    rw [hr, hnil]
    exact Nat.le_refl _

theorem reported_below_extend (ch : Nat) (hne : (c.extend r).reports ch ≠ []) :
    ch < r.after.nextChannel := by
  rw [m.nextChannel_after]
  rw [reports_extend] at hne
  have hlt : ch < c.soup.nextChannel := by
    rcases m.reports_cases ch with hr | ⟨he, -, -⟩
    · rw [hr, List.append_nil] at hne
      exact h.reported_below ch hne
    · rw [he]
      exact m.family.home_below m.part_mem
  omega

theorem reported_gone_extend (ch : Channel) (hne : (c.extend r).reports ch ≠ []) {P : Part}
    (hP : P ∈ r.after.parts) : P.home ≠ ch := by
  rw [reports_extend] at hne
  rcases m.reports_cases ch with hr | ⟨rfl, hn, -⟩
  · -- the report was there before
    rw [hr, List.append_nil] at hne
    rcases m.mem_after.1 hP with hQ | ⟨t, ht, rfl⟩ | hb
    · rw [m.yields.heir_home hQ]
      exact h.reported_gone ch hne _ m.part_mem
    · intro he
      have hlt := h.reported_below ch hne
      rw [← he] at hlt
      exact absurd hlt (Nat.not_lt.2 (m.home_new_of_kid ht))
    · exact h.reported_gone ch hne P (m.mem_of_before hb)
  · -- the part that reacts reports, and leaves neither an heir nor anything new
    rcases m.mem_after.1 hP with hQ | ⟨t, ht, rfl⟩ | hb
    · rw [hn] at hQ
      cases hQ
    · rw [(m.yields.sent_of_heir_eq_none hn).1] at ht
      cases ht
    · exact m.home_ne_of_before hb

theorem lineage_extend {P : Part} (hP : P ∈ r.after.parts) (a : Channel)
    (hs : (c.extend r).Started a P.home) :
    a = P.home ∨ ∃ A ∈ r.after.parts, A.home = a ∧ P.link ∈ A.awaits := by
  have hheir {Q : Part} (hQ : p.heir = some Q) : Q ∈ r.after.parts ∧ Q.home = r.part.home :=
    ⟨m.mem_after.2 (.inl hQ), m.yields.heir_home hQ⟩
  rw [started_extend m] at hs
  rcases m.mem_after.1 hP with hQ | ⟨t, ht, rfl⟩ | hb
  · -- the heir is awaited by the part that awaited the part that reacted
    rcases hs with hs | ⟨ha, -⟩
    · rw [(hheir hQ).2] at hs ⊢
      refine (h.lineage _ m.part_mem a hs).imp_right ?_
      rintro ⟨A, hA, hhome, hu⟩
      have hne : A ≠ r.part := by
        rintro rfl
        exact absurd (m.family.elder _ hA _ hu) (Nat.lt_irrefl _)
      rw [m.yields.heir_link hQ]
      exact ⟨A, m.mem_after.2 (.inr (.inr ((m.mem_before_or hA).resolve_left hne))), hhome, hu⟩
    · exact .inl (ha.symm.trans (hheir hQ).2.symm)
  · -- what was just started is awaited by the heir
    rcases hs with hs | ⟨rfl, -⟩
    · exact absurd (h.started_below a _ hs) (Nat.not_lt.2 (m.home_new_of_kid ht))
    · have hk : t.link ∈ p.kidLinks := List.mem_map_of_mem ht
      -- its channel is newer than every link of the family, the consumed ones among them
      have hu : t.link ∉ consumed := fun hu => by
        have hmem := Family.mem_expected_of_awaits .root m.part_mem (m.consumes _ hu).1
        exact absurd (m.family.below _ (Family.parent_mem_owned hmem))
          (Nat.not_lt.2 (m.home_new_of_kid ht))
      obtain ⟨Q, hQ, hu⟩ := m.exists_heir_of_awaits (.inr hk) hu
      exact .inr ⟨Q, (hheir hQ).1, (hheir hQ).2, hu⟩
  · -- another part is awaited by the same part, or by its heir
    have hP' := m.mem_of_before hb
    rcases hs with hs | ⟨rfl, Q, hQ, he⟩
    · refine (h.lineage P hP' a hs).imp_right ?_
      rintro ⟨A, hA, hhome, hu⟩
      rcases m.mem_before_or hA with rfl | hA'
      · have hc : P.link ∉ consumed := fun hc =>
          (m.consumes _ hc).2.1 (m.family.link_mem hP').2
        obtain ⟨Q, hQ, hu⟩ := m.exists_heir_of_awaits (.inl hu) hc
        exact ⟨Q, (hheir hQ).1, (hheir hQ).2.trans hhome, hu⟩
      · exact ⟨A, m.mem_after.2 (.inr (.inr hA')), hhome, hu⟩
    · rcases List.mem_append.1 hQ with hQ | hQ
      · obtain ⟨t, ht, rfl⟩ := List.mem_map.1 hQ
        have hge := m.home_new_of_kid ht
        rw [he] at hge
        exact absurd (m.family.home_below hP') (Nat.not_lt.2 hge)
      · exact .inl ((hheir (Option.mem_toList.1 hQ)).2.symm.trans he)

theorem started_below_extend (a : Channel) (b : Nat) (hs : (c.extend r).Started a b) :
    b < r.after.nextChannel := by
  rw [m.nextChannel_after]
  rcases (started_extend m).1 hs with hs | ⟨-, P, hP, rfl⟩
  · have := h.started_below a b hs
    omega
  · have hP' : P ∈ r.after.parts := m.parts_after.mem_iff.2 (List.mem_append_left _ hP)
    exact m.nextChannel_after ▸ m.family_after.home_below hP'

theorem awaited_reports_extend {l : Link} (hl : l ∈ r.after.expected .root) :
    (c.extend r).reports l.parent = r.after.queue l.parent := by
  rcases m.mem_expected_after.1 hl with hk | ⟨hl', hu⟩
  · -- nothing was reported yet on the link of what was just started
    have hnew : c.soup.nextChannel ≤ l.parent := m.new_of_kid hk (by simp)
    have hold : c.reports l.parent = [] := by
      by_contra hne
      exact absurd (h.reported_below _ hne) (Nat.not_lt.2 hnew)
    rw [reports_extend, hold, m.queue_after_new hnew]
    rcases m.reports_cases l.parent with hr | ⟨he, -⟩
    · rw [hr, List.append_nil]
    · rw [he] at hnew
      exact absurd (m.family.home_below m.part_mem) (Nat.not_lt.2 hnew)
  · rw [reports_extend, m.queue_after (Family.parent_mem_owned hl), m.queue_before_parent hl' hu,
      h.awaited_reports l hl', m.sentTo_eq]
    congr 1
    -- whatever is sent to the parent channel of a link is a report
    apply List.filter_eq_self.2
    intro msg hm
    rcases m.mem_sent (Soup.mem_addressed.1 hm) with ⟨-, -, fault, cs, rfl⟩ | ⟨u, hu, -, ho⟩
    · rfl
    · have hu := Family.mem_expected_of_awaits .root m.part_mem hu
      exact absurd rfl (m.family.parent_ne_order hl' hu (ho.imp And.left And.left))

end Move

theorem extend (h : Orderly s c) {now : Instant} {r : Reduction}
    (hr : s.reduction? now c.soup = .ok (some r)) : Orderly s (c.extend r) := by
  obtain ⟨p, consumed, m⟩ := h.family.exists_move hr
  exact
    { family := m.family_after
      root := by
        show r.after.global.root = _
        rw [m.after, Products.global_addTo, m.gives.frame]
        exact h.root
      timers := h.timers_extend m
      reported_once := h.reported_once_extend m
      reported_below := h.reported_below_extend m
      reported_gone := fun ch hne _ hP => h.reported_gone_extend m ch hne hP
      lineage := fun _ hP a hs => h.lineage_extend m hP a hs
      started_below := h.started_below_extend m
      awaited_reports := fun _ hl => h.awaited_reports_extend m hl }

end Course.Orderly

/-- Every course made by single changes is orderly. -/
theorem Script.Driven.orderly {s : Script} {c : Course} (h : s.Driven c) : c.Orderly s := by
  induction h with
  | start _ => exact .start s
  | inject _ ha ih => exact ih.inject ha
  | reduce _ hr ih => exact ih.extend hr
  | drain _ ih => exact ih.drain

/-- What the root part has, and reactions keep and give, every part of a course has. -/
theorem Script.Driven.forall_parts {s : Script} {c : Course} (h : s.Driven c) {good : Part → Prop}
    (hroot : good (.ready (.activity s.rootRun)))
    (hheir : ∀ {now n k P taken p Q}, Yields s now n k P taken p → good P → p.heir = some Q → good Q)
    (hkid : ∀ {now n k P taken p t}, Yields s now n k P taken p → good P → t ∈ p.kids →
      good (.ready t)) :
    ∀ P ∈ c.soup.parts, good P := by
  induction h with
  | start _ => exact fun P hP => mem_parts_newSoup.1 hP ▸ hroot
  | @inject c ch msg _ _ ih => exact fun P hP => ih P (c.soup.parts_send ch msg ▸ hP)
  | reduce h hr ih =>
    intro Q hQ
    obtain ⟨p, consumed, m⟩ := h.orderly.family.exists_move hr
    rcases m.mem_after.1 hQ with hQ | ⟨t, ht, rfl⟩ | hQ
    · exact hheir m.yields (ih _ m.part_mem) hQ
    · exact hkid m.yields (ih _ m.part_mem) ht
    · exact ih Q (m.mem_of_before hQ)
  | drain _ ih => exact ih

/-! ### Members -/

/-- All parts that there ever were: those that have reacted, and those that there are. -/
def Course.members (c : Course) : List Part := c.log.map Reduction.part ++ c.soup.parts

/-- Messages from outside take no channels. -/
theorem Course.nextChannel_inject (c : Course) (ch : Channel) (msg : Message) :
    (c.inject [(ch, msg)]).soup.nextChannel = c.soup.nextChannel := by
  rw [Course.inject, Soup.sendEach_frame]

/-- Messages from outside are no parts. -/
theorem Course.members_inject (c : Course) (ch : Channel) (msg : Message) :
    (c.inject [(ch, msg)]).members = c.members :=
  congrArg (c.log.map Reduction.part ++ ·) (c.soup.parts_send ch msg)

/-- After a move, the members are those that there were and the parts that there are. -/
theorem Move.mem_members {s : Script} {now : Instant} {root : Link} {c : Course} {r : Reduction}
    {p : Products} {consumed : List Link} (m : Move s now root c.soup r p consumed) {P : Part}
    (hP : P ∈ (c.extend r).members) : P ∈ c.members ∨ P ∈ r.after.parts := by
  rcases List.mem_append.1 hP with hP | hP
  · rw [Course.log_extend, List.map_append] at hP
    rcases List.mem_append.1 hP with hP | hP
    · exact .inl (List.mem_append_left _ hP)
    · rw [List.mem_singleton.1 hP]
      exact .inl (List.mem_append_right _ m.part_mem)
  · exact .inr hP

/-- Members report on channels that were handed out. -/
theorem Script.Driven.home_below {s : Script} {c : Course} (h : s.Driven c) :
    ∀ P ∈ c.members, P.home < (c.soup.nextChannel : Nat) := by
  induction h with
  | start _ => exact fun P hP => mem_parts_newSoup.1 hP ▸ Nat.lt_succ_self 2
  | @inject c ch msg _ _ ih =>
    rw [c.members_inject, c.nextChannel_inject]
    exact ih
  | @reduce c now r h hr ih =>
    obtain ⟨p, consumed, m⟩ := h.orderly.family.exists_move hr
    intro P hP
    rcases m.mem_members hP with hP | hP
    · rw [Course.soup_extend, m.nextChannel_after]
      exact Nat.lt_add_right _ (ih P hP)
    · exact m.family_after.home_below hP
  | drain _ ih => exact ih

/-- What heirs take over, members that report on one channel have in common. -/
theorem Script.Driven.eq_of_home {s : Script} {c : Course} (h : s.Driven c) {α : Type}
    {f : Part → α} (hheir : ∀ {now n k P taken p Q}, Yields s now n k P taken p →
      p.heir = some Q → f Q = f P) :
    ∀ P ∈ c.members, ∀ Q ∈ c.members, P.home = Q.home → f P = f Q := by
  induction h with
  | start _ => exact fun P hP Q hQ _ => by rw [mem_parts_newSoup.1 hP, mem_parts_newSoup.1 hQ]
  | @inject c ch msg _ _ ih =>
    rw [c.members_inject]
    exact ih
  | @reduce c now r h hr ih =>
    obtain ⟨p, consumed, m⟩ := h.orderly.family.exists_move hr
    have hold {P Q : Part} (hP : P ∈ c.members) (hQ : Q ∈ r.after.parts) (he : P.home = Q.home) :
        f P = f Q := by
      have hmem {P : Part} (hP : P ∈ c.soup.parts) : P ∈ c.members := List.mem_append_right _ hP
      rcases m.mem_after.1 hQ with hQ | ⟨t, ht, rfl⟩ | hQ
      · have hhome := he.trans (m.yields.heir_home hQ)
        exact (ih P hP _ (hmem m.part_mem) hhome).trans (hheir m.yields hQ).symm
      · have hold := h.home_below P hP
        rw [he] at hold
        exact absurd hold (Nat.not_lt.2 (m.home_new_of_kid ht))
      · exact ih P hP Q (hmem (m.mem_of_before hQ)) he
    intro P hP Q hQ he
    rcases m.mem_members hP with hP | hP <;> rcases m.mem_members hQ with hQ | hQ
    · exact ih P hP Q hQ he
    · exact hold hP hQ he
    · exact (hold hQ hP he.symm).symm
    · -- parts that there are at one time report on different channels
      exact congrArg f (m.family_after.part_unique_of_home hP hQ he)
  | drain _ ih => exact ih

/-- The root may be told to stop at any time. -/
theorem Script.Driven.admits_terminate {s : Script} {c : Course} (h : s.Driven c) :
    ∀ e ∈ [(Link.root.termination, Message.terminate)], c.Admits e.1 e.2 := by
  intro e he
  rw [List.mem_singleton.1 he]
  exact .inr ⟨rfl, ⟨1, 2⟩, h.orderly.root, rfl⟩

end Perdure
