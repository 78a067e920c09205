import Perdure.Proofs.Instance.Family

/-!
# Moves of a family

A reduction of a family, with what is known of it: the part that reacts, what it takes, what it
produces and the link that is used up.  From the laws of kinship follow the balances of a move:
which links are awaited, which channels are owned and which messages wait before and after it.

## Main definitions

* `Move` — a reduction of a family.

## Main results

* `Family.exists_move` — every reduction of a family is a move.
* `Move.expected_perm`, `Move.owned_perm` — links awaited and channels owned.
* `Move.queue_after`, `Move.mem_sent` — messages that wait, and where they are sent.
-/

namespace Perdure

/-- A reduction of a family: `p` is produced and the links of `consumed` are used up. -/
structure Move (s : Script) (now : Instant) (root : Link) (soup : InstanceSoup) (r : Reduction)
    (p : Products) (consumed : List Link) : Prop where
  family : Family s root soup
  gives : soup.Gives r.part r.taken r.before
  yields : Yields s now soup.nextChannel soup.nextMonotonic r.part r.taken p
  after : r.after = p.addTo r.before
  delivery : Delivery r.part r.taken consumed
  consumes : ∀ u ∈ consumed, u ∈ r.part.awaits ∧ soup.queue u.parent ≠ [] ∧
    r.before.queue u.parent = []

/-- Every reduction of a family is a move. -/
theorem Family.exists_move {s : Script} {now : Instant} {root : Link} {soup : InstanceSoup}
    {r : Reduction} (h : Family s root soup) (hr : s.reduction? now soup = .ok (some r)) :
    ∃ p consumed, Move s now root soup r p consumed := by
  obtain ⟨hg, p, hy, ha⟩ := Script.exists_yields h.regular hr
  obtain ⟨consumed, hd, hc⟩ := h.delivery hg
  exact ⟨p, consumed, h, hg, hy, ha, hd, hc⟩

namespace Move

variable {s : Script} {now : Instant} {root : Link} {soup : InstanceSoup} {r : Reduction}
  {p : Products} {consumed : List Link} (m : Move s now root soup r p consumed)

include m

/-! ### Parts -/

theorem part_mem : r.part ∈ soup.parts := m.gives.parts.mem_iff.2 List.mem_cons_self

theorem mem_of_before {Q : Part} (hQ : Q ∈ r.before.parts) : Q ∈ soup.parts :=
  m.gives.parts.mem_iff.2 (List.mem_cons_of_mem _ hQ)

theorem part_sound : r.part.Sound s := m.family.sound _ m.part_mem

theorem parts_after : r.after.parts.Perm (p.parts ++ r.before.parts) := by
  rw [m.after]
  exact p.parts_addTo r.before

/-- After a move there are those that went on, those that were started and the others. -/
theorem mem_after {Q : Part} :
    Q ∈ r.after.parts ↔ p.heir = some Q ∨ (∃ t ∈ p.kids, Q = .ready t) ∨ Q ∈ r.before.parts := by
  rw [m.parts_after.mem_iff, Products.parts, List.mem_append, List.mem_append, Option.mem_toList,
    List.mem_map]
  constructor
  · rintro ((⟨t, ht, rfl⟩ | hQ) | hQ)
    · exact .inr (.inl ⟨t, ht, rfl⟩)
    · exact .inl hQ
    · exact .inr (.inr hQ)
  · rintro (hQ | ⟨t, ht, rfl⟩ | hQ)
    · exact .inl (.inr hQ)
    · exact .inl (.inl ⟨t, ht, rfl⟩)
    · exact .inr hQ

/-- A part other than the one that reacts stays. -/
theorem mem_before_or {Q : Part} (hQ : Q ∈ soup.parts) : Q = r.part ∨ Q ∈ r.before.parts :=
  List.mem_cons.1 (m.gives.parts.mem_iff.1 hQ)

/-! ### Links and channels -/

theorem nextChannel_after : r.after.nextChannel = soup.nextChannel + p.channels := by
  rw [m.after, Products.nextChannel_addTo, m.gives.frame]

theorem nextMonotonic_after : r.after.nextMonotonic = soup.nextMonotonic + p.numbers := by
  rw [m.after, Products.nextMonotonic_addTo, m.gives.frame]

/-- The links awaited by what is produced. -/
theorem flatMap_awaits_parts : p.parts.flatMap Part.awaits = p.awaits := by
  have hk : (p.kids.map Part.ready).flatMap Part.awaits = [] := by
    rw [List.flatMap_eq_nil_iff]
    intro Q hQ
    obtain ⟨t, ht, rfl⟩ := List.mem_map.1 hQ
    exact m.yields.kid_awaits ht
  rw [Products.parts, List.flatMap_append, hk, List.nil_append, Products.awaits]
  cases p.heir with
  | none => rfl
  | some Q => exact List.flatMap_singleton _ _

/-- What is started comes to be awaited, and what has reported is not awaited any more. -/
theorem awaited_perm : (consumed ++ r.after.awaited).Perm (p.kidLinks ++ soup.awaited) := by
  have ha : r.after.awaited.Perm (p.awaits ++ r.before.awaited) := by
    refine (m.parts_after.flatMap_right Part.awaits).trans ?_
    rw [List.flatMap_append, m.flatMap_awaits_parts]
    rfl
  have hs : soup.awaited.Perm (r.part.awaits ++ r.before.awaited) :=
    m.gives.parts.flatMap_right Part.awaits
  have hk := m.yields.awaits_perm m.delivery m.part_sound
  rw [List.perm_iff_count] at ha hs hk ⊢
  intro l
  have := ha l
  have := hs l
  have := hk l
  simp only [List.count_append] at *
  omega

theorem expected_perm :
    (consumed ++ r.after.expected root).Perm (p.kidLinks ++ soup.expected root) := by
  have ha := m.awaited_perm
  rw [List.perm_iff_count] at ha ⊢
  intro l
  have := ha l
  simp only [Soup.expected, List.count_append, List.count_cons] at *
  omega

theorem timers_perm : (r.part.timer.toList ++ r.after.awaitedTimers).Perm
    (p.timer.toList ++ soup.awaitedTimers) := by
  have ha : r.after.awaitedTimers.Perm (p.timer.toList ++ r.before.awaitedTimers) := by
    refine (m.parts_after.filterMap Part.timer).trans ?_
    rw [List.filterMap_append, p.filterMap_timer_parts]
    rfl
  have hs : soup.awaitedTimers.Perm (r.part.timer.toList ++ r.before.awaitedTimers) := by
    refine (m.gives.parts.filterMap Part.timer).trans ?_
    cases ht : r.part.timer <;> simp [ht, Soup.awaitedTimers]
  rw [List.perm_iff_count] at ha hs ⊢
  intro c
  have := ha c
  have := hs c
  simp only [List.count_append] at *
  omega

/-- The channels that are not used any more after a move. -/
theorem owned_perm : ((consumed.flatMap Link.channels ++ r.part.timer.toList) ++
    r.after.owned root).Perm (List.range' soup.nextChannel p.channels ++ soup.owned root) := by
  have hl := m.expected_perm.flatMap_right Link.channels
  have ht := m.timers_perm
  have hf := m.yields.fresh_perm
  rw [List.perm_iff_count] at hl ht hf ⊢
  intro c
  have := hl c
  have := ht c
  have := hf c
  simp only [Soup.owned, List.flatMap_append, List.count_append] at *
  omega

/-- A channel that is owned after a move is new, or was owned before. -/
theorem mem_owned_after {c : Nat} (hc : c ∈ r.after.owned root) :
    soup.nextChannel ≤ c ∧ c < soup.nextChannel + p.channels ∨ c ∈ soup.owned root := by
  have hm := m.owned_perm.mem_iff.1 (List.mem_append_right _ hc)
  rcases List.mem_append.1 hm with hm | hm
  · obtain ⟨i, hi, rfl⟩ := List.mem_range'.1 hm
    exact .inl (by omega)
  · exact .inr hm

theorem owned_nodup : ((consumed.flatMap Link.channels ++ r.part.timer.toList) ++
    r.after.owned root).Nodup := by
  refine m.owned_perm.nodup_iff.2 (List.nodup_append.2 ⟨List.nodup_range', m.family.nodup, ?_⟩)
  rintro c hc _ hc' rfl
  obtain ⟨i, -, rfl⟩ := List.mem_range'.1 hc
  have := m.family.below _ hc'
  omega

/-- What is used up is not owned any more. -/
theorem not_owned_of_consumed {u : Link} (hu : u ∈ consumed) {c : Channel} (hc : c ∈ u.channels) :
    c ∉ r.after.owned root := fun ho =>
  (List.nodup_append.1 m.owned_nodup).2.2 c
    (List.mem_append_left _ (List.mem_flatMap.2 ⟨u, hu, hc⟩)) c ho rfl

theorem not_owned_of_timer {c : Channel} (hc : r.part.timer = some c) :
    c ∉ r.after.owned root := fun ho =>
  (List.nodup_append.1 m.owned_nodup).2.2 c
    (List.mem_append_right _ (Option.mem_toList.2 hc)) c ho rfl

/-- The channels of what is started are new. -/
theorem new_of_kid {l : Link} (hl : l ∈ p.kidLinks) {c : Nat} (hc : c ∈ l.channels) :
    soup.nextChannel ≤ c := by
  have hm := m.yields.fresh_perm.mem_iff.1
    (List.mem_append_left _ (List.mem_flatMap.2 ⟨l, hl, hc⟩))
  obtain ⟨i, -, rfl⟩ := List.mem_range'.1 hm
  omega

/-- What is started reports on a new channel. -/
theorem home_new_of_kid {t : Task} (ht : t ∈ p.kids) :
    (soup.nextChannel : Nat) ≤ (Part.ready t).home :=
  m.new_of_kid (List.mem_map_of_mem ht) (Link.mem_channels.2 (.inl rfl))

theorem new_of_timer {c : Nat} (hc : p.timer = some c) : soup.nextChannel ≤ c := by
  have hm := m.yields.fresh_perm.mem_iff.1 (List.mem_append_right _ (Option.mem_toList.2 hc))
  obtain ⟨i, -, rfl⟩ := List.mem_range'.1 hm
  omega

/-- A link that is awaited after a move was started by it, or was awaited before and not used up. -/
theorem mem_expected_after {l : Link} : l ∈ r.after.expected root ↔
    l ∈ p.kidLinks ∨ l ∈ soup.expected root ∧ l ∉ consumed := by
  -- links are awaited at most once, so membership can be counted on both sides of the move
  have hp := List.perm_iff_count.1 m.expected_perm l
  simp only [List.count_append] at hp
  have hle := m.family.count_expected_le l
  constructor
  · intro hl
    by_cases hk : l ∈ p.kidLinks
    · exact .inl hk
    · have hu : l ∉ consumed := fun hu =>
        m.not_owned_of_consumed hu (by simp) (Family.parent_mem_owned hl)
      have hpos := List.count_pos_iff.2 hl
      have hk0 := List.count_eq_zero.2 hk
      exact .inr ⟨List.count_pos_iff.1 (by omega), hu⟩
  · rintro (hk | ⟨hl, hu⟩)
    · have hu : l ∉ consumed := fun hu => by
        have hmem := Family.mem_expected_of_awaits root m.part_mem (m.consumes l hu).1
        have hb := m.family.below _ (Family.parent_mem_owned hmem)
        exact absurd hb (Nat.not_lt.2 (m.new_of_kid hk (by simp)))
      have hpos := List.count_pos_iff.2 hk
      have hu0 := List.count_eq_zero.2 hu
      exact List.count_pos_iff.1 (by omega)
    · have hpos := List.count_pos_iff.2 hl
      have hu0 := List.count_eq_zero.2 hu
      exact List.count_pos_iff.1 (by omega)

/-! ### Messages -/

/-- The link of the part that reacts is awaited before and after. -/
theorem link_mem_after : r.part.link ∈ r.after.expected root := by
  have hl := m.family.link_mem m.part_mem
  exact m.mem_expected_after.2 (.inr ⟨hl.1, fun hu => (m.consumes _ hu).2.1 hl.2⟩)

/-- A part that is done reports on its link; one that goes on orders others to stop. -/
theorem mem_sent {c : Channel} {msg : Message} (h : (c, msg) ∈ p.sent) :
    (p.heir = none ∧ c = r.part.home ∧ ∃ fault cs, msg = .completed fault cs) ∨
    ∃ u ∈ r.part.awaits, u ∈ r.after.expected root ∧
      (c = u.termination ∧ msg = .terminate ∨ u.control = some c ∧ msg = .stop) := by
  cases hQ : p.heir with
  | none =>
    obtain ⟨-, -, fault, cs, hs⟩ := m.yields.sent_of_heir_eq_none hQ
    rw [hs] at h
    cases List.mem_singleton.1 h
    exact .inl ⟨rfl, rfl, fault, cs, rfl⟩
  | some Q =>
    obtain ⟨u, hu, hu', ho⟩ := m.yields.sent_cases m.delivery m.part_sound hQ h
    exact .inr ⟨u, hu, Family.mem_expected_of_awaits root (m.mem_after.2 (.inl hQ)) hu', ho⟩

/-- Messages are sent to owned channels only. -/
theorem owned_of_sent {c : Channel} {msg : Message} (h : (c, msg) ∈ p.sent) :
    c ∈ soup.owned root ∧ c ∈ r.after.owned root := by
  rcases m.mem_sent h with ⟨-, rfl, -⟩ | ⟨u, hu, hu', ⟨rfl, -⟩ | ⟨hc, -⟩⟩
  · exact ⟨Family.parent_mem_owned (m.family.link_mem m.part_mem).1,
      Family.parent_mem_owned m.link_mem_after⟩
  · exact ⟨Family.termination_mem_owned (Family.mem_expected_of_awaits root m.part_mem hu),
      Family.termination_mem_owned hu'⟩
  · exact ⟨Family.control_mem_owned (Family.mem_expected_of_awaits root m.part_mem hu) hc,
      Family.control_mem_owned hu' hc⟩

/-- A closed channel was owned before and is not owned after. -/
theorem owned_of_closed {c : Channel} (h : c ∈ p.closed) :
    c ∈ soup.owned root ∧ c ∉ r.after.owned root := by
  rcases m.yields.closed_cases m.delivery m.part_sound h with ht | ⟨u, hu, hc⟩
  · exact ⟨Family.timer_mem_owned (Family.mem_awaitedTimers m.part_mem ht),
      m.not_owned_of_timer ht⟩
  · have hc : c ∈ u.channels := by rcases hc with rfl | hc <;> simp [*]
    exact ⟨Family.mem_owned (Family.mem_expected_of_awaits root m.part_mem (m.consumes u hu).1) hc,
      m.not_owned_of_consumed hu hc⟩

theorem isClosed_before (c : Channel) : r.before.isClosed c = soup.isClosed c := by
  rw [m.gives.frame]
  rfl

theorem isClosed_after (c : Channel) :
    r.after.isClosed c = (decide (c ∈ p.closed) || soup.isClosed c) := by
  rw [m.after, Products.isClosed_addTo, m.isClosed_before]

theorem unclosed_after {c : Channel} (hc : c ∈ r.after.owned root) :
    r.after.isClosed c = false := by
  rw [m.isClosed_after, Bool.or_eq_false_iff]
  refine ⟨decide_eq_false fun h => (m.owned_of_closed h).2 hc, ?_⟩
  rcases m.mem_owned_after hc with hn | hn
  · by_contra hne
    exact absurd (m.family.closed_below c (by simpa using hne)) (Nat.not_lt.2 hn.1)
  · exact m.family.unclosed c hn

/-- The messages on an owned channel: those that are left, then those that are sent. -/
theorem queue_after {c : Channel} (hc : c ∈ r.after.owned root) :
    r.after.queue c = r.before.queue c ++ Soup.addressed p.sent c := by
  have ho := m.unclosed_after hc
  rw [m.isClosed_after, Bool.or_eq_false_iff] at ho
  rw [m.after, Products.queue_addTo, if_neg (by simpa using ho.1), m.isClosed_before, ho.2]
  rfl

/-- A message that waits after a move waited before, or was sent. -/
theorem mem_queue_after {c : Channel} {msg : Message} (h : msg ∈ r.after.queue c) :
    msg ∈ r.before.queue c ∨ (c, msg) ∈ p.sent := by
  rw [m.after, Products.queue_addTo] at h
  split at h
  · cases h
  · split at h
    · exact .inl h
    · exact (List.mem_append.1 h).imp_right Soup.mem_addressed.1

theorem mem_queue_of_before {c : Channel} {msg : Message} (h : msg ∈ r.before.queue c) :
    msg ∈ soup.queue c := by
  rw [m.gives.queue c]
  exact List.mem_append_right _ h

/-- Nothing waits on a new channel. -/
theorem queue_after_new {c : Nat} (hc : soup.nextChannel ≤ c) : r.after.queue c = [] := by
  apply List.eq_nil_iff_forall_not_mem.2
  intro msg hm
  rcases m.mem_queue_after hm with h | h
  · have hne : soup.queue c ≠ [] := List.ne_nil_of_mem (m.mem_queue_of_before h)
    exact absurd (m.family.queue_below c hne) (Nat.not_lt.2 hc)
  · exact absurd (m.family.below c (m.owned_of_sent h).1) (Nat.not_lt.2 hc)

/-- The report on a link that is used up is what was taken. -/
theorem taken_of_consumed {u : Link} (hu : u ∈ consumed) {msg : Message}
    (hm : msg ∈ soup.queue u.parent) : r.taken = some (u.parent, msg) := by
  rw [m.gives.queue u.parent, (m.consumes u hu).2.2, List.append_nil] at hm
  exact Soup.mem_addressed_toList.1 hm

/-- Nothing but its report is taken from the parent channel of a link. -/
theorem queue_before_parent {l : Link} (hl : l ∈ soup.expected root) (hu : l ∉ consumed) :
    r.before.queue l.parent = soup.queue l.parent := by
  rw [m.gives.queue l.parent]
  have hnil : Soup.addressed r.taken.toList l.parent = [] := by
    rw [Soup.addressed_eq_nil_iff]
    intro msg ht
    replace ht := Option.mem_toList.1 ht
    have hP := (m.family.link_mem m.part_mem).1
    have hd := m.delivery
    generalize hc : l.parent = c at ht
    rw [ht] at hd
    cases hd with
    | report hv =>
      have hv := Family.mem_expected_of_awaits root m.part_mem hv
      exact hu (List.mem_singleton.2 (m.family.parent_inj hl hv hc))
    | event ht =>
      exact m.family.timer_ne hl (by simp [hc]) (Family.mem_awaitedTimers m.part_mem ht)
    | stop ho => exact m.family.parent_ne_order hl hP (.inr ho) hc
    | terminate ho => exact m.family.parent_ne_order hl hP (.inl ho) hc
  rw [hnil]
  rfl

/-- Reports on a link come from its part. -/
theorem queue_after_parent {l : Link} (hl : l ∈ r.after.expected root) (hne : l ≠ r.part.link) :
    r.after.queue l.parent = r.before.queue l.parent := by
  rw [m.queue_after (Family.parent_mem_owned hl)]
  have hnil : Soup.addressed p.sent l.parent = [] := by
    rw [Soup.addressed_eq_nil_iff]
    intro msg hm
    have ho := (m.owned_of_sent hm).1
    rcases m.mem_expected_after.1 hl with hk | ⟨hl, -⟩
    · exact absurd (m.family.below _ ho) (Nat.not_lt.2 (m.new_of_kid hk (by simp)))
    · rcases m.mem_sent hm with ⟨-, hc, -⟩ | ⟨u, hu, -, ho⟩
      · exact hne (m.family.parent_inj hl (m.family.link_mem m.part_mem).1 hc)
      · have hu := Family.mem_expected_of_awaits root m.part_mem hu
        refine m.family.parent_ne_order hl hu ?_ rfl
        exact ho.imp And.left And.left
  rw [hnil, List.append_nil]

end Move

end Perdure
