import Perdure.Proofs.Instance.Move

/-!
# Families persist

A family stays a family: under every reduction, whatever messages the outside may send, and when
its effects are handed over.

## Main definitions

* `Script.rootRun` — the run of the root activity.

## Main results

* `Family.reduce` — a reduction of a family leaves a family.
* `Family.send` — so does a message from outside.
* `Family.newSoup` — a new instance is a family.
-/

namespace Perdure

/-- The run of the root activity. -/
def Script.rootRun (s : Script) : Run :=
  { id := 1, activity := s.definition.root, termination := 1, parent := 2 }

/-- A new instance has one part. -/
theorem Script.mem_parts_newSoup {s : Script} {P : Part} :
    P ∈ s.newSoup.parts ↔ P = .ready (.activity s.rootRun) := List.mem_singleton

variable {s : Script} {now : Instant} {root : Link} {soup : InstanceSoup}

namespace Move

variable {r : Reduction} {p : Products} {consumed : List Link}
  (m : Move s now root soup r p consumed)

include m

/-! ### Reductions -/

theorem sound_after {Q : Part} (hQ : Q ∈ r.after.parts) : Q.Sound s := by
  rcases m.mem_after.1 hQ with hQ | ⟨t, ht, rfl⟩ | hQ
  · exact m.yields.sound m.delivery m.part_sound hQ
  · exact m.yields.kid_sound ht
  · exact m.family.sound Q (m.mem_of_before hQ)

theorem below_after (c : Nat) (hc : c ∈ r.after.owned root) : c < r.after.nextChannel := by
  rw [m.nextChannel_after]
  rcases m.mem_owned_after hc with hn | hn
  · exact hn.2
  · have := m.family.below c hn
    omega

theorem closed_below_after (c : Nat) (hc : r.after.isClosed c = true) :
    c < r.after.nextChannel := by
  rw [m.nextChannel_after]
  rw [m.isClosed_after, Bool.or_eq_true, decide_eq_true_eq] at hc
  have hlt : c < soup.nextChannel := hc.elim (fun h => m.family.below c (m.owned_of_closed h).1)
    (m.family.closed_below c)
  omega

theorem queue_below_after (c : Nat) (hc : r.after.queue c ≠ []) : c < r.after.nextChannel := by
  rw [m.nextChannel_after]
  have hlt : c < soup.nextChannel := by
    by_contra hge
    exact hc (m.queue_after_new (Nat.not_lt.1 hge))
  omega

/-- The links of parts after a move, counted. -/
theorem count_links_after (l : Link) : r.after.links.count l =
    (p.heir.toList.map Part.link).count l + p.kidLinks.count l + r.before.links.count l := by
  have hp := (m.parts_after.map Part.link).count_eq l
  have hk : (p.kids.map Part.ready).map Part.link = p.kidLinks := by
    rw [List.map_map]
    rfl
  rw [Products.parts, List.map_append, List.map_append, hk, List.count_append,
    List.count_append] at hp
  unfold Soup.links
  omega

theorem count_links_before (l : Link) :
    soup.links.count l = [r.part.link].count l + r.before.links.count l := by
  have hp := (m.gives.parts.map Part.link).count_eq l
  rw [List.map_cons, List.count_cons] at hp
  rw [List.count_singleton]
  unfold Soup.links
  omega

/-- The link of another part is another link. -/
theorem link_ne_of_before {Q : Part} (hQ : Q ∈ r.before.parts) : Q.link ≠ r.part.link := by
  intro he
  have hc := m.count_links_before r.part.link
  have hpos : 0 < r.before.links.count r.part.link :=
    List.count_pos_iff.2 (he ▸ List.mem_map_of_mem hQ)
  have hA := m.family.alive r.part.link
  have hle := m.family.count_expected_le r.part.link
  rw [if_pos (m.family.link_mem m.part_mem).2] at hA
  rw [List.count_singleton_self] at hc
  omega

/-- The report on the link of a part that is done, and on no other. -/
theorem queue_after_home : r.after.queue r.part.home = [] ∧ p.heir ≠ none ∨
    (∃ fault cs, r.after.queue r.part.home = [.completed fault cs]) ∧ p.heir = none := by
  have hl := m.family.link_mem m.part_mem
  have hu : r.part.link ∉ consumed := fun hu => (m.consumes _ hu).2.1 hl.2
  have hb : r.before.queue r.part.home = [] := (m.queue_before_parent hl.1 hu).trans hl.2
  have ha := m.queue_after (Family.parent_mem_owned m.link_mem_after)
  cases hQ : p.heir with
  | none =>
    obtain ⟨-, -, fault, cs, hs⟩ := m.yields.sent_of_heir_eq_none hQ
    refine .inr ⟨⟨fault, cs, ?_⟩, rfl⟩
    rw [ha, hb, hs]
    simp [Soup.addressed]
  | some Q =>
    refine .inl ⟨?_, by simp⟩
    rw [ha, hb]
    -- a part that goes on gives orders only, and none of them to its own parent channel
    apply Soup.addressed_eq_nil_iff.2
    intro msg hm
    rcases m.mem_sent hm with ⟨hn, -⟩ | ⟨u, hv, -, ho⟩
    · rw [hQ] at hn
      cases hn
    · have hv := Family.mem_expected_of_awaits root m.part_mem hv
      exact m.family.parent_ne_order hl.1 hv (ho.imp And.left And.left) rfl

theorem count_heir (l : Link) (hne : l ≠ r.part.link) :
    (p.heir.toList.map Part.link).count l = 0 := by
  apply List.count_eq_zero.2
  intro hl
  obtain ⟨Q, hQ, rfl⟩ := List.mem_map.1 hl
  exact hne (m.yields.heir_link (Option.mem_toList.1 hQ))

/-- What is awaited is not new. -/
theorem count_kidLinks {l : Link} (hl : l ∈ soup.expected root) : p.kidLinks.count l = 0 := by
  apply List.count_eq_zero.2
  intro hk
  have hb := m.family.below _ (Family.parent_mem_owned hl)
  exact absurd hb (Nat.not_lt.2 (m.new_of_kid hk (by simp)))

/-- The links of parts are again those that are awaited and on which nothing is reported. -/
theorem alive_after (l : Link) : r.after.links.count l =
    if r.after.queue l.parent = [] then (r.after.expected root).count l else 0 := by
  have hE := m.expected_perm.count_eq l
  rw [List.count_append, List.count_append] at hE
  have hL' := m.count_links_after l
  have hL := m.count_links_before l
  have hA := m.family.alive l
  have hle := m.family.count_expected_le l
  -- the link of the part that reacts either passes to the heir or gets its report
  by_cases hP : l = r.part.link
  · subst hP
    obtain ⟨hmem, hq⟩ := m.family.link_mem m.part_mem
    have hK := m.count_kidLinks hmem
    have hC : consumed.count r.part.link = 0 :=
      List.count_eq_zero.2 fun hu => (m.consumes _ hu).2.1 hq
    have hpos := List.count_pos_iff.2 hmem
    rw [if_pos hq] at hA
    rw [List.count_singleton_self] at hL
    rcases m.queue_after_home with ⟨hq', hQ⟩ | ⟨⟨fault, cs, hq'⟩, hQ⟩
    · obtain ⟨Q, hQ⟩ := Option.ne_none_iff_exists'.1 hQ
      have hH : (p.heir.toList.map Part.link).count r.part.link = 1 := by
        simp [hQ, m.yields.heir_link hQ]
      rw [if_pos hq']
      omega
    · have hH : (p.heir.toList.map Part.link).count r.part.link = 0 := by simp [hQ]
      rw [if_neg (by simp [hq'])]
      omega
  · have hH := m.count_heir l hP
    have h0 : [r.part.link].count l = 0 := List.count_eq_zero.2 (by simpa using hP)
    by_cases hl : l ∈ r.after.expected root
    · rw [m.queue_after_parent hl hP]
      rcases m.mem_expected_after.1 hl with hk | ⟨hl', hu⟩
      · -- a link that was just started
        have hnew := m.new_of_kid hk (c := l.parent) (by simp)
        have hq := m.queue_after_new hnew
        rw [m.queue_after_parent hl hP] at hq
        have hE0 : (soup.expected root).count l = 0 := by
          have hpos := List.count_pos_iff.2 hk
          by_contra hne
          have := m.count_kidLinks (List.count_pos_iff.1 (Nat.pos_of_ne_zero hne))
          omega
        have hC : consumed.count l = 0 := List.count_eq_zero.2 fun hu => by
          have hmem := Family.mem_expected_of_awaits root m.part_mem (m.consumes l hu).1
          have := List.count_pos_iff.2 hmem
          omega
        rw [hE0, ite_self] at hA
        rw [if_pos hq]
        omega
      · -- a link that was awaited before
        have hK := m.count_kidLinks hl'
        have hC := List.count_eq_zero.2 hu
        rw [m.queue_before_parent hl' hu]
        split
        · next hq => rw [if_pos hq] at hA; omega
        · next hq => rw [if_neg hq] at hA; omega
    · -- a link that is not awaited any more, or never was
      have hE0 := List.count_eq_zero.2 hl
      have hK : p.kidLinks.count l = 0 :=
        List.count_eq_zero.2 fun hk => hl (m.mem_expected_after.2 (.inl hk))
      have hL0 : soup.links.count l = 0 := by
        rw [hA]
        split
        · next hq =>
          refine List.count_eq_zero.2 fun hl' => hl (m.mem_expected_after.2 (.inr ⟨hl', ?_⟩))
          exact fun hu => (m.consumes l hu).2.1 hq
        · rfl
      rw [hE0, ite_self]
      omega

theorem report_after {l : Link} (hl : l ∈ r.after.expected root) :
    r.after.queue l.parent = [] ∨ ∃ fault cs, r.after.queue l.parent = [.completed fault cs] := by
  by_cases hP : l = r.part.link
  · subst hP
    rcases m.queue_after_home with ⟨hq, -⟩ | ⟨hq, -⟩
    · exact .inl hq
    · exact .inr hq
  · rcases m.mem_expected_after.1 hl with hk | ⟨hl', hu⟩
    · exact .inl (m.queue_after_new (m.new_of_kid hk (by simp)))
    · rw [m.queue_after_parent hl hP, m.queue_before_parent hl' hu]
      exact m.family.report l hl'

theorem termination_after {l : Link} (hl : l ∈ r.after.expected root) {msg : Message}
    (hm : msg ∈ r.after.queue l.termination) : msg = .terminate := by
  rcases m.mem_expected_after.1 hl with hk | ⟨hl', -⟩
  · rw [m.queue_after_new (m.new_of_kid hk (by simp))] at hm
    cases hm
  · rcases m.mem_queue_after hm with hb | hs
    · exact m.family.termination l hl' msg (m.mem_queue_of_before hb)
    · rcases m.mem_sent hs with ⟨-, hc, -⟩ | ⟨u, hu, -, ⟨-, rfl⟩ | ⟨hc, -⟩⟩
      · exact absurd hc.symm
          (m.family.parent_ne_order (m.family.link_mem m.part_mem).1 hl' (.inl rfl))
      · rfl
      · have hu := Family.mem_expected_of_awaits root m.part_mem hu
        exact absurd rfl (m.family.termination_ne_control hl' hu hc)

theorem control_after {l : Link} (hl : l ∈ r.after.expected root) {c : Channel}
    (hc : l.control = some c) {msg : Message} (hm : msg ∈ r.after.queue c) : msg = .stop := by
  rcases m.mem_expected_after.1 hl with hk | ⟨hl', -⟩
  · rw [m.queue_after_new (m.new_of_kid hk (by simp [hc]))] at hm
    cases hm
  · rcases m.mem_queue_after hm with hb | hs
    · exact m.family.control l hl' c hc msg (m.mem_queue_of_before hb)
    · rcases m.mem_sent hs with ⟨-, hc', -⟩ | ⟨u, hu, -, ⟨hc', -⟩ | ⟨-, rfl⟩⟩
      · exact absurd hc'.symm
          (m.family.parent_ne_order (m.family.link_mem m.part_mem).1 hl' (.inr hc))
      · have hu := Family.mem_expected_of_awaits root m.part_mem hu
        exact absurd hc'.symm (m.family.termination_ne_control hu hl' hc)
      · rfl

/-! ### Timers -/

/-- A timer that is awaited after a move is new, or another part awaited it before. -/
theorem mem_awaitedTimers_after {t : Channel} (ht : t ∈ r.after.awaitedTimers) :
    p.timer = some t ∨ t ∈ soup.awaitedTimers := by
  have hm := m.timers_perm.mem_iff.1 (List.mem_append_right _ ht)
  exact (List.mem_append.1 hm).imp_left Option.mem_toList.1

/-- A timer that is awaited stays awaited, unless the part that awaits it reacts. -/
theorem mem_awaitedTimers_of {t : Channel} (ht : t ∈ soup.awaitedTimers) :
    r.part.timer = some t ∨ t ∈ r.after.awaitedTimers := by
  have hm := m.timers_perm.mem_iff.2 (List.mem_append_right _ ht)
  exact (List.mem_append.1 hm).imp_left Option.mem_toList.1

/-- Nobody sends to a timer. -/
theorem not_sent_of_timer {t : Channel} (ht : t ∈ soup.awaitedTimers) (msg : Message) :
    (t, msg) ∉ p.sent := by
  intro hs
  rcases m.mem_sent hs with ⟨-, rfl, -⟩ | ⟨u, hu, -, ho⟩
  · exact m.family.timer_ne (m.family.link_mem m.part_mem).1 (by simp) ht
  · have hu := Family.mem_expected_of_awaits root m.part_mem hu
    refine m.family.timer_ne hu ?_ ht
    rcases ho with ⟨rfl, -⟩ | ⟨hc, -⟩
    · simp
    · simp [hc]

theorem event_after {t : Channel} (ht : t ∈ r.after.awaitedTimers) {msg : Message}
    (hm : msg ∈ r.after.queue t) : msg = .timeout ∨ msg = .timerCancelled := by
  rcases m.mem_awaitedTimers_after ht with hn | ho
  · rw [m.queue_after_new (m.new_of_timer hn)] at hm
    cases hm
  · rcases m.mem_queue_after hm with hb | hs
    · exact m.family.event t ho msg (m.mem_queue_of_before hb)
    · exact absurd hs (m.not_sent_of_timer ho msg)

/-- The timer that is armed after a move: the new one, or one that was armed before and is not that
of the part that reacted. -/
theorem get?_timers_after {t : Channel} {d : Instant} (h : r.after.timers.get? t = some d) :
    p.armed = some (t, d) ∨ soup.timers.get? t = some d ∧ r.part.timer ≠ some t := by
  rw [m.after, Products.get?_timers_addTo] at h
  split at h
  · cases h
  have hd : (p.disarm r.before).timers.get? t = some d →
      soup.timers.get? t = some d ∧ r.part.timer ≠ some t := by
    intro hd
    rw [Products.get?_timers_disarm] at hd
    split at hd
    · cases hd
    · next hc =>
      have hs : soup.timers.get? t = some d := by
        rw [m.gives.frame] at hd
        exact hd
      refine ⟨hs, ?_⟩
      intro ht
      rcases m.yields.timer_cancelled m.delivery ht with hc' | ⟨msg, hm⟩
      · exact hc hc'
      · have hq := m.gives.queue t
        rw [hm, (m.family.armed t d hs).2] at hq
        simp [Soup.addressed] at hq
  split at h
  · next c d' ha =>
    split at h
    · next hc =>
      cases h
      subst hc
      exact .inl ha
    · exact .inr (hd h)
  · exact .inr (hd h)

/-- A new timer is awaited. -/
theorem mem_awaitedTimers_of_new {t : Channel} (ht : p.timer = some t) :
    t ∈ r.after.awaitedTimers := by
  have hm := m.timers_perm.mem_iff.2 (List.mem_append_left _ (Option.mem_toList.2 ht))
  rcases List.mem_append.1 hm with hm | hm
  · have hold := Family.mem_awaitedTimers m.part_mem (Option.mem_toList.1 hm)
    have hb := m.family.timer_below hold
    exact absurd hb (Nat.not_lt.2 (m.new_of_timer ht))
  · exact hm

theorem armed_after {t : Channel} {d : Instant} (h : r.after.timers.get? t = some d) :
    t ∈ r.after.awaitedTimers ∧ r.after.queue t = [] := by
  rcases m.get?_timers_after h with ha | ⟨hs, hne⟩
  · have ht : p.timer = some t := by
      rw [← m.yields.armed_eq, ha]
      rfl
    exact ⟨m.mem_awaitedTimers_of_new ht, m.queue_after_new (m.new_of_timer ht)⟩
  · obtain ⟨ht, hq⟩ := m.family.armed t d hs
    refine ⟨(m.mem_awaitedTimers_of ht).resolve_left hne, ?_⟩
    apply List.eq_nil_iff_forall_not_mem.2
    intro msg hm
    rcases m.mem_queue_after hm with hb | hs
    · have hb := m.mem_queue_of_before hb
      rw [hq] at hb
      cases hb
    · exact m.not_sent_of_timer ht msg hs

theorem elder_after {Q : Part} (hQ : Q ∈ r.after.parts) {u : Link} (hu : u ∈ Q.awaits) :
    Q.home < u.parent := by
  rcases m.mem_after.1 hQ with hheir | ⟨t, ht, rfl⟩ | hb
  · have hp := m.yields.awaits_perm m.delivery m.part_sound
    have hua : u ∈ p.awaits := by
      rw [Products.awaits, hheir]
      exact hu
    rw [m.yields.heir_home hheir]
    rcases List.mem_append.1 (hp.mem_iff.1 (List.mem_append_left _ hua)) with hu | hk
    · exact m.family.elder _ m.part_mem u hu
    · exact Nat.lt_of_lt_of_le (m.family.home_below m.part_mem) (m.new_of_kid hk (by simp))
  · have hnil : (Part.ready t).awaits = [] := m.yields.kid_awaits ht
    rw [hnil] at hu
    cases hu
  · exact m.family.elder Q (m.mem_of_before hb) u hu

/-- A move leaves a family. -/
theorem family_after : Family s root r.after where
  regular := by
    rw [m.after]
    exact Soup.regular_addTo m.gives.regular p
  sound _ hQ := m.sound_after hQ
  nodup := (List.nodup_append.1 m.owned_nodup).2.1
  below := m.below_after
  unclosed _ hc := m.unclosed_after hc
  closed_below := m.closed_below_after
  queue_below := m.queue_below_after
  alive := m.alive_after
  report _ hl := m.report_after hl
  termination _ hl _ hm := m.termination_after hl hm
  control _ hl _ hc _ hm := m.control_after hl hc hm
  event _ ht _ hm := m.event_after ht hm
  armed _ _ h := m.armed_after h
  elder _ hQ _ hu := m.elder_after hQ hu

end Move

namespace Family

/-- A reduction of a family leaves a family. -/
theorem reduce (h : Family s root soup) {r : Reduction}
    (hr : s.reduction? now soup = .ok (some r)) : Family s root r.after := by
  obtain ⟨p, consumed, m⟩ := h.exists_move hr
  exact m.family_after

/-! ### The outside -/

/-- What the outside may send to a family: an event of a timer that is awaited, anything on a
channel that is closed, and the order to stop to the root part. -/
def Accepts (root : Link) (soup : InstanceSoup) (c : Channel) (msg : Message) : Prop :=
  soup.isClosed c = true ∨
    c ∈ soup.awaitedTimers ∧ (msg = .timeout ∨ msg = .timerCancelled) ∨
    c = root.termination ∧ msg = .terminate

/-- The outside reports nothing. -/
theorem queue_send_parent (h : Family s root soup) {c : Channel} {msg : Message}
    (ha : Accepts root soup c msg) {l : Link} (hl : l ∈ soup.expected root) :
    (soup.send c msg).queue l.parent = soup.queue l.parent := by
  rw [Soup.queue_send]
  apply if_neg
  rintro ⟨he, hopen⟩
  rcases ha with hc | ⟨ht, -⟩ | ⟨hr, -⟩
  · rw [hopen] at hc
    cases hc
  · exact h.timer_ne hl (by simp [he]) ht
  · exact h.parent_ne_order hl (List.mem_cons_self (l := soup.awaited)) (.inl rfl) (he.trans hr)

/-- What the outside sends to a channel that is open, it sends to a timer or to the root part. -/
theorem owned_of_accepts {c : Channel} {msg : Message} (ha : Accepts root soup c msg)
    (hopen : soup.isClosed c = false) : c ∈ soup.owned root := by
  rcases ha with hc | ⟨ht, -⟩ | ⟨rfl, -⟩
  · rw [hopen] at hc
    cases hc
  · exact timer_mem_owned ht
  · exact termination_mem_owned (List.mem_cons_self (l := soup.awaited))

/-- On the channel of a link, the outside sends nothing but the order to the root part. -/
theorem root_of_accepts (h : Family s root soup) {c : Channel} {msg : Message}
    (ha : Accepts root soup c msg) (hopen : soup.isClosed c = false) {l : Link}
    (hl : l ∈ soup.expected root) (hc : c ∈ l.channels) :
    c = root.termination ∧ msg = .terminate := by
  rcases ha with hclosed | ⟨ht, -⟩ | hr
  · rw [hopen] at hclosed
    cases hclosed
  · exact absurd ht (h.timer_ne hl hc)
  · exact hr

/-- A message from outside leaves a family. -/
theorem send (h : Family s root soup) {c : Channel} {msg : Message}
    (ha : Accepts root soup c msg) : Family s root (soup.send c msg) := by
  have hroot : root ∈ soup.expected root := List.mem_cons_self
  have hnext : (soup.send c msg).nextChannel = soup.nextChannel := by rw [Soup.send_frame]
  refine
    { regular := ?_, sound := ?_, nodup := ?_, below := ?_, unclosed := ?_, closed_below := ?_
      queue_below := ?_, alive := ?_, report := ?_, termination := ?_, control := ?_, event := ?_
      armed := ?_, elder := ?_ }
  · rw [Soup.send_frame]
    exact h.regular
  · rw [soup.parts_send]
    exact h.sound
  · rw [soup.owned_send]
    exact h.nodup
  · rw [soup.owned_send, hnext]
    exact h.below
  · intro q hm
    rw [soup.owned_send] at hm
    rw [Soup.isClosed_send]
    exact h.unclosed q hm
  · intro q hm
    rw [Soup.isClosed_send] at hm
    rw [hnext]
    exact h.closed_below q hm
  · intro q hm
    rw [hnext]
    obtain ⟨n, hn⟩ := List.exists_mem_of_ne_nil _ hm
    rcases Soup.mem_queue_send hn with hn | ⟨rfl, hopen, -⟩
    · exact h.queue_below q (List.ne_nil_of_mem hn)
    · exact h.below q (owned_of_accepts ha hopen)
  · intro l
    have hal := h.alive l
    rw [Soup.links, soup.parts_send, soup.expected_send]
    by_cases hl : l ∈ soup.expected root
    · rw [h.queue_send_parent ha hl]
      exact hal
    · -- whatever is sent, a link that nobody awaits has no part
      rw [List.count_eq_zero.2 hl, ite_self] at hal ⊢
      exact hal
  · intro l hl
    rw [soup.expected_send] at hl
    rw [h.queue_send_parent ha hl]
    exact h.report l hl
  · intro l hl n hn
    rw [soup.expected_send] at hl
    rcases Soup.mem_queue_send hn with hn | ⟨hc, hopen, rfl⟩
    · exact h.termination l hl n hn
    · exact (h.root_of_accepts ha hopen hl (by simp [← hc])).2
  · intro l hl q hctl n hn
    rw [soup.expected_send] at hl
    rcases Soup.mem_queue_send hn with hn | ⟨rfl, hopen, -⟩
    · exact h.control l hl q hctl n hn
    · have hr := (h.root_of_accepts ha hopen hl (by simp [hctl])).1
      exact absurd hr.symm (h.termination_ne_control hroot hl hctl)
  · intro t ht n hn
    rw [soup.awaitedTimers_send] at ht
    rcases Soup.mem_queue_send hn with hn | ⟨rfl, hopen, rfl⟩
    · exact h.event t ht n hn
    · rcases ha with hc | ⟨-, hm⟩ | ⟨hr, -⟩
      · rw [hopen] at hc
        cases hc
      · exact hm
      · exact absurd ht (h.timer_ne hroot (by simp [hr]))
  · intro t d ht
    -- the message disarms the timer of its channel, so that a timer still armed has no message
    rw [Soup.get?_timers_send] at ht
    rw [soup.awaitedTimers_send, Soup.queue_send]
    split at ht
    · cases ht
    · next hne =>
      rw [if_neg hne]
      exact h.armed t d ht
  · rw [soup.parts_send]
    exact h.elder

/-- Handing over effects leaves a family. -/
theorem drain (h : Family s root soup) : Family s root soup.drainEffects.2 :=
  ⟨h.regular, h.sound, h.nodup, h.below, h.unclosed, h.closed_below, h.queue_below, h.alive,
    h.report, h.termination, h.control, h.event, h.armed, h.elder⟩

/-- A new instance is a family. -/
theorem newSoup (s : Script) : Family s { parent := 2, termination := 1 } s.newSoup := by
  have hq (c : Channel) : s.newSoup.queue c = [] := rfl
  have hparts {P : Part} := Script.mem_parts_newSoup (s := s) (P := P) |>.1
  exact
    { regular := rfl
      sound := fun P hP => hparts hP ▸ True.intro
      nodup := (by decide : ([2, 1] : List Nat).Nodup)
      below := fun c hc => (by decide : ∀ c ∈ ([2, 1] : List Nat), c < 3) c hc
      unclosed := fun _ _ => rfl
      closed_below := fun _ h => nomatch h
      queue_below := fun c h => absurd (hq c) h
      alive := fun l => (if_pos (hq l.parent)).symm
      report := fun l _ => .inl (hq l.parent)
      termination := fun l _ m hm => nomatch hm
      control := fun l _ c _ m hm => nomatch hm
      event := fun t ht => nomatch ht
      armed := fun _ _ h => nomatch h
      elder := fun P hP u hu => by
        rw [hparts hP] at hu
        cases hu }

end Family

end Perdure
