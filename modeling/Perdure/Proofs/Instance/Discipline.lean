import Perdure.Proofs.Instance.Names

/-!
# Channel discipline

Channels and numbers are handed out once and never again.  A channel has one reader for life: the
parts that ever listen on it, or keep it to listen on, work one after another for the same activity
or alarm.  While somebody listens on a channel it is open; after it is closed nothing waits on it.

## Main definitions

* `Soup.Filled` — no empty queue is kept.
* `Course.Named` — the names in a course were handed out.
* `Course.Reserved` — channels are kept for parts of one link.
* `Course.Disciplined` — the rules for channels and numbers.

## Main results

* `Script.Driven.names_below` — every name anywhere in a soup was handed out.
* `Script.Driven.reserved` — a channel has one reader for life.
* `Script.WellDriven.keeps_discipline` — every course is disciplined, between any two reductions.
-/

namespace Perdure

/-! ### Queues -/

namespace Soup

variable {γ π η μ : Type}

/-- No empty queue is kept. -/
def Filled (s : Soup γ π η μ) : Prop := ∀ c, s.messages.get? c ≠ some []

theorem filled_send {s : Soup γ π η μ} (h : s.Filled) (c : Channel) (m : μ) :
    (s.send c m).Filled := by
  intro q
  unfold send
  split
  · exact h q
  · rw [Table.get?_insert]
    split
    · simp
    · exact h q

theorem filled_sendEach {s : Soup γ π η μ} (h : s.Filled) (ms : List (Channel × μ)) :
    (s.sendEach ms).Filled := by
  induction ms generalizing s with
  | nil => exact h
  | cons e ms ih => exact ih (filled_send h e.1 e.2)

theorem filled_close {s : Soup γ π η μ} (h : s.Filled) (c : Channel) : (s.close c).Filled := by
  intro q
  unfold close
  rw [Table.get?_erase]
  split
  · exact nofun
  · exact h q

theorem filled_closeEach {s : Soup γ π η μ} (h : s.Filled) (cs : List Channel) :
    (s.closeEach cs).Filled := by
  induction cs generalizing s with
  | nil => exact h
  | cons c cs ih => exact ih (filled_close h c)

/-- When the last message of a queue is taken, the queue goes. -/
theorem filled_of_pick? {s : InstanceSoup} (h : s.Filled) {P : Part}
    {taken : Option (Channel × Message)} {rest : InstanceSoup}
    (hp : s.pick? = some (P, taken, rest)) : rest.Filled := by
  unfold pick? at hp
  split at hp
  · next t rest' ht =>
    cases hp
    unfold takeRunnable? at ht
    split at ht
    · cases ht
    · cases ht
      exact h
  · obtain ⟨⟨a, m, rest'⟩, hm, he⟩ := Option.map_eq_some_iff.1 hp
    cases he
    obtain ⟨left, -, hleft⟩ := messages_of_takeMatch? hm
    intro q
    rw [hleft, withoutOldest]
    cases left with
    | nil =>
      show (s.messages.erase a.channel).get? q ≠ some []
      rw [Table.get?_erase]
      split
      · exact (Option.some_ne_none []).symm
      · exact h q
    | cons n left =>
      rw [if_neg (by simp), Table.get?_insert]
      split
      · simp
      · exact h q

/-- What waits under a key is the queue of its channel. -/
theorem Filled.queue_ne_nil {s : Soup γ π η μ} (h : s.Filled) {e : Channel × List μ}
    (he : e ∈ s.messages.entries) : s.queue e.1 = e.2 ∧ e.2 ≠ [] := by
  have hget := Table.mem_entries_iff.1 he
  refine ⟨by rw [queue, hget]; rfl, fun hnil => h e.1 ?_⟩
  rw [hget, hnil]

end Soup

theorem Products.filled_addTo {s : InstanceSoup} (h : s.Filled) (p : Products) :
    (p.addTo s).Filled := by
  have harmed : (p.arm ((p.disarm (p.takeNames s)).closeEach p.closed)).Filled := by
    rw [Soup.Filled, arm_frame]
    apply Soup.filled_closeEach
    rw [Soup.Filled, disarm_frame]
    exact h
  rw [Soup.Filled, addTo_eq, populate_eq]
  exact Soup.filled_sendEach harmed p.sent

/-! ### Names in a course -/

/-- A name that was handed out stays so. -/
theorem Name.Below.mono {s t : InstanceSoup} {x : Name} (h : x.Below s)
    (hc : s.nextChannel ≤ t.nextChannel) (hi : s.nextMonotonic ≤ t.nextMonotonic) : x.Below t := by
  cases x with
  | channel c => exact Nat.lt_of_lt_of_le h hc
  | number i => exact Nat.lt_of_lt_of_le h hi

theorem Name.below_send {s : InstanceSoup} {x : Name} (h : x.Below s) (c : Channel) (m : Message) :
    x.Below (s.send c m) := by
  rw [Soup.send_frame]
  exact h.mono (Nat.le_refl _) (Nat.le_refl _)

namespace Move

variable {s : Script} {now : Instant} {root : Link} {soup : InstanceSoup} {r : Reduction}
  {p : Products} {consumed : List Link} (m : Move s now root soup r p consumed)

include m

theorem below_after_of_below {x : Name} (h : x.Below soup) : x.Below r.after :=
  h.mono (m.nextChannel_after ▸ Nat.le_add_right _ _) (m.nextMonotonic_after ▸ Nat.le_add_right _ _)

theorem below_after_of_new {x : Name} (h : x.New soup.nextChannel soup.nextMonotonic p) :
    x.Below r.after := by
  cases x with
  | channel c =>
    show c < (r.after.nextChannel : Nat)
    rw [m.nextChannel_after]
    exact h.2
  | number i =>
    show i < r.after.nextMonotonic
    rw [m.nextMonotonic_after]
    exact h.2

/-- Nothing waits on a closed channel, before and after. -/
theorem queue_after_closed (h : ∀ c, soup.isClosed c = true → soup.queue c = []) {c : Channel}
    (hc : r.after.isClosed c = true) : r.after.queue c = [] := by
  rw [m.isClosed_after, Bool.or_eq_true, decide_eq_true_eq] at hc
  rw [m.after, Products.queue_addTo]
  split
  · rfl
  · next hopen =>
    have hbefore : soup.isClosed c = true := hc.resolve_left hopen
    have hempty := h c hbefore
    rw [m.gives.queue c] at hempty
    rw [m.isClosed_before, hbefore, if_pos rfl]
    exact (List.append_eq_nil_iff.1 hempty).2

end Move

namespace Course

/-- The names in a course were handed out. -/
structure Named (s : Script) (c : Course) : Prop where
  shared : c.soup.global = s.newSoup.global
  parts : ∀ P ∈ c.soup.parts, ∀ x ∈ P.names, x.Below c.soup
  messages : ∀ ch, ∀ msg ∈ c.soup.queue ch, ∀ x ∈ msg.names, x.Below c.soup
  effects : ∀ e ∈ c.emitted, Name.Below c.soup (.channel e.channel)
  filled : c.soup.Filled
  /-- Nothing waits on a closed channel. -/
  silent : ∀ ch, c.soup.isClosed ch = true → c.soup.queue ch = []

namespace Named

variable {s : Script} {c : Course}

theorem start (s : Script) : Named s { soup := s.newSoup } where
  shared := rfl
  parts P hP x hx := by
    rw [Script.mem_parts_newSoup.1 hP] at hx
    have hall : ∀ x ∈ s.rootRun.names, x.Below s.newSoup := by
      intro x hx
      simp only [Run.names, List.mem_cons, List.not_mem_nil, or_false] at hx
      rcases hx with rfl | rfl | rfl
      · exact Nat.lt_succ_self 1
      · exact (by decide : 1 < 3)
      · exact Nat.lt_succ_self 2
    exact hall x hx
  messages _ _ h := nomatch h
  effects _ h := nomatch h
  filled _ := nofun
  silent _ _ := rfl

theorem inject (h : Named s c) {ch : Channel} {msg : Message} (ha : c.Admits ch msg) :
    Named s (c.inject [(ch, msg)]) where
  shared := by
    show (c.soup.send ch msg).global = _
    rw [Soup.send_frame]
    exact h.shared
  parts P hP x hx := Name.below_send (h.parts P (c.soup.parts_send ch msg ▸ hP) x hx) ch msg
  messages q n hn x hx := by
    rcases Soup.mem_queue_send hn with hn | ⟨-, -, rfl⟩
    · exact Name.below_send (h.messages q n hn x hx) ch msg
    · -- what the outside may send names nothing
      rcases ha with ⟨rfl | rfl, -⟩ | ⟨rfl, -⟩ <;> cases hx
  effects e he := Name.below_send (h.effects e (c.emitted_inject _ ▸ he)) ch msg
  filled := Soup.filled_send h.filled ch msg
  silent q hq := by
    have hclosed : c.soup.isClosed q = true := (Soup.isClosed_send c.soup ch q msg).symm.trans hq
    show (c.soup.send ch msg).queue q = []
    rw [Soup.queue_send, if_neg]
    · exact h.silent q hclosed
    · rintro ⟨rfl, hopen⟩
      rw [hclosed] at hopen
      cases hopen

theorem extend (h : Named s c) {now : Instant} {r : Reduction} {p : Products}
    {consumed : List Link} (hr : s.reduction? now c.soup = .ok (some r))
    (m : Move s now .root c.soup r p consumed) : Named s (c.extend r) := by
  have hold {x : Name} (hx : x ∈ r.part.names ∨ x ∈ heard r.taken) : x.Below r.after := by
    apply m.below_after_of_below
    rcases hx with hx | hx
    · exact h.parts _ m.part_mem x hx
    · obtain ⟨⟨ch, msg⟩, htaken, hx⟩ := List.mem_flatMap.1 hx
      refine h.messages ch msg ?_ x hx
      rw [m.gives.queue ch]
      exact List.mem_append_left _ (Soup.mem_addressed.2 htaken)
  refine ⟨?_, ?_, ?_, ?_, ?_, fun ch hc => m.queue_after_closed h.silent hc⟩
  · show r.after.global = _
    rw [m.after, Products.global_addTo, m.gives.frame]
    exact h.shared
  · intro P hP x hx
    rcases m.mem_after.1 hP with hQ | ⟨t, ht, rfl⟩ | hP
    · rcases m.yields.names_heir hQ hx with hx | hx | hx
      · exact hold (.inl hx)
      · exact hold (.inr hx)
      · exact m.below_after_of_new hx
    · rcases m.yields.names_kid ht hx with hx | hx
      · exact hold (.inl hx)
      · exact m.below_after_of_new hx
    · exact m.below_after_of_below (h.parts P (m.mem_of_before hP) x hx)
  · intro ch msg hm x hx
    rcases m.mem_queue_after hm with hm | hm
    · exact m.below_after_of_below (h.messages ch msg (m.mem_queue_of_before hm) x hx)
    · exact hold (m.yields.names_sent hm hx)
  · intro e he
    rcases m.mem_emitted_extend rfl he with he | ⟨t, ht, rfl⟩ | ⟨a, ha, rfl⟩
    · exact m.below_after_of_below (h.effects e he)
    · have htimer := Family.mem_awaitedTimers m.part_mem ht
      exact m.below_after_of_below (m.family.timer_below htimer)
    · have htimer : p.timer = some a.1 := by rw [← m.yields.armed_eq, ha]; rfl
      have hafter := m.mem_awaitedTimers_of_new htimer
      exact m.below_after _ (Family.timer_mem_owned hafter)
  · show r.after.Filled
    obtain ⟨hpick, q, -, hafter⟩ := Script.exists_products hr
    rw [hafter]
    exact Products.filled_addTo (Soup.filled_of_pick? h.filled hpick) q

theorem drain (h : Named s c) : Named s c.drain where
  shared := h.shared
  parts := h.parts
  messages := h.messages
  effects e he := h.effects e (c.emitted_drain ▸ he)
  filled := h.filled
  silent := h.silent

end Named

end Course

/-- The names in every course were handed out. -/
theorem Script.Driven.named {s : Script} {c : Course} (h : s.Driven c) : c.Named s := by
  induction h with
  | start _ => exact .start s
  | inject _ ha ih => exact ih.inject ha
  | reduce h hr ih =>
    obtain ⟨p, consumed, m⟩ := h.orderly.family.exists_move hr
    exact ih.extend hr m
  | drain _ ih => exact ih.drain

/-- **Every name anywhere in a soup was handed out.** -/
theorem Script.Driven.names_below {s : Script} {c : Course} (h : s.Driven c) :
    ∀ x ∈ c.soup.names, x.Below c.soup := by
  have hn := h.named
  have hf := h.orderly.family
  intro x hx
  simp only [Soup.names, List.mem_append] at hx
  rcases hx with (((((hx | hx) | hx) | hx) | hx) | hx) | hx
  · -- what all parts share: the channels of the root
    have hroot : Link.root ∈ c.soup.expected .root := List.mem_cons_self
    rw [hn.shared] at hx
    have hx : x ∈ [Name.channel 1, Name.channel 2] := hx
    rcases List.mem_pair.1 hx with rfl | rfl
    · exact hf.below 1 (Family.termination_mem_owned hroot)
    · exact hf.below 2 (Family.parent_mem_owned hroot)
  · obtain ⟨t, ht, hx⟩ := List.mem_flatMap.1 hx
    exact hn.parts (.ready t) (List.mem_append_left _ (List.mem_map_of_mem ht)) x hx
  · obtain ⟨a, ha, hx⟩ := List.mem_flatMap.1 hx
    rcases List.mem_cons.1 hx with rfl | hx
    · exact hf.below _ (hf.owned_of_arm (List.mem_map_of_mem ha))
    · obtain ⟨choice, hchoice, ha⟩ := List.mem_flatMap.1 ha
      have hP := (hf.regular.holds_iff (.waiting a.handler)).1 ⟨choice, hchoice, a, ha, rfl⟩
      exact hn.parts _ hP x hx
  · obtain ⟨e, he, hx⟩ := List.mem_flatMap.1 hx
    obtain ⟨hqueue, hne⟩ := hn.filled.queue_ne_nil he
    rcases List.mem_cons.1 hx with rfl | hx
    · exact hf.queue_below e.1 (hqueue ▸ hne)
    · obtain ⟨msg, hm, hx⟩ := List.mem_flatMap.1 hx
      exact hn.messages e.1 msg (hqueue ▸ hm) x hx
  · obtain ⟨ch, hch, rfl⟩ := List.mem_map.1 hx
    exact hf.closed_below ch (KeySet.contains_iff_mem_keys.2 hch)
  · obtain ⟨ch, hch, rfl⟩ := List.mem_map.1 hx
    obtain ⟨d, hd⟩ := Option.isSome_iff_exists.1 (Table.isSome_find_iff.2 hch)
    exact hf.timer_below (hf.armed ch d hd).1
  · obtain ⟨e, he, rfl⟩ := List.mem_map.1 hx
    exact hn.effects e (List.mem_append_right _ he)

/-! ### Readers -/

/-- A channel that is kept for a part after a move was kept before for a part of the same link, or
is new. -/
theorem Move.reads_after {s : Script} {now : Instant} {root : Link} {soup : InstanceSoup}
    {r : Reduction} {p : Products} {consumed : List Link} (m : Move s now root soup r p consumed)
    {Q : Part} (hQ : Q ∈ r.after.parts) {ch : Nat} (hc : ch ∈ Q.reads) :
    (∃ P ∈ soup.parts, P.link = Q.link ∧ ch ∈ P.reads) ∨ soup.nextChannel ≤ ch := by
  rcases m.mem_after.1 hQ with hheir | ⟨t, ht, rfl⟩ | hbefore
  · have hlink := m.yields.heir_link hheir
    rcases Part.mem_reads.1 hc with hc | hc | hc | hc
    · refine .inr (m.new_of_timer ?_)
      rw [Products.timer, hheir]
      exact hc
    · -- a part awaits what it has awaited before and what it has just started
      obtain ⟨u, hu, rfl⟩ := List.mem_map.1 hc
      have hu : u ∈ p.awaits := by
        rw [Products.awaits, hheir]
        exact hu
      have hperm := m.yields.awaits_perm m.delivery m.part_sound
      rcases List.mem_append.1 (hperm.mem_iff.1 (List.mem_append_left _ hu)) with hu | hu
      · exact .inl ⟨_, m.part_mem, hlink.symm,
          Part.mem_reads.2 (.inr (.inl (List.mem_map_of_mem hu)))⟩
      · exact .inr (m.new_of_kid hu (by simp))
    · exact .inl ⟨_, m.part_mem, hlink.symm, Part.mem_reads.2 (.inr (.inr (.inl (hlink ▸ hc))))⟩
    · exact .inl ⟨_, m.part_mem, hlink.symm, Part.mem_reads.2 (.inr (.inr (.inr (hlink ▸ hc))))⟩
  · have hown : ch ∈ t.link.channels := by
      rcases Part.mem_reads.1 hc with hc | hc | hc | hc
      · cases hc
      · rw [show (Part.ready t).awaits = [] from m.yields.kid_awaits ht] at hc
        cases hc
      · exact Link.mem_channels.2 (.inr (.inr hc))
      · exact Link.mem_channels.2 (.inr (.inl hc))
    exact .inr (m.new_of_kid (List.mem_map_of_mem ht) hown)
  · exact .inl ⟨Q, m.mem_of_before hbefore, rfl, hc⟩

namespace Course

/-- Channels that were kept for parts were handed out, and each was kept for parts of one link. -/
structure Reserved (c : Course) : Prop where
  below : ∀ P ∈ c.members, ∀ ch : Nat, ch ∈ P.reads → ch < c.soup.nextChannel
  link_unique : ∀ P ∈ c.members, ∀ Q ∈ c.members, ∀ ch ∈ P.reads, ch ∈ Q.reads → P.link = Q.link

namespace Reserved

variable {s : Script} {c : Course}

/-- Messages from outside are no parts. -/
theorem inject (h : c.Reserved) (ch : Channel) (msg : Message) :
    (c.inject [(ch, msg)]).Reserved := by
  constructor
  · rw [c.members_inject, c.nextChannel_inject]
    exact h.below
  · rw [c.members_inject]
    exact h.link_unique

theorem extend (h : c.Reserved) {now : Instant} {r : Reduction} {p : Products}
    {consumed : List Link} (m : Move s now .root c.soup r p consumed) :
    (c.extend r).Reserved := by
  have hold {P Q : Part} (hP : P ∈ c.members) (hQ : Q ∈ r.after.parts) {ch : Channel}
      (hc : ch ∈ P.reads) (hc' : ch ∈ Q.reads) : P.link = Q.link := by
    rcases m.reads_after hQ hc' with ⟨P', hP', hlink, hread⟩ | hnew
    · exact (h.link_unique P hP P' (List.mem_append_right _ hP') ch hc hread).trans hlink
    · exact absurd (h.below P hP ch hc) (Nat.not_lt.2 hnew)
  constructor
  · intro P hP ch hc
    rcases m.mem_members hP with hP | hP
    · rw [soup_extend, m.nextChannel_after]
      exact Nat.lt_add_right _ (h.below P hP ch hc)
    · exact m.below_after ch (m.family_after.owned_of_reads hP hc)
  · intro P hP Q hQ ch hc hc'
    rcases m.mem_members hP with hP | hP <;> rcases m.mem_members hQ with hQ | hQ
    · exact h.link_unique P hP Q hQ ch hc hc'
    · exact hold hP hQ hc hc'
    · exact (hold hQ hP hc' hc).symm
    · exact congrArg Part.link (m.family_after.reader_unique hP hQ hc hc')

end Reserved

end Course

namespace Script.Driven

variable {s : Script} {c : Course}

/-- Every channel is kept for parts of one link. -/
theorem reserved (h : s.Driven c) : c.Reserved := by
  induction h with
  | start _ =>
    have hf := Family.newSoup s
    exact ⟨fun P hP ch hc => hf.below ch (hf.owned_of_reads hP hc),
      fun P hP Q hQ ch hc hc' => congrArg Part.link (hf.reader_unique hP hQ hc hc')⟩
  | inject _ _ ih => exact ih.inject _ _
  | reduce h hr ih =>
    obtain ⟨p, consumed, m⟩ := h.orderly.family.exists_move hr
    exact ih.extend m
  | drain _ ih => exact ⟨ih.below, ih.link_unique⟩

/-- Parts that work for runs with the same number are the same part. -/
theorem part_unique_of_id (h : s.Driven c) {P Q : Part} (hP : P ∈ c.soup.parts)
    (hQ : Q ∈ c.soup.parts) {run run' : Run} (hrun : P.run? = some run)
    (hrun' : Q.run? = some run') (he : run.id = run'.id) : P = Q := by
  have hn := h.numbered
  obtain rfl : run = run' :=
    List.inj_on_of_nodup_map hn.nodup (hn.mem_runs hP hrun) (hn.mem_runs hQ hrun') he
  have hhome : P.home = Q.home := (Part.home_of_run? hrun).trans (Part.home_of_run? hrun').symm
  exact h.orderly.family.part_unique_of_home hP hQ hhome

/-- Activities that are under way have different numbers. -/
theorem ids_nodup (h : s.Driven c) : ((c.soup.parts.filterMap Part.run?).map Run.id).Nodup := by
  rw [List.map_filterMap]
  refine List.pairwise_filterMap.2 (h.orderly.family.links_nodup.of_map.imp_of_mem ?_)
  rintro P Q hP hQ hne i hi _ hj rfl
  obtain ⟨run, hrun, hid⟩ := Option.map_eq_some_iff.1 hi
  obtain ⟨run', hrun', hid'⟩ := Option.map_eq_some_iff.1 hj
  exact hne (h.part_unique_of_id hP hQ hrun hrun' (hid.trans hid'.symm))

end Script.Driven

/-! ### Discipline -/

/-- The rules for channels and numbers. -/
structure Course.Disciplined (c : Course) : Prop where
  /-- No channel stands in two arms, of one choice or of two. -/
  arms_nodup : ((c.soup.choices.flatMap Choice.arms).map Arm.channel).Nodup
  arms_open : ∀ ch ∈ (c.soup.choices.flatMap Choice.arms).map Arm.channel,
    c.soup.isClosed ch = false
  closed_silent : ∀ ch, c.soup.isClosed ch = true → c.soup.queue ch = []
  /-- Every name anywhere was handed out. -/
  names_below : ∀ x ∈ c.soup.names, x.Below c.soup
  /-- Activities that are under way have different numbers. -/
  live_nodup : ((c.soup.parts.filterMap Part.run?).map Run.id).Nodup
  /-- All parts that ever listened on a channel, or kept it to listen on, are of one link. -/
  reader_unique : ∀ P ∈ c.members, ∀ Q ∈ c.members, ∀ ch ∈ P.reads, ch ∈ Q.reads → P.link = Q.link
  /-- No two activities that were ever started have the same number. -/
  ids_nodup : (c.runs.map Run.id).Nodup

namespace Script

/-- **Channel discipline.**  In every round of a well-driven course, after any number of reductions,
no channel stands in two arms, channels that are listened on are open, nothing waits on closed ones,
and all channels and numbers anywhere in the soup were handed out.  Every channel has one reader for
life, and no number is given to two activities. -/
theorem WellDriven.keeps_discipline {s : Script} {c : Course} (h : s.WellDriven c)
    {ms : List (Channel × Message)} (hms : ∀ e ∈ ms, c.Admits e.1 e.2) (now : Instant) (n : Nat) :
    (s.advance now n (c.inject ms)).Disciplined := by
  have hd := (h.driven.injectEach ms hms).advance now n
  have hf := hd.orderly.family
  exact {
    arms_nodup := hf.channels_arms_nodup
    arms_open := fun ch hch => hf.unclosed ch (hf.owned_of_arm hch)
    closed_silent := hd.named.silent
    names_below := hd.names_below
    live_nodup := hd.ids_nodup
    reader_unique := hd.reserved.link_unique
    ids_nodup := hd.numbered.nodup }

/-- In the middle of the round in which its alarm goes off a vigil is disciplined: the timer is
closed and silent, and the names of the activity that the alarm has started are new. -/
theorem keeps_discipline_vigil :
    let d := vigil.advance ⟨3600, 0⟩ 2 (vigilStarted.inject [(9, .timeout)])
    d.Disciplined ∧ d.soup.hasWork = true ∧ d.soup.isClosed 9 = true ∧
      d.soup.queue 9 = [] ∧ (d.soup.parts.filterMap Part.run?).map Run.id = [3, 2, 1] :=
  ⟨wellDriven_vigilStarted.keeps_discipline admits_vigilStarted ⟨3600, 0⟩ 2, by decide +kernel⟩

end Script

end Perdure
