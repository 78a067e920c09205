import Mathlib.Data.List.Pairwise
import Perdure.Proofs.Instance.Kin
import Perdure.Proofs.Instance.Pick

/-!
# Families

The parts of an instance form a family: every part is started by one that awaits its link, up to
the root part, whose link the outside awaits.  A link that is awaited has either a part, and then
nothing was reported on it, or no part, and then there is one report that waits to be taken.  No
channel has two purposes.

## Main definitions

* `Soup.owned` — the channels that the family still uses.
* `Family` — a soup whose parts are a family.

## Main results

* `Family.link_mem`, `Family.exists_part` — a link that is awaited has a part or a report.
* `Family.delivery` — a part takes only what it may take.
-/

namespace Perdure

/-- Lists joined without repetition share no member. -/
theorem eq_of_nodup_flatMap {α β : Type} {l : List α} {f : α → List β} (h : (l.flatMap f).Nodup)
    {a b : α} (ha : a ∈ l) (hb : b ∈ l) {x : β} (hxa : x ∈ f a) (hxb : x ∈ f b) : a = b := by
  by_contra hne
  have : Std.Symm (Function.onFun List.Disjoint f) := ⟨fun _ _ hd _ ha hb => hd hb ha⟩
  have hd : Function.onFun List.Disjoint f a b := (List.nodup_flatMap.1 h).2.forall ha hb hne
  exact hd hxa hxb

namespace Soup

/-- The links that are awaited, by parts or, for the root, by the outside. -/
def expected (s : InstanceSoup) (root : Link) : List Link := root :: s.awaited

/-- The channels that the family still uses. -/
def owned (s : InstanceSoup) (root : Link) : List Channel :=
  (s.expected root).flatMap Link.channels ++ s.awaitedTimers

/-- A message changes nothing about who awaits what. -/
theorem expected_send (s : InstanceSoup) (root : Link) (c : Channel) (msg : Message) :
    (s.send c msg).expected root = s.expected root := by
  unfold expected awaited
  rw [parts_send]

theorem owned_send (s : InstanceSoup) (root : Link) (c : Channel) (msg : Message) :
    (s.send c msg).owned root = s.owned root := by
  unfold owned
  rw [expected_send, awaitedTimers_send]

end Soup

/-- A soup whose parts are a family. -/
structure Family (s : Script) (root : Link) (soup : InstanceSoup) : Prop where
  regular : soup.Regular
  sound : ∀ P ∈ soup.parts, P.Sound s
  /-- No channel has two purposes. -/
  nodup : (soup.owned root).Nodup
  below : ∀ c : Nat, c ∈ soup.owned root → c < soup.nextChannel
  unclosed : ∀ c ∈ soup.owned root, soup.isClosed c = false
  /-- Channels not handed out are unused. -/
  closed_below : ∀ c : Nat, soup.isClosed c = true → c < soup.nextChannel
  queue_below : ∀ c : Nat, soup.queue c ≠ [] → c < soup.nextChannel
  /-- The links of parts are those that are awaited and on which nothing is reported. -/
  alive : ∀ l, soup.links.count l =
    if soup.queue l.parent = [] then (soup.expected root).count l else 0
  /-- On a parent channel there is at most one message, and it is a report. -/
  report : ∀ l ∈ soup.expected root, soup.queue l.parent = [] ∨
    ∃ fault cs, soup.queue l.parent = [.completed fault cs]
  termination : ∀ l ∈ soup.expected root, ∀ m ∈ soup.queue l.termination, m = .terminate
  control : ∀ l ∈ soup.expected root, ∀ c, l.control = some c → ∀ m ∈ soup.queue c, m = .stop
  event : ∀ t ∈ soup.awaitedTimers, ∀ m ∈ soup.queue t, m = .timeout ∨ m = .timerCancelled
  /-- An armed timer is awaited, and has not gone off. -/
  armed : ∀ t d, soup.timers.get? t = some d → t ∈ soup.awaitedTimers ∧ soup.queue t = []
  /-- What a part awaits was started after the part. -/
  elder : ∀ P ∈ soup.parts, ∀ u ∈ P.awaits, P.home < u.parent

namespace Family

variable {s : Script} {root : Link} {soup : InstanceSoup}

/-! ### Every channel has one purpose -/

theorem mem_owned {l : Link} (hl : l ∈ soup.expected root) {c : Channel} (hc : c ∈ l.channels) :
    c ∈ soup.owned root := List.mem_append_left _ (List.mem_flatMap.2 ⟨l, hl, hc⟩)

theorem parent_mem_owned {l : Link} (hl : l ∈ soup.expected root) :
    l.parent ∈ soup.owned root := mem_owned hl (by simp)

theorem termination_mem_owned {l : Link} (hl : l ∈ soup.expected root) :
    l.termination ∈ soup.owned root := mem_owned hl (by simp)

theorem control_mem_owned {l : Link} (hl : l ∈ soup.expected root) {c : Channel}
    (hc : l.control = some c) : c ∈ soup.owned root := mem_owned hl (by simp [hc])

theorem timer_mem_owned {t : Channel} (ht : t ∈ soup.awaitedTimers) : t ∈ soup.owned root :=
  List.mem_append_right _ ht

variable (root) in
theorem mem_expected_of_awaits {P : Part} (hP : P ∈ soup.parts) {u : Link} (hu : u ∈ P.awaits) :
    u ∈ soup.expected root := List.mem_cons_of_mem _ (List.mem_flatMap.2 ⟨P, hP, hu⟩)

theorem mem_awaitedTimers {P : Part} (hP : P ∈ soup.parts) {t : Channel} (ht : P.timer = some t) :
    t ∈ soup.awaitedTimers := List.mem_filterMap.2 ⟨P, hP, ht⟩

variable (h : Family s root soup)

include h

/-- A channel belongs to one link. -/
theorem link_unique {l l' : Link} (hl : l ∈ soup.expected root) (hl' : l' ∈ soup.expected root)
    {c : Channel} (hc : c ∈ l.channels) (hc' : c ∈ l'.channels) : l = l' :=
  eq_of_nodup_flatMap (List.nodup_append.1 h.nodup).1 hl hl' hc hc'

/-- The channels of a link are different. -/
theorem channels_nodup {l : Link} (hl : l ∈ soup.expected root) : l.channels.Nodup :=
  (List.nodup_flatMap.1 (List.nodup_append.1 h.nodup).1).1 l hl

theorem timer_ne {l : Link} (hl : l ∈ soup.expected root) {c : Channel} (hc : c ∈ l.channels) :
    c ∉ soup.awaitedTimers := fun ht =>
  (List.nodup_append.1 h.nodup).2.2 c (List.mem_flatMap.2 ⟨l, hl, hc⟩) c ht rfl

theorem expected_nodup : (soup.expected root).Nodup := by
  have hp := (List.nodup_flatMap.1 (List.nodup_append.1 h.nodup).1).2
  refine hp.imp fun {a b} hd hab => ?_
  subst hab
  have ha : a.parent ∈ a.channels := by simp
  exact hd ha ha

theorem parent_inj {l l' : Link} (hl : l ∈ soup.expected root) (hl' : l' ∈ soup.expected root)
    (he : l.parent = l'.parent) : l = l' :=
  h.link_unique hl hl' (c := l.parent) (by simp) (by simp [he])

/-- Reports and orders use different channels. -/
theorem parent_ne_order {l l' : Link} (hl : l ∈ soup.expected root) (hl' : l' ∈ soup.expected root)
    {c : Channel} (hc : c = l'.termination ∨ l'.control = some c) : l.parent ≠ c := by
  intro he
  have hc' : c ∈ l'.channels := by rcases hc with rfl | hc <;> simp [*]
  obtain rfl := h.link_unique hl hl' (by simp) (he ▸ hc')
  have hn := (List.nodup_cons.1 (h.channels_nodup hl)).1
  rcases hc with rfl | hc
  · exact hn (by rw [he]; exact List.mem_cons_self)
  · exact hn (by simp [hc, he])

/-- The two kinds of orders use different channels. -/
theorem termination_ne_control {l l' : Link} (hl : l ∈ soup.expected root)
    (hl' : l' ∈ soup.expected root) {c : Channel} (hc : l'.control = some c) :
    l.termination ≠ c := by
  intro he
  obtain rfl := h.link_unique hl hl' (by simp) (show l.termination ∈ l'.channels by simp [hc, he])
  have hn := (List.nodup_cons.1 (List.nodup_cons.1 (h.channels_nodup hl)).2).1
  exact hn (by simp [hc, he])

/-! ### Links and parts -/

theorem count_expected_le (l : Link) : (soup.expected root).count l ≤ 1 :=
  List.nodup_iff_count_le_one.1 h.expected_nodup l

/-- The link of a part is awaited, and nothing was reported on it. -/
theorem link_mem {P : Part} (hP : P ∈ soup.parts) :
    P.link ∈ soup.expected root ∧ soup.queue P.home = [] := by
  have hc := h.alive P.link
  have hpos : 0 < soup.links.count P.link := List.count_pos_iff.2 (List.mem_map_of_mem hP)
  split at hc
  · next hq => exact ⟨List.count_pos_iff.1 (hc ▸ hpos), hq⟩
  · omega

/-- Parts report on channels that were handed out. -/
theorem home_below {P : Part} (hP : P ∈ soup.parts) : P.home < (soup.nextChannel : Nat) :=
  h.below _ (parent_mem_owned (h.link_mem hP).1)

/-- A timer that is awaited was handed out. -/
theorem timer_below {t : Nat} (ht : t ∈ soup.awaitedTimers) : t < soup.nextChannel :=
  h.below t (timer_mem_owned ht)

/-- A link that is awaited and has no report has a part. -/
theorem exists_part {l : Link} (hl : l ∈ soup.expected root) (hq : soup.queue l.parent = []) :
    ∃ P ∈ soup.parts, P.link = l := by
  have hc := h.alive l
  rw [if_pos hq] at hc
  have hpos : 0 < (soup.expected root).count l := List.count_pos_iff.2 hl
  exact List.mem_map.1 (List.count_pos_iff.1 (hc ▸ hpos))

/-- The links of the parts are different. -/
theorem links_nodup : soup.links.Nodup := by
  apply List.nodup_iff_count_le_one.2
  intro l
  rw [h.alive l]
  split
  · exact h.count_expected_le l
  · exact Nat.zero_le _

/-- A link has one part. -/
theorem part_unique {P Q : Part} (hP : P ∈ soup.parts) (hQ : Q ∈ soup.parts)
    (he : P.link = Q.link) : P = Q :=
  List.inj_on_of_nodup_map h.links_nodup hP hQ he

/-- Parts that report on one channel are the same part. -/
theorem part_unique_of_home {P Q : Part} (hP : P ∈ soup.parts) (hQ : Q ∈ soup.parts)
    (he : P.home = Q.home) : P = Q :=
  h.part_unique hP hQ (h.parent_inj (h.link_mem hP).1 (h.link_mem hQ).1 he)

/-- Two parts never await the same link. -/
theorem awaiter_unique {P Q : Part} (hP : P ∈ soup.parts) (hQ : Q ∈ soup.parts) {u : Link}
    (hu : u ∈ P.awaits) (hu' : u ∈ Q.awaits) : P = Q :=
  eq_of_nodup_flatMap (List.nodup_cons.1 h.expected_nodup).2 hP hQ hu hu'

/-- What a part awaits is told on different channels. -/
theorem terminations_nodup {P : Part} (hP : P ∈ soup.parts) :
    (P.awaits.map Link.termination).Nodup := by
  have hn : P.awaits.Nodup :=
    (List.nodup_flatMap.1 (List.nodup_cons.1 h.expected_nodup).2).1 P hP
  apply hn.map_on
  intro u hu v hv he
  exact h.link_unique (mem_expected_of_awaits root hP hu) (mem_expected_of_awaits root hP hv)
    (c := u.termination) (by simp) (by simp [he])

/-- Nobody awaits the root. -/
theorem root_not_awaited : root ∉ soup.awaited := (List.nodup_cons.1 h.expected_nodup).1

/-! ### What a part may take -/

/-- A part takes only what it may take. -/
theorem delivery {P : Part} {taken : Option (Channel × Message)} {rest : InstanceSoup}
    (hg : soup.Gives P taken rest) : ∃ consumed, Delivery P taken consumed ∧
      ∀ u ∈ consumed, u ∈ P.awaits ∧ soup.queue u.parent ≠ [] ∧ rest.queue u.parent = [] := by
  have hP : P ∈ soup.parts := hg.parts.mem_iff.2 List.mem_cons_self
  have ht := hg.takes
  cases P with
  | ready t =>
    cases ht
    exact ⟨[], .nothing rfl, by simp⟩
  | waiting q =>
    obtain ⟨⟨c, m⟩, rfl⟩ := Option.isSome_iff_exists.1 ht
    have hq : soup.queue c = m :: rest.queue c := by
      rw [hg.queue c]
      simp [Soup.addressed]
    have hm : m ∈ soup.queue c := by rw [hq]; exact List.mem_cons_self
    have hl := (h.link_mem hP).1
    rcases Receiver.mem_channels.1 (hg.listens rfl) with hc | hc | hc | hc
    · exact ⟨[], .event hc (h.event c (mem_awaitedTimers hP hc) m hm), by simp⟩
    · obtain ⟨u, hu, rfl⟩ := List.mem_map.1 hc
      obtain hnil | ⟨fault, cs, hr⟩ := h.report u (mem_expected_of_awaits root hP hu)
      · rw [hnil] at hm
        cases hm
      · rw [hr] at hq
        obtain ⟨rfl, hrest⟩ := List.cons_eq_cons.1 hq
        refine ⟨[u], .report hu fault cs, ?_⟩
        intro v hv
        obtain rfl := List.mem_singleton.1 hv
        exact ⟨hu, by simp [hr], hrest.symm⟩
    · obtain rfl := h.control _ hl c hc m hm
      exact ⟨[], .stop hc, by simp⟩
    · subst hc
      obtain rfl := h.termination _ hl m hm
      exact ⟨[], .terminate rfl, by simp⟩

end Family

end Perdure
