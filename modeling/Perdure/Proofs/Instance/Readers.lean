import Mathlib.Data.List.Flatten
import Mathlib.Data.List.Perm.Basic
import Mathlib.Data.List.Perm.Subperm
import Perdure.Proofs.Instance.Family

/-!
# Who listens where

A part that waits listens on several channels at once: on its timer, where the parts that it has
started report, and where it gets its orders.  A part that is ready listens nowhere yet, but these
channels are kept for it.  In a family no channel is kept for two parts, and none is kept twice for
one of them.

## Main definitions

* `Link.orders` — the channels on which a part gets its orders.
* `Part.reads` — the channels that are kept for a part to listen on.
* `Choice.listensOn` — a choice listens on a channel.

## Main results

* `Family.reads_nodup` — no channel is kept for two parts, or twice for one.
* `Family.channels_arms_nodup` — no channel stands in two arms.
* `Family.countP_listensOn` — a timer that is awaited is listened on by exactly one choice.
-/

namespace Perdure

/-! ### Channels to listen on -/

/-- The channels on which a part gets its orders. -/
def Link.orders (l : Link) : List Channel := l.control.toList ++ [l.termination]

/-- The channels of a link, its orders set apart. -/
theorem Link.perm_channels (l : Link) : ([l.parent] ++ l.orders).Perm l.channels :=
  (List.perm_append_singleton l.termination l.control.toList).cons l.parent

/-- The channels that are kept for a part to listen on. -/
def Part.reads (P : Part) : List Channel :=
  P.timer.toList ++ P.awaits.map Link.parent ++ P.link.control.toList ++ [P.link.termination]

/-- A part that waits listens on all the channels that are kept for it. -/
@[simp] theorem Part.reads_waiting (r : Receiver) : (Part.waiting r).reads = r.channels := rfl

@[simp] theorem Part.mem_reads {P : Part} {c : Channel} :
    c ∈ P.reads ↔ P.timer = some c ∨ c ∈ P.awaits.map Link.parent ∨ P.link.control = some c ∨
      c = P.link.termination := by
  simp [Part.reads]

/-- Does a choice listen on a channel? -/
def Choice.listensOn (c : Choice Receiver) (ch : Channel) : Bool :=
  c.arms.any fun a => a.channel == ch

@[simp] theorem Receiver.listensOn_choice (r : Receiver) (ch : Channel) :
    r.choice.listensOn ch = decide (ch ∈ r.channels) := by
  rw [Bool.eq_iff_iff, decide_eq_true_eq, Choice.listensOn, List.any_eq_true]
  constructor
  · rintro ⟨a, ha, he⟩
    exact beq_iff_eq.1 he ▸ (mem_arms_choice.1 ha).1
  · intro h
    exact ⟨⟨ch, r⟩, mem_arms_choice.2 ⟨h, rfl⟩, beq_self_eq_true ch⟩

namespace Soup

/-- Only receivers wait for timers. -/
theorem awaitedTimers_eq (s : InstanceSoup) :
    s.awaitedTimers = s.receivers.filterMap Receiver.timer := by
  have hready : (s.runnables.map Part.ready).filterMap Part.timer = [] := by
    rw [List.filterMap_map, List.filterMap_eq_nil_iff]
    exact fun _ _ => rfl
  rw [awaitedTimers, parts, List.filterMap_append, hready, List.filterMap_map]
  rfl

/-- A timer is awaited if a receiver waits for it. -/
theorem mem_awaitedTimers_iff {s : InstanceSoup} {t : Channel} :
    t ∈ s.awaitedTimers ↔ ∃ q ∈ s.receivers, q.timer = some t := by
  rw [awaitedTimers_eq, List.mem_filterMap]

/-- The channels kept for the parts, by their purpose. -/
theorem perm_reads (s : InstanceSoup) :
    (s.awaitedTimers ++ (s.awaited.map Link.parent ++ s.links.flatMap Link.orders)).Perm
      (s.parts.flatMap Part.reads) := by
  have hreads : Part.reads = fun P =>
      P.timer.toList ++ (P.awaits.map Link.parent ++ P.link.orders) := by
    funext P
    simp [Part.reads, Link.orders]
  rw [hreads, awaitedTimers, List.filterMap_eq_flatMap_toList, awaited, List.map_flatMap, links,
    List.flatMap_map]
  exact ((List.flatMap_append_perm _ _ _).append_left _).trans (List.flatMap_append_perm _ _ _)

/-- The channels of all arms, choice by choice. -/
theorem Regular.channels_arms {s : InstanceSoup} (h : s.Regular) :
    (s.choices.flatMap Choice.arms).map Arm.channel = s.receivers.flatMap Receiver.channels := by
  have hcs : s.choices = s.receivers.map Receiver.choice := h
  rw [hcs, List.flatMap_map, List.map_flatMap]
  refine List.flatMap_congr fun r _ => ?_
  rw [Receiver.choice, List.map_map]
  exact List.map_id _

end Soup

/-! ### Families -/

namespace Family

variable {s : Script} {root : Link} {soup : InstanceSoup} (h : Family s root soup)

include h

/-- The parts have links that are awaited, each its own. -/
theorem links_subperm : soup.links.Subperm (soup.expected root) := by
  rw [List.subperm_ext_iff]
  intro l _
  rw [h.alive l]
  split
  · exact Nat.le_refl _
  · exact Nat.zero_le _

/-- The channels that are kept for the parts are owned, each once. -/
theorem reads_subperm : (soup.parts.flatMap Part.reads).Subperm (soup.owned root) := by
  have hawaited : (soup.awaited.map Link.parent).Subperm ((soup.expected root).map Link.parent) :=
    ((List.sublist_cons_self root soup.awaited).map Link.parent).subperm
  obtain ⟨links, hlinks, hsub⟩ := h.links_subperm
  have horders : (soup.links.flatMap Link.orders).Subperm
      ((soup.expected root).flatMap Link.orders) :=
    ⟨_, hlinks.flatMap_right _, hsub.flatMap _⟩
  have hchannels : ((soup.expected root).map Link.parent ++
      (soup.expected root).flatMap Link.orders).Perm ((soup.expected root).flatMap Link.channels) := by
    rw [List.map_eq_flatMap]
    exact (List.flatMap_append_perm _ _ _).trans (.flatMap_left _ fun l _ => l.perm_channels)
  refine soup.perm_reads.symm.subperm.trans ?_
  refine (List.perm_append_comm.subperm).trans ?_
  exact ((hawaited.append horders).trans hchannels.subperm).append (List.Subperm.refl _)

/-- **No channel is kept for two parts, or twice for one.** -/
theorem reads_nodup : (soup.parts.flatMap Part.reads).Nodup := by
  obtain ⟨l, hl, hsub⟩ := h.reads_subperm
  exact hl.nodup_iff.1 (h.nodup.sublist hsub)

/-- What is kept for a part is in use. -/
theorem owned_of_reads {P : Part} (hP : P ∈ soup.parts) {c : Channel} (hc : c ∈ P.reads) :
    c ∈ soup.owned root :=
  List.Subperm.subset h.reads_subperm (List.mem_flatMap.2 ⟨P, hP, hc⟩)

/-- A channel is kept for one part. -/
theorem reader_unique {P Q : Part} (hP : P ∈ soup.parts) (hQ : Q ∈ soup.parts) {c : Channel}
    (hc : c ∈ P.reads) (hc' : c ∈ Q.reads) : P = Q :=
  eq_of_nodup_flatMap h.reads_nodup hP hQ hc hc'

/-- A part that listens on a timer that is awaited waits for that timer. -/
theorem timer_of_reads {P : Part} (hP : P ∈ soup.parts) {t : Channel} (ht : t ∈ soup.awaitedTimers)
    (hc : t ∈ P.reads) : P.timer = some t := by
  obtain ⟨Q, hQ, htimer⟩ := List.mem_filterMap.1 ht
  obtain rfl := h.reader_unique hP hQ hc (Part.mem_reads.2 (.inl htimer))
  exact htimer

/-! ### Choices -/

theorem channels_nodup_receivers : (soup.receivers.flatMap Receiver.channels).Nodup := by
  have hn := h.reads_nodup
  rw [Soup.parts, List.flatMap_append, List.flatMap_map, List.flatMap_map] at hn
  exact (List.nodup_append.1 hn).2.1

/-- No channel stands in two arms, of one choice or of two. -/
theorem channels_arms_nodup : ((soup.choices.flatMap Choice.arms).map Arm.channel).Nodup := by
  rw [h.regular.channels_arms]
  exact h.channels_nodup_receivers

/-- A channel of an arm is in use. -/
theorem owned_of_arm {c : Channel} (hc : c ∈ (soup.choices.flatMap Choice.arms).map Arm.channel) :
    c ∈ soup.owned root := by
  rw [h.regular.channels_arms] at hc
  obtain ⟨r, hr, hc⟩ := List.mem_flatMap.1 hc
  exact h.owned_of_reads (List.mem_append_right _ (List.mem_map_of_mem hr)) hc

/-- A timer that is awaited is listened on by exactly one choice. -/
theorem countP_listensOn {t : Channel} (ht : t ∈ soup.awaitedTimers) :
    soup.choices.countP (·.listensOn t) = 1 := by
  have hcs : soup.choices = soup.receivers.map Receiver.choice := h.regular
  have hlistens : soup.choices.countP (·.listensOn t) = soup.awaitedTimers.count t := by
    rw [hcs, List.countP_map, soup.awaitedTimers_eq, List.count_filterMap]
    apply List.countP_congr
    intro r hr
    have hP : Part.waiting r ∈ soup.parts := List.mem_append_right _ (List.mem_map_of_mem hr)
    simp only [Function.comp_apply, Receiver.listensOn_choice, decide_eq_true_eq, beq_iff_eq]
    exact ⟨h.timer_of_reads hP ht, fun htimer => Receiver.mem_channels.2 (.inl htimer)⟩
  rw [hlistens]
  exact List.count_eq_one_of_mem (List.nodup_append.1 h.nodup).2.1 ht

end Family

end Perdure
