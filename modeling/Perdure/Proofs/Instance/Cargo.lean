import Perdure.Proofs.Instance.Completion

/-!
# What parts pass on

Parts hold something, such as a fault or what is left to compensate, and hand it to whoever awaits
them when they report.  A cargo says which parts hold it and which reports bear it.  An instance
carries a cargo while a part holds it or a report that waits to be taken bears it.  A reduction
concerns only what its part holds and takes before it, and what its products hold and bear after
it, so whether a cargo is lost or comes into being can be told from the rules alone.

## Main definitions

* `Cargo` — which parts hold something, and which reports bear it.
* `Soup.Carries` — an instance carries a cargo.
* `Cargo.In`, `Cargo.Out` — a reaction takes in a cargo, and gives it out.

## Main results

* `Move.carries_iff`, `Move.carries_after_iff` — a reduction exchanges what comes in for what goes
  out, and leaves all else.
* `Course.Orderly.carries_of_report` — after the report of the root, that report carries everything.
-/

namespace Perdure

/-- Something that parts hold and reports bear. -/
structure Cargo where
  held : Part → Prop
  borne : Message → Prop
  /-- Only reports bear anything. -/
  isCompleted : ∀ {m}, borne m → m.isCompleted = true

/-- A part holds the cargo, or a report that waits to be taken bears it. -/
def Soup.Carries (root : Link) (soup : InstanceSoup) (k : Cargo) : Prop :=
  (∃ P ∈ soup.parts, k.held P) ∨
    ∃ l ∈ soup.expected root, ∃ m ∈ soup.queue l.parent, k.borne m

namespace Cargo

/-- The part that reacts holds the cargo, or takes it. -/
def In (k : Cargo) (P : Part) (taken : Option (Channel × Message)) : Prop :=
  k.held P ∨ ∃ c m, taken = some (c, m) ∧ k.borne m

/-- The products hold the cargo, or it is reported on the channel `home`. -/
def Out (k : Cargo) (p : Products) (home : Channel) : Prop :=
  (∃ Q ∈ p.parts, k.held Q) ∨ ∃ m, (home, m) ∈ p.sent ∧ k.borne m

theorem in_none {k : Cargo} {P : Part} : k.In P none ↔ k.held P := by simp [In]

theorem in_some {k : Cargo} {P : Part} {c : Channel} {m : Message} :
    k.In P (some (c, m)) ↔ k.held P ∨ k.borne m := by simp [In]

/-- A message that is no report brings nothing. -/
theorem in_of_not_completed {k : Cargo} {P : Part} {c : Channel} {m : Message}
    (hm : m.isCompleted = false) : k.In P (some (c, m)) ↔ k.held P := by
  rw [in_some]
  apply or_iff_left
  intro hb
  rw [k.isCompleted hb] at hm
  cases hm

end Cargo

/-! ### Reactions -/

namespace Yields

variable {s : Script} {now : Instant} {n k : Nat} {P : Part} {taken : Option (Channel × Message)}
  {p : Products}

/-- A part that goes on reports nothing. -/
theorem not_completed_of_heir (h : Yields s now n k P taken p) {Q : Part} (hQ : p.heir = some Q)
    {e : Channel × Message} (he : e ∈ p.sent) : e.2.isCompleted = false := by
  cases h <;> cases hQ
  case sequenceTold | sequenceAsked | scopeAsked | firingTold | firingAsked =>
    rw [List.mem_singleton.1 he]
    rfl
  case scopeTold | bodyFaulted | alarmFaulted =>
    obtain ⟨u, -, -, hm⟩ := ScopeRun.mem_orders he
    rw [hm]
    rfl
  case bodyDone =>
    obtain ⟨u, -, -, hm⟩ := ScopeRun.mem_softOrders he
    rw [hm]
    rfl
  all_goals cases he

/-- A part that goes on gives its heir what goes out. -/
theorem out_of_heir (h : Yields s now n k P taken p) (c : Cargo)
    (hkids : ∀ t ∈ p.kids, ¬ c.held (.ready t)) {Q : Part} (hQ : p.heir = some Q) :
    c.Out p P.home ↔ c.held Q := by
  constructor
  · rintro (⟨R, hR, hx⟩ | ⟨m, hm, hx⟩)
    · rcases List.mem_append.1 hR with hR | hR
      · obtain ⟨t, ht, rfl⟩ := List.mem_map.1 hR
        exact absurd hx (hkids t ht)
      · rw [hQ] at hR
        rwa [Option.mem_toList.1 hR |> Option.some.inj]
    · have hm := h.not_completed_of_heir hQ hm
      rw [c.isCompleted hx] at hm
      cases hm
  · exact fun hx => .inl ⟨Q, List.mem_append_right _ (Option.mem_toList.2 hQ), hx⟩

/-- A part that is done gives its report what goes out. -/
theorem out_of_done (h : Yields s now n k P taken p) (c : Cargo) (hn : p.heir = none)
    {m : Message} (hs : p.sent = [(P.home, m)]) : c.Out p P.home ↔ c.borne m := by
  have hparts : p.parts = [] := by
    rw [Products.parts, (h.sent_of_heir_eq_none hn).1, hn]
    rfl
  unfold Cargo.Out
  rw [hparts, hs]
  simp

end Yields

/-! ### Reductions -/

namespace Move

variable {s : Script} {now : Instant} {root : Link} {soup : InstanceSoup} {r : Reduction}
  {p : Products} {consumed : List Link}

/-- What a reduction does not concern: another part holds the cargo, or a report bears it that the
reduction does not take. -/
def Aside (root : Link) (soup : InstanceSoup) (r : Reduction) (consumed : List Link)
    (k : Cargo) : Prop :=
  (∃ Q ∈ r.before.parts, k.held Q) ∨
    ∃ l ∈ soup.expected root, l ∉ consumed ∧ ∃ m ∈ soup.queue l.parent, k.borne m

variable (m : Move s now root soup r p consumed) (k : Cargo)

include m

/-- The log knows a report: it is all that a part sends that is done. -/
theorem report_of_mem_sentTo {c : Channel} {fault : Option Fault} {cs : Compensations}
    (h : .completed fault cs ∈ r.sentTo c) :
    p.heir = none ∧ c = r.part.home ∧ p.sent = [(r.part.home, .completed fault cs)] := by
  rw [m.sentTo_eq, Soup.mem_addressed] at h
  cases hQ : p.heir with
  | some Q => cases m.yields.not_completed_of_heir hQ h
  | none =>
    obtain ⟨-, -, fault', cs', hs⟩ := m.yields.sent_of_heir_eq_none hQ
    have he := List.mem_singleton.1 (hs ▸ h)
    simp only [Prod.mk.injEq, Message.completed.injEq] at he
    obtain ⟨rfl, rfl, rfl⟩ := he
    exact ⟨rfl, rfl, hs⟩

/-- A report that is taken waited on an awaited link. -/
theorem mem_queue_of_taken {c : Channel} {msg : Message} (ht : r.taken = some (c, msg))
    (hm : msg.isCompleted = true) :
    ∃ u ∈ soup.expected root, c = u.parent ∧ msg ∈ soup.queue u.parent := by
  have hd := m.delivery
  rw [ht] at hd
  cases hd with
  | @report u hu fault cs =>
    refine ⟨u, Family.mem_expected_of_awaits root m.part_mem hu, rfl, ?_⟩
    rw [m.gives.queue u.parent, ht]
    simp [Soup.addressed]
  | event _ he => rcases he with rfl | rfl <;> cases hm
  | stop | terminate => cases hm

/-- Before a reduction the cargo is aside or comes in. -/
theorem carries_iff :
    soup.Carries root k ↔ Aside root soup r consumed k ∨ k.In r.part r.taken := by
  constructor
  · rintro (⟨P, hP, hk⟩ | ⟨l, hl, msg, hm, hk⟩)
    · rcases m.mem_before_or hP with rfl | hP
      · exact .inr (.inl hk)
      · exact .inl (.inl ⟨P, hP, hk⟩)
    · by_cases hu : l ∈ consumed
      · exact .inr (.inr ⟨_, msg, m.taken_of_consumed hu hm, hk⟩)
      · exact .inl (.inr ⟨l, hl, hu, msg, hm, hk⟩)
  · rintro ((⟨P, hP, hk⟩ | ⟨l, hl, -, hk⟩) | (hk | ⟨c, msg, ht, hk⟩))
    · exact .inl ⟨P, m.mem_of_before hP, hk⟩
    · exact .inr ⟨l, hl, hk⟩
    · exact .inl ⟨_, m.part_mem, hk⟩
    · obtain ⟨u, hu, -, hm⟩ := m.mem_queue_of_taken ht (k.isCompleted hk)
      exact .inr ⟨u, hu, msg, hm, hk⟩

/-- A report that waits after a reduction waited before it and was not taken, or was sent by the
part that reacted. -/
theorem report_after_cases {l : Link} (hl : l ∈ r.after.expected root) {msg : Message}
    (hm : msg ∈ r.after.queue l.parent) :
    l ∈ soup.expected root ∧ l ∉ consumed ∧ msg ∈ soup.queue l.parent ∨
      (r.part.home, msg) ∈ p.sent := by
  rcases m.mem_expected_after.1 hl with hk | ⟨hl', hu⟩
  · -- nothing is sent yet on a link that was just started
    have hnew := m.new_of_kid hk (c := l.parent) (by simp)
    rw [m.queue_after_new hnew] at hm
    cases hm
  · rcases m.mem_queue_after hm with hb | hs
    · exact .inl ⟨hl', hu, m.mem_queue_of_before hb⟩
    · by_cases hne : l = r.part.link
      · rw [hne] at hs
        exact .inr hs
      · rw [m.queue_after_parent hl hne] at hm
        exact .inl ⟨hl', hu, m.mem_queue_of_before hm⟩

/-- A report that waits before a reduction and is not taken still waits after it. -/
theorem mem_queue_after_of_not_consumed {l : Link} (hl : l ∈ soup.expected root)
    (hu : l ∉ consumed) {msg : Message} (hm : msg ∈ soup.queue l.parent) :
    l ∈ r.after.expected root ∧ msg ∈ r.after.queue l.parent := by
  have hl' := m.mem_expected_after.2 (.inr ⟨hl, hu⟩)
  refine ⟨hl', ?_⟩
  rw [m.queue_after (Family.parent_mem_owned hl'), m.queue_before_parent hl hu]
  exact List.mem_append_left _ hm

/-- After a reduction the cargo is aside or goes out. -/
theorem carries_after_iff :
    r.after.Carries root k ↔ Aside root soup r consumed k ∨ k.Out p r.part.home := by
  constructor
  · rintro (⟨P, hP, hk⟩ | ⟨l, hl, msg, hm, hk⟩)
    · rcases List.mem_append.1 (m.parts_after.mem_iff.1 hP) with hP | hP
      · exact .inr (.inl ⟨P, hP, hk⟩)
      · exact .inl (.inl ⟨P, hP, hk⟩)
    · rcases m.report_after_cases hl hm with ⟨hl, hu, hm⟩ | hs
      · exact .inl (.inr ⟨l, hl, hu, msg, hm, hk⟩)
      · exact .inr (.inr ⟨msg, hs, hk⟩)
  · rintro ((⟨P, hP, hk⟩ | ⟨l, hl, hu, msg, hm, hk⟩) | (⟨P, hP, hk⟩ | ⟨msg, hs, hk⟩))
    · exact .inl ⟨P, m.parts_after.mem_iff.2 (List.mem_append_right _ hP), hk⟩
    · obtain ⟨hl, hm⟩ := m.mem_queue_after_of_not_consumed hl hu hm
      exact .inr ⟨l, hl, msg, hm, hk⟩
    · exact .inl ⟨P, m.parts_after.mem_iff.2 (List.mem_append_left _ hP), hk⟩
    · refine .inr ⟨r.part.link, m.link_mem_after, msg, ?_, hk⟩
      rw [m.queue_after (Family.parent_mem_owned m.link_mem_after)]
      exact List.mem_append_right _ (Soup.mem_addressed.2 hs)

end Move

/-! ### Other changes -/

/-- A message from outside is no cargo. -/
theorem Family.carries_send {s : Script} {root : Link} {soup : InstanceSoup}
    (h : Family s root soup) {c : Channel} {msg : Message}
    (ha : Family.Accepts root soup c msg) (k : Cargo) :
    (soup.send c msg).Carries root k ↔ soup.Carries root k := by
  unfold Soup.Carries
  rw [soup.parts_send, soup.expected_send]
  refine or_congr_right (exists_congr fun l => and_congr_right ?_)
  intro hl
  rw [h.queue_send_parent ha hl]

/-- A new instance carries what its root part holds. -/
theorem Script.carries_newSoup (s : Script) (k : Cargo) : s.newSoup.Carries .root k ↔
    k.held (.ready (.activity s.rootRun)) := by
  constructor
  · rintro (⟨P, hP, hk⟩ | ⟨l, -, m, hm, -⟩)
    · exact mem_parts_newSoup.1 hP ▸ hk
    · cases hm
  · exact fun hk => .inl ⟨_, mem_parts_newSoup.2 rfl, hk⟩

namespace Course.Orderly

variable {s : Script} {c : Course} (h : c.Orderly s)

include h

/-- After the report of the root nothing is carried but by that report. -/
theorem carries_of_report {msg : Message} (hm : msg ∈ c.reports Link.root.parent) (k : Cargo) :
    c.soup.Carries .root k ↔ k.borne msg := by
  have hone := h.reported_once Link.root.parent
  rw [h.root_reports] at hm hone
  have hq : c.soup.queue Link.root.parent = [msg] := by
    obtain ⟨a, ha⟩ := List.length_eq_one_iff.1
      (Nat.le_antisymm hone (List.length_pos_of_mem hm))
    rw [ha] at hm ⊢
    rw [List.mem_singleton.1 hm]
  have hparts := h.family.parts_eq_nil (by rw [hq]; simp)
  unfold Soup.Carries Soup.expected Soup.awaited
  rw [hparts]
  simp [hq]

end Course.Orderly

end Perdure
