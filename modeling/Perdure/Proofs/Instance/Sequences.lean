import Perdure.Proofs.Instance.Faults
import Perdure.Proofs.Instance.Offspring
import Perdure.Proofs.Instance.Takedown

/-!
# Sequences run in order

A sequence hands its position back and forth between the task that is to start the next child and
the receiver that waits for that child to report.  Between the two anything may happen elsewhere,
and the order to stop may arrive before or after the report.  What the part in charge knows is
compared with what is on record: the runs that the sequence has started and the messages that it has
taken.  As the two always agree, the children are started in their order and one at a time, and the
sequence ends for one of three reasons.

## Main definitions

* `Part.KeepsCount` — the part in charge of a sequence knows what is on record.
* `Course.SequenceEnds` — why a sequence ends, and with which fault.
* `Course.Conducts` — what every reduction keeps of all sequences.
* `Course.RunsInOrder` — a sequence goes through its children.

## Main results

* `Yields.keepsCount_heir` — what the part in charge knows, its heir knows.
* `Script.Driven.conducts` — every course conducts its sequences.
* `Script.WellDriven.runs_in_order` — every sequence of a well-driven course runs in order.
-/

namespace Perdure

/-! ### The part in charge of a sequence -/

namespace Part

/-- The parts that may be in charge of a sequence. -/
theorem sequence_cases {s : Script} {P : Part} (hP : P.Apt s) {run : Run} (hrun : P.run? = some run)
    {children : List ActivityId} (hc : s.children run.activity = .ok children) :
    P = .ready (.activity run) ∨
      ∃ sequence : SequenceRun, sequence.run = run ∧ (P = .ready (.sequenceStep sequence) ∨
        ∃ child, P = .waiting (.sequenceWaiting sequence child)) := by
  obtain ⟨a, ha, hk⟩ := Script.kind_of_children hc
  have hkind {b : Activity} (hb : s.activity run.activity = .ok b) :
      b.kind = .sequence children := by
    rw [ha] at hb
    cases hb
    exact hk
  unfold run? at hrun
  split at hrun <;> cases hrun
  · exact .inl rfl
  · obtain ⟨b, deadline, hb, hwait⟩ := hP
    exact absurd ((hkind hb).symm.trans hwait) (by simp)
  · exact .inr ⟨_, rfl, .inl rfl⟩
  · exact .inr ⟨_, rfl, .inr ⟨_, rfl⟩⟩
  all_goals
    obtain ⟨b, body, alarms, compensation, hb, hscope⟩ := hP
    exact absurd ((hkind hb).symm.trans hscope) (by simp)

/-- What a part knows about a sequence is what is on record: `begun` are the children that the
sequence has started, `heard` the messages that it has taken, and `done` the runs that have reported
no fault. -/
def KeepsCount (begun : List Run) (heard : List Message) (done : Run → Prop) : Part → Prop
  | .ready (.activity _) => begun = [] ∧ heard = []
  | .ready (.sequenceStep sequence) =>
    sequence.position = begun.length ∧ (∀ child ∈ begun, done child) ∧
      (sequence.terminated = true ↔ .terminate ∈ heard) ∧ (begun = [] → heard = [])
  | .waiting (.sequenceWaiting sequence child) =>
    sequence.position + 1 = begun.length ∧ begun.getLast? = some child ∧
      (sequence.terminated = true ↔ .terminate ∈ heard)
  | _ => True

theorem KeepsCount.mono {begun : List Run} {heard : List Message} {done done' : Run → Prop}
    {P : Part} (h : P.KeepsCount begun heard done) (hd : ∀ child, done child → done' child) :
    P.KeepsCount begun heard done' := by
  unfold KeepsCount at *
  split at h
  · exact h
  · exact ⟨h.1, fun child hchild => hd child (h.2.1 child hchild), h.2.2⟩
  · exact h
  · trivial

end Part

namespace Yields

variable {s : Script} {now : Instant} {n k : Nat} {P : Part} {taken : Option (Channel × Message)}
  {p : Products}

/-- The task that starts a sequence only hands over to the one that starts its first child. -/
theorem eq_of_sequence_start (h : Yields s now n k P taken p) {run : Run}
    (hP : P = .ready (.activity run)) {children : List ActivityId}
    (hc : s.children run.activity = .ok children) :
    p = { heir := some (.ready (.sequenceStep { run, position := 0 })) } := by
  subst hP
  obtain ⟨a, ha, hk⟩ := Script.kind_of_children hc
  obtain rfl : taken = none := h.takes
  exact h.unique (.sequenceStarted ha hk)

/-- A sequence starts nothing, or the child whose turn it is, unless it was told to stop. -/
theorem starts_of_sequence (h : Yields s now n k P taken p) (hP : P.Apt s) {run : Run}
    (hrun : P.run? = some run) {children : List ActivityId}
    (hc : s.children run.activity = .ok children) :
    (p.kids.map Part.ready).filterMap Part.start? = [] ∨
      ∃ sequence next, P = .ready (.sequenceStep sequence) ∧ sequence.terminated = false ∧
        children[sequence.position]? = some next ∧
        (p.kids.map Part.ready).filterMap Part.start? = [Run.fresh next k n] := by
  rcases Part.sequence_cases hP hrun hc with hactivity | ⟨sequence, rfl, rfl | ⟨child, rfl⟩⟩
  · rw [h.eq_of_sequence_start hactivity hc]
    exact .inl rfl
  · cases h with
    | childStarted hc' hn ht =>
      rw [hc] at hc'
      cases hc'
      exact .inr ⟨sequence, _, rfl, ht, hn, rfl⟩
    | sequenceDone => exact .inl rfl
  · cases h <;> exact .inl rfl

/-- A sequence reports when there is no child left to start or it was told to stop, and when a child
has reported a fault, which it passes on. -/
theorem report_of_sequence (h : Yields s now n k P taken p) (hP : P.Apt s) {run : Run}
    (hrun : P.run? = some run) {children : List ActivityId}
    (hc : s.children run.activity = .ok children) {fault : Option Fault} {cs : Compensations}
    (hn : p.heir = none) (hs : p.sent = [(P.home, .completed fault cs)]) :
    (∃ sequence, P = .ready (.sequenceStep sequence) ∧ fault = none ∧
      (children[sequence.position]? = none ∨ sequence.terminated = true)) ∨
    ∃ sequence child f c m cs', P = .waiting (.sequenceWaiting sequence child) ∧ fault = some f ∧
      taken = some (c, m) ∧ m.report? = some (some f, cs') := by
  rcases Part.sequence_cases hP hrun hc with hactivity | ⟨sequence, rfl, rfl | ⟨child, rfl⟩⟩
  · rw [h.eq_of_sequence_start hactivity hc] at hn
    cases hn
  · cases h with
    | childStarted => cases hn
    | sequenceDone hc' hdone =>
      rw [hc] at hc'
      cases hc'
      cases hs
      exact .inl ⟨sequence, rfl, rfl, hdone⟩
  · cases h with
    | sequenceFaulted hm =>
      cases hs
      exact .inr ⟨sequence, child, _, _, _, _, rfl, rfl, rfl, hm⟩
    | sequenceNext | sequenceTold | sequenceAsked => cases hn

/-- What the part in charge of a sequence knows, its heir knows, if a report without fault means
that all children so far are done. -/
theorem keepsCount_heir (h : Yields s now n k P taken p) {begun : List Run} {heard : List Message}
    {done done' : Run → Prop} (hP : P.KeepsCount begun heard done)
    (hdone : ∀ {sequence child c m cs}, P = .waiting (.sequenceWaiting sequence child) →
      taken = some (c, m) → m.report? = some (none, cs) → ∀ elder ∈ begun, done' elder)
    {Q : Part} (hQ : p.heir = some Q) :
    Q.KeepsCount (begun ++ (p.kids.map Part.ready).filterMap Part.start?)
      (heard ++ (taken.map Prod.snd).toList) done' := by
  cases h <;> cases hQ
  case sequenceStarted =>
    obtain ⟨rfl, rfl⟩ := hP
    exact ⟨rfl, fun _ he => absurd he List.not_mem_nil, by simp, fun _ => rfl⟩
  case childStarted sequence children next hc hn ht =>
    obtain ⟨hposition, -, hterminated, -⟩ := hP
    refine ⟨?_, ?_, ?_⟩
    · simp [hposition, Part.start?]
    · simp [Part.start?]
    · simpa using hterminated
  case sequenceNext sequence child c m cs hm =>
    obtain ⟨hposition, hlast, hterminated⟩ := hP
    have hne : m ≠ .terminate := by
      rintro rfl
      cases hm
    refine ⟨?_, ?_, ?_, ?_⟩
    · simpa using hposition
    · simpa using hdone rfl rfl hm
    · simpa [hne.symm] using hterminated
    · intro hnil
      simp only [List.map_nil, List.filterMap_nil, List.append_nil] at hnil
      rw [hnil] at hlast
      cases hlast
  case sequenceTold =>
    obtain ⟨hposition, hlast, -⟩ := hP
    exact ⟨by simpa using hposition, by simpa using hlast, by simp⟩
  case sequenceAsked =>
    obtain ⟨hposition, hlast, hterminated⟩ := hP
    exact ⟨by simpa using hposition, by simpa using hlast, by simpa using hterminated⟩
  all_goals trivial

/-- What was just started has started nothing and taken nothing. -/
theorem keepsCount_kid (h : Yields s now n k P taken p) {t : Task} (ht : t ∈ p.kids)
    (done : Run → Prop) : (Part.ready t).KeepsCount [] [] done := by
  obtain ⟨_, _, _, rfl⟩ | ⟨_, _, _, rfl⟩ := h.kid_cases ht
  · exact ⟨rfl, rfl⟩
  · trivial

end Yields

/-! ### Sequences of a course -/

namespace Course

/-- Why a sequence is over, and the fault that it has to report: all of its children have reported
no fault; the last one that it has started has reported a fault, which the sequence passes on; or
the sequence was told to stop and that last one has reported. -/
inductive SequenceEnds (c : Course) (run : Run) (children : List ActivityId) : Option Fault → Prop
  | all (hlen : (c.offspring run).length = children.length)
      (hall : ∀ child ∈ c.offspring run, c.Reported child none) : SequenceEnds c run children none
  | faulted {child : Run} {fault : Fault} (hlast : (c.offspring run).getLast? = some child)
      (hf : c.Reported child (some fault)) : SequenceEnds c run children (some fault)
  | told {child : Run} (hlast : (c.offspring run).getLast? = some child)
      (ht : .terminate ∈ c.received run) (hr : c.Reported child none) :
      SequenceEnds c run children none

/-- Every sequence has started its children in their order, each after those before it were done,
and has reported only when it was over. -/
structure Conducts (s : Script) (c : Course) : Prop where
  counted : ∀ P ∈ c.soup.parts, ∀ run, P.run? = some run →
    P.KeepsCount (c.offspring run) (c.received run) (c.Reported · none)
  inOrder : ∀ run children, s.children run.activity = .ok children →
    (c.offspring run).map Run.activity <+: children
  oneByOne : ∀ run children, s.children run.activity = .ok children →
    ∀ child ∈ (c.offspring run).dropLast, c.Reported child none
  ended : ∀ run ∈ c.runs, ∀ children, s.children run.activity = .ok children →
    ∀ fault, c.Reported run fault → c.SequenceEnds run children fault

variable {s : Script} {c : Course}

/-- A sequence that is over stays so while it starts nothing and takes nothing. -/
theorem SequenceEnds.mono {d : Course} {run : Run} {children : List ActivityId}
    {fault : Option Fault} (h : c.SequenceEnds run children fault)
    (hoffspring : d.offspring run = c.offspring run) (hreceived : d.received run = c.received run)
    (hreported : ∀ {child fault}, c.Reported child fault → d.Reported child fault) :
    d.SequenceEnds run children fault := by
  cases h with
  | all hlen hall =>
    refine .all (by rw [hoffspring, hlen]) fun child hchild => hreported (hall child ?_)
    rwa [← hoffspring]
  | faulted hlast hf => exact .faulted (hoffspring ▸ hlast) (hreported hf)
  | told hlast ht hr => exact .told (hoffspring ▸ hlast) (hreceived ▸ ht) (hreported hr)

/-- The last child that was started has reported what the sequence has to report. -/
theorem SequenceEnds.last {run : Run} {children : List ActivityId} {fault : Option Fault}
    (h : c.SequenceEnds run children fault) : c.offspring run = [] ∧ fault = none ∨
      ∃ child, (c.offspring run).getLast? = some child ∧ c.Reported child fault := by
  cases h with
  | all hlen hall =>
    cases hlast : (c.offspring run).getLast? with
    | none => exact .inl ⟨List.getLast?_eq_none_iff.1 hlast, rfl⟩
    | some child => exact .inr ⟨child, rfl, hall child (List.mem_of_getLast? hlast)⟩
  | faulted hlast hf => exact .inr ⟨_, hlast, hf⟩
  | told hlast ht hr => exact .inr ⟨_, hlast, hr⟩

theorem Conducts.start (s : Script) : Conducts s { soup := s.newSoup } where
  counted P hP run hrun := by
    obtain rfl := Script.mem_parts_newSoup.1 hP
    exact ⟨rfl, rfl⟩
  inOrder _ _ _ := List.nil_prefix
  oneByOne _ _ _ _ h := absurd h List.not_mem_nil
  ended _ _ _ _ _ h := by
    obtain ⟨cs, hcs⟩ := h
    cases hcs

section Move

variable {now : Instant} {r : Reduction} {p : Products} {consumed : List Link}
  (m : Move s now .root c.soup r p consumed)

include m

/-- A report that a sequence takes is that of its child. -/
theorem reported_of_taken (ho : c.Orderly s) {sequence : SequenceRun} {child : Run}
    (hP : r.part = .waiting (.sequenceWaiting sequence child)) {ch : Channel} {msg : Message}
    (ht : r.taken = some (ch, msg)) {fault : Option Fault} {cs : Compensations}
    (hm : msg.report? = some (fault, cs)) : c.Reported child fault := by
  have hd := m.delivery
  rw [ht] at hd
  obtain ⟨u, hu, hch, rfl, -⟩ := hd.of_report hm
  have hmem := Family.mem_expected_of_awaits .root m.part_mem hu
  rw [hP] at hu
  obtain rfl : u = child.link := List.mem_singleton.1 hu
  refine ⟨cs, ?_⟩
  show _ ∈ c.reports child.link.parent
  rw [ho.awaited_reports _ hmem, m.gives.queue, ht, hch]
  simp [Soup.addressed]

variable (h : c.Conducts s)

include h

/-- A sequence that starts a child starts the one whose turn it is, after all the others are done
and unless it was told to stop. -/
theorem Conducts.of_started (ha : r.part.Apt s) {run : Run} (hrun : r.part.run? = some run)
    {children : List ActivityId} (hc : s.children run.activity = .ok children) :
    (c.extend r).offspring run = c.offspring run ∨
      ∃ child, (c.extend r).offspring run = c.offspring run ++ [child] ∧
        children[(c.offspring run).length]? = some child.activity ∧
        (∀ elder ∈ c.offspring run, c.Reported elder none) ∧ .terminate ∉ c.received run := by
  rw [m.offspring_of_part hrun]
  rcases m.yields.starts_of_sequence ha hrun hc with hnil | ⟨sequence, next, hP, ht, hnext, hstarts⟩
  · rw [hnil, List.append_nil]
    exact .inl rfl
  · have hcounted := h.counted _ m.part_mem run hrun
    rw [hP] at hcounted
    obtain ⟨hposition, hdone, hterminated, -⟩ := hcounted
    rw [hposition] at hnext
    refine .inr ⟨_, congrArg _ hstarts, hnext, hdone, fun he => ?_⟩
    exact Bool.false_ne_true (ht.symm.trans (hterminated.2 he))

theorem Conducts.inOrder_extend (ha : r.part.Apt s) {run : Run} {children : List ActivityId}
    (hc : s.children run.activity = .ok children) :
    ((c.extend r).offspring run).map Run.activity <+: children := by
  have hprefix := h.inOrder run children hc
  by_cases hrun : r.part.run? = some run
  · rcases h.of_started m ha hrun hc with hold | ⟨child, hnew, hnext, -⟩
    · rw [hold]
      exact hprefix
    · -- the child is the first of those that were left
      rw [hnew, List.map_append]
      obtain ⟨rest, hrest⟩ := hprefix
      rw [← hrest, List.getElem?_append_right (by simp), List.length_map, Nat.sub_self] at hnext
      cases rest with
      | nil => cases hnext
      | cons next rest =>
        cases hnext
        exact ⟨rest, by rw [← hrest]; simp⟩
  · rw [offspring_extend_of_ne hrun]
    exact hprefix

theorem Conducts.oneByOne_extend (ha : r.part.Apt s) {run : Run} {children : List ActivityId}
    (hc : s.children run.activity = .ok children) :
    ∀ child ∈ ((c.extend r).offspring run).dropLast, (c.extend r).Reported child none := by
  have hold := h.oneByOne run children hc
  by_cases hrun : r.part.run? = some run
  · rcases h.of_started m ha hrun hc with heq | ⟨child, hnew, -, hdone, -⟩
    · rw [heq]
      exact fun child hchild => (hold child hchild).extend r
    · rw [hnew, List.dropLast_concat]
      exact fun elder helder => (hdone elder helder).extend r
  · rw [offspring_extend_of_ne hrun]
    exact fun child hchild => (hold child hchild).extend r

variable (ho : c.Orderly s)

include ho

/-- When a sequence takes a report without fault, all children so far are done. -/
theorem Conducts.done_of_taken {run : Run} (hrun : r.part.run? = some run)
    {sequence : SequenceRun} {child : Run}
    (hP : r.part = .waiting (.sequenceWaiting sequence child)) {ch : Channel} {msg : Message}
    (ht : r.taken = some (ch, msg)) {cs : Compensations} (hm : msg.report? = some (none, cs)) :
    ∀ elder ∈ c.offspring run, c.Reported elder none := by
  have hsound := m.part_sound
  have hcounted := h.counted _ m.part_mem run hrun
  have hreported := reported_of_taken m ho hP ht hm
  rw [hP] at hrun hsound hcounted
  obtain rfl := Option.some.inj hrun
  obtain ⟨children, hc⟩ := hsound
  obtain ⟨-, hlast, -⟩ := hcounted
  intro elder helder
  rw [← List.dropLast_append_getLast? child hlast] at helder
  rcases List.mem_append.1 helder with hearly | hlate
  · exact h.oneByOne _ children hc elder hearly
  · rw [List.mem_singleton.1 hlate]
    exact hreported

theorem Conducts.counted_extend (hn : c.Numbered) {P : Part} (hP : P ∈ r.after.parts) {run : Run}
    (hrun : P.run? = some run) : P.KeepsCount ((c.extend r).offspring run)
      ((c.extend r).received run) ((c.extend r).Reported · none) := by
  rcases m.mem_after.1 hP with hQ | ⟨t, ht, rfl⟩ | hb
  · rw [m.yields.run?_heir hQ] at hrun
    rw [m.offspring_of_part hrun, received_extend, if_pos hrun]
    refine m.yields.keepsCount_heir (h.counted _ m.part_mem run hrun) ?_ hQ
    intro sequence child ch msg cs hpart htaken hreport elder helder
    exact (h.done_of_taken m ho hrun hpart htaken hreport elder helder).extend r
  · rw [m.offspring_of_kid hn ht hrun, received_of_kid m hn ht hrun]
    exact m.yields.keepsCount_kid ht _
  · have hne := run?_ne_of_before m hb hrun
    rw [offspring_extend_of_ne hne, received_extend_of_ne hne]
    exact (h.counted P (m.mem_of_before hb) run hrun).mono fun _ hr => hr.extend r

/-- A sequence that reports is over. -/
theorem Conducts.ends_of_report (ha : r.part.Apt s) {run : Run} (hrun : r.part.run? = some run)
    {children : List ActivityId} (hc : s.children run.activity = .ok children)
    {fault : Option Fault} {cs : Compensations} (hn : p.heir = none)
    (hs : p.sent = [(r.part.home, .completed fault cs)]) :
    (c.extend r).SequenceEnds run children fault := by
  have hcounted := h.counted _ m.part_mem run hrun
  have hoffspring : (c.extend r).offspring run = c.offspring run := by
    rw [m.offspring_of_part hrun, (m.yields.sent_of_heir_eq_none hn).1]
    exact List.append_nil _
  rcases m.yields.report_of_sequence ha hrun hc hn hs with
    ⟨sequence, hP, rfl, hover⟩ | ⟨sequence, child, f, ch, msg, cs', hP, rfl, ht, hm⟩
  · rw [hP] at hcounted
    obtain ⟨hposition, hdone, hterminated, hheard⟩ := hcounted
    rcases hover with hnone | hover
    · -- there is no child left
      have hle : (c.offspring run).length ≤ children.length := by
        simpa using (h.inOrder run children hc).length_le
      rw [List.getElem?_eq_none_iff, hposition] at hnone
      have hlen := Nat.le_antisymm hle hnone
      refine .all (by rw [hoffspring, hlen]) fun child hchild => ?_
      exact (hdone child (hoffspring ▸ hchild)).extend r
    · -- the sequence was told to stop, which it can only be while a child is under way
      have hstop := hterminated.1 hover
      have hne : c.offspring run ≠ [] := fun he => by
        rw [hheard he] at hstop
        cases hstop
      have hlast := List.getLast?_eq_some_getLast hne
      refine .told (by rw [hoffspring, hlast]) ?_ ((hdone _ (List.getLast_mem hne)).extend r)
      rw [received_extend]
      exact List.mem_append_left _ hstop
  · have hreported := reported_of_taken m ho hP ht hm
    rw [hP] at hcounted
    exact .faulted (hoffspring ▸ hcounted.2.1) (hreported.extend r)

theorem Conducts.ended_extend (ha : r.part.Apt s) (hacc : c.Accounted) {run : Run}
    (hrun : run ∈ (c.extend r).runs) {children : List ActivityId}
    (hc : s.children run.activity = .ok children) {fault : Option Fault}
    (hr : (c.extend r).Reported run fault) : (c.extend r).SequenceEnds run children fault := by
  obtain ⟨cs, hcs⟩ := hr
  rw [Orderly.reports_extend] at hcs
  rcases m.mem_runs_extend.1 hrun with ⟨t, ht, hkid⟩ | hrun
  · -- what was just started has not reported
    exfalso
    rcases List.mem_append.1 hcs with hold | hnew
    · exact m.not_reported_of_kid ho ht hkid fault ⟨cs, hold⟩
    · obtain ⟨-, hhome, -⟩ := m.report_of_mem_sentTo (List.mem_of_mem_filter hnew)
      have hlt := m.home_new_of_kid ht
      rw [Part.home_of_run? hkid, hhome] at hlt
      exact absurd (m.family.home_below m.part_mem) (Nat.not_lt.2 hlt)
  · rcases List.mem_append.1 hcs with hold | hnew
    · have hr : c.Reported run fault := ⟨cs, hold⟩
      have hne := ho.run?_ne_of_reported hr m.part_mem
      exact (h.ended run hrun children hc fault hr).mono (offspring_extend_of_ne hne)
        (received_extend_of_ne hne) fun hr => hr.extend r
    · obtain ⟨hn, hhome, hs⟩ := m.report_of_mem_sentTo (List.mem_of_mem_filter hnew)
      have hpart := hacc.run?_of_home ho hrun m.part_mem hhome.symm
      exact h.ends_of_report m ho ha hpart hc hn hs

theorem Conducts.extend (ha : r.part.Apt s) (hn : c.Numbered) (hacc : c.Accounted) :
    (c.extend r).Conducts s where
  counted _ hP _ hrun := h.counted_extend m ho hn hP hrun
  inOrder _ _ hc := h.inOrder_extend m ha hc
  oneByOne _ _ hc := h.oneByOne_extend m ha hc
  ended _ hrun _ hc _ hr := h.ended_extend m ho ha hacc hrun hc hr

end Move

/-- A sequence goes through its children in order. -/
structure RunsInOrder (s : Script) (c : Course) (run : Run) (children : List ActivityId) :
    Prop where
  /-- The children started so far are the first ones, in their order, and each is started once. -/
  started : (c.offspring run).map Run.activity <+: children ∧ (c.offspring run).Nodup
  /-- If the next reduction starts a child, it is the one whose turn it is, those before it have
  reported no fault, and the sequence was not told to stop. -/
  next : ∀ now r, s.reduction? now c.soup = .ok (some r) → r.part.run? = some run →
    ∀ child ∈ r.produced.filterMap Part.start?,
      children[(c.offspring run).length]? = some child.activity ∧
        (∀ elder ∈ c.offspring run, c.Reported elder none) ∧ .terminate ∉ c.received run
  /-- At most one child is under way. -/
  single : ∀ a ∈ c.offspring run, ∀ b ∈ c.offspring run, c.Lives a → c.Lives b → a = b
  /-- The sequence reports only what it has to. -/
  ended : ∀ fault, c.Reported run fault → c.SequenceEnds run children fault
  /-- When the instance rests, the sequence has reported what it has to. -/
  ends : c.soup.hasWork = false →
    ∀ fault, c.SequenceEnds run children fault → c.Reported run fault

end Course

namespace Script

variable {s : Script} {c : Course}

/-- All sequences of a course are conducted. -/
theorem Driven.conducts (h : s.Driven c) : c.Conducts s := by
  induction h with
  | start _ => exact .start s
  | @inject c ch msg _ _ ih =>
    refine ⟨c.soup.parts_send ch msg ▸ ih.counted, ih.inOrder, ih.oneByOne, ?_⟩
    rw [c.runs_inject]
    exact fun run hrun children hc fault hr =>
      (ih.ended run hrun children hc fault hr).mono rfl rfl id
  | reduce h hr ih =>
    obtain ⟨p, consumed, m⟩ := h.orderly.family.exists_move hr
    exact ih.extend m h.orderly (h.apt _ m.part_mem) h.numbered h.accounted
  | drain _ ih =>
    exact ⟨ih.counted, ih.inOrder, ih.oneByOne, fun run hrun children hc fault hr =>
      (ih.ended run hrun children hc fault hr).mono rfl rfl id⟩

/-- At most one child of a sequence is under way: the last one. -/
theorem Driven.eq_of_lives (h : s.Driven c) {run : Run} {children : List ActivityId}
    (hc : s.children run.activity = .ok children) {a b : Run} (ha : a ∈ c.offspring run)
    (hb : b ∈ c.offspring run) (hla : c.Lives a) (hlb : c.Lives b) : a = b := by
  have hlast {x : Run} (hx : x ∈ c.offspring run) (hl : c.Lives x) :
      (c.offspring run).getLast? = some x := by
    have hne := List.ne_nil_of_mem hx
    rw [← List.dropLast_append_getLast hne] at hx
    rcases List.mem_append.1 hx with hearly | hlate
    · -- the others have reported
      obtain ⟨P, hP, hrun⟩ := hl
      have hdone := h.conducts.oneByOne run children hc x hearly
      exact absurd hrun (h.orderly.run?_ne_of_reported hdone hP)
    · rw [List.mem_singleton.1 hlate]
      exact List.getLast?_eq_some_getLast hne
  exact Option.some.inj ((hlast ha hla).symm.trans (hlast hb hlb))

/-- What a sequence has to report is determined. -/
theorem Driven.sequenceEnds_unique (h : s.Driven c) {run : Run} {children : List ActivityId}
    {fault fault' : Option Fault} (he : c.SequenceEnds run children fault)
    (he' : c.SequenceEnds run children fault') : fault = fault' := by
  rcases he.last with ⟨hnil, rfl⟩ | ⟨child, hlast, hr⟩
  · rcases he'.last with ⟨-, rfl⟩ | ⟨child, hlast, -⟩
    · rfl
    · rw [hnil] at hlast
      cases hlast
  · rcases he'.last with ⟨hnil, -⟩ | ⟨child', hlast', hr'⟩
    · rw [hnil] at hlast
      cases hlast
    · cases hlast.symm.trans hlast'
      exact h.orderly.reported_unique hr hr'

/-- While the instance rests, no sequence that is over waits for its child: the report of the child
would wait to be taken. -/
theorem Driven.reported_of_ends (h : s.Driven c) (hw : c.soup.hasWork = false) {run : Run}
    (hrun : run ∈ c.starts) {children : List ActivityId}
    (hc : s.children run.activity = .ok children) {fault : Option Fault}
    (he : c.SequenceEnds run children fault) : c.Reported run fault := by
  have ho := h.orderly
  have hmem : run ∈ c.runs := List.mem_append_left _ hrun
  rcases h.accounted.alive run hmem with ⟨P, hP, hPrun⟩ | ⟨fault', hr⟩
  · exfalso
    have hcounted := h.conducts.counted P hP run hPrun
    obtain ⟨q, rfl, -⟩ := ho.family.waits_of_rest hw hP
    rcases Part.sequence_cases (h.apt _ hP) hPrun hc with hq | ⟨sequence, -, hq | ⟨child, hq⟩⟩
    · cases hq
    · cases hq
    · cases hq
      have hempty := ho.family.queue_parent_of_rest hw hP List.mem_cons_self
      rw [← ho.awaited_reports _ (Family.mem_expected_of_awaits .root hP List.mem_cons_self)]
        at hempty
      rcases he.last with ⟨hnil, -⟩ | ⟨child', hlast, cs, hcs⟩
      · rw [hnil] at hcounted
        cases hcounted.2.1
      · cases hcounted.2.1.symm.trans hlast
        exact List.ne_nil_of_mem hcs hempty
  · rw [h.sequenceEnds_unique he (h.conducts.ended run hmem children hc fault' hr)]
    exact hr

/-- **Sequences run their children in order.**  In every round of a well-driven course, after any
number of reductions, every sequence that has been started, at any depth and in any firing of an
alarm, has started some of its children, in their order and each once.  It starts the next one only
when all before it have reported no fault, and not after it was told to stop, so at most one of them
is under way.  It reports exactly when all of its children have reported no fault, when the child
under way has reported a fault, which it passes on, or when it was told to stop and that child has
reported. -/
theorem WellDriven.runs_in_order (h : s.WellDriven c) {ms : List (Channel × Message)}
    (hms : ∀ e ∈ ms, c.Admits e.1 e.2) (now : Instant) (n : Nat) :
    let d := s.advance now n (c.inject ms)
    ∀ run ∈ d.starts, ∀ children, s.children run.activity = .ok children →
      d.RunsInOrder s run children := by
  intro d run hrun children hc
  have hd : s.Driven d := (h.driven.injectEach ms hms).advance now n
  have hconducts := hd.conducts
  refine
    { started := ⟨hconducts.inOrder run children hc, hd.accounted.once run⟩
      next := fun t r hr hpart child hchild => ?_
      single := fun a ha b hb hla hlb => hd.eq_of_lives hc ha hb hla hlb
      ended := hconducts.ended run (List.mem_append_left _ hrun) children hc
      ends := fun hw fault he => hd.reported_of_ends hw hrun hc he }
  obtain ⟨p, consumed, m⟩ := hd.orderly.family.exists_move hr
  have hoffspring := d.offspring_extend r run
  rw [if_pos hpart] at hoffspring
  rcases hconducts.of_started m (hd.apt _ m.part_mem) hpart hc with hold | ⟨first, hnew, hnext⟩
  · rw [hold, List.self_eq_append_right] at hoffspring
    rw [hoffspring] at hchild
    cases hchild
  · rw [hnew, List.append_cancel_left_eq] at hoffspring
    rw [← hoffspring, List.mem_singleton] at hchild
    rw [hchild]
    exact hnext

/-- Three errands, the second of which takes a day. -/
def errands : Script where
  definition :=
    { processId := "errands", name := "errands", root := 0
      activities :=
        [{ id := 0, name := none, kind := .sequence [1, 2, 3] },
         { id := 1, name := none, kind := .empty },
         { id := 2, name := none, kind := .wait (.delay "day") },
         { id := 3, name := none, kind := .empty }] }
  evaluator occasion :=
    { duration := fun _ => .ok 86400000000000
      deadline := fun _ => .ok occasion.now }

/-- Errands that are called off: the third one is never begun, and that is why they end. -/
theorem runs_in_order_errands :
    let d := errands.advance ⟨0, 0⟩ 30
      (Course.inject { soup := errands.newSoup } [(1, .terminate)])
    (d.offspring errands.rootRun).map Run.activity = [1, 2] ∧
      .terminate ∈ d.received errands.rootRun ∧ d.Reported errands.rootRun none ∧
      d.SequenceEnds errands.rootRun [1, 2, 3] none := by
  intro d
  have hreported : d.Reported errands.rootRun none := ⟨∅, by decide +kernel⟩
  have horder := WellDriven.runs_in_order (s := errands) (.start rfl)
    (Driven.start (s := errands) rfl).admits_terminate ⟨0, 0⟩ 30 errands.rootRun
    (by decide +kernel) [1, 2, 3] rfl
  exact ⟨by decide +kernel, by decide +kernel, hreported, horder.ended none hreported⟩

end Script

end Perdure
