import Perdure.Proofs.Instance.Cargo
import Perdure.Proofs.Instance.Runs

/-!
# Runs and what they start

A run has a part until it reports, and then it has none.  The log tells which other runs it has
started, and each of them only once.

## Main definitions

* `Course.offspring` — the runs that a run has started.
* `Course.Reported`, `Course.Lives` — a run has reported; a part works for it.
* `Course.Accounted` — every run has a part until it reports.

## Main results

* `Script.Driven.accounted` — the runs of every course are accounted for.
-/

namespace Perdure

namespace Course

/-- The runs that a run has started, first to last. -/
def offspring (c : Course) (run : Run) : List Run :=
  c.log.flatMap fun r => if r.part.run? = some run then r.produced.filterMap Part.start? else []

/-- A run has reported, with a fault or without one. -/
def Reported (c : Course) (run : Run) (fault : Option Fault) : Prop :=
  ∃ cs, .completed fault cs ∈ c.reports run.parent

/-- A run is under way: a part works for it. -/
def Lives (c : Course) (run : Run) : Prop := ∃ P ∈ c.soup.parts, P.run? = some run

variable {s : Script} {c : Course}

theorem offspring_extend (c : Course) (r : Reduction) (run : Run) : (c.extend r).offspring run =
    c.offspring run ++ if r.part.run? = some run then r.produced.filterMap Part.start? else [] := by
  simp [offspring]

/-- What other parts start is no offspring of a run. -/
theorem offspring_extend_of_ne {r : Reduction} {run : Run} (h : r.part.run? ≠ some run) :
    (c.extend r).offspring run = c.offspring run := by
  rw [offspring_extend, if_neg h, List.append_nil]

/-- What was reported stays reported. -/
theorem Reported.extend {run : Run} {fault : Option Fault} (h : c.Reported run fault)
    (r : Reduction) : (c.extend r).Reported run fault := by
  obtain ⟨cs, hcs⟩ := h
  refine ⟨cs, ?_⟩
  rw [Orderly.reports_extend]
  exact List.mem_append_left _ hcs

/-- Nothing works any more for a run that has reported. -/
theorem Orderly.run?_ne_of_reported (h : c.Orderly s) {run : Run} {fault : Option Fault}
    (hr : c.Reported run fault) {P : Part} (hP : P ∈ c.soup.parts) : P.run? ≠ some run := by
  obtain ⟨cs, hcs⟩ := hr
  exact fun hrun => h.reported_gone _ (List.ne_nil_of_mem hcs) P hP (Part.home_of_run? hrun)

/-- A run reports only one thing. -/
theorem Orderly.reported_unique (h : c.Orderly s) {run : Run} {fault fault' : Option Fault}
    (hr : c.Reported run fault) (hr' : c.Reported run fault') : fault = fault' := by
  obtain ⟨cs, hcs⟩ := hr
  obtain ⟨cs', hcs'⟩ := hr'
  obtain ⟨msg, hmsg⟩ := List.length_eq_one_iff.1
    (Nat.le_antisymm (h.reported_once run.parent) (List.length_pos_of_mem hcs))
  rw [hmsg] at hcs hcs'
  have he := (List.mem_singleton.1 hcs).trans (List.mem_singleton.1 hcs').symm
  cases he
  rfl

/-- Every run has a part until it reports, and is started once. -/
structure Accounted (c : Course) : Prop where
  alive : ∀ run ∈ c.runs, c.Lives run ∨ ∃ fault, c.Reported run fault
  begun : ∀ run, ∀ child ∈ c.offspring run, child ∈ c.runs
  once : ∀ run, (c.offspring run).Nodup

/-- A part that reports where a run does works for that run. -/
theorem Accounted.run?_of_home (h : c.Accounted) (ho : c.Orderly s) {run : Run}
    (hrun : run ∈ c.runs) {P : Part} (hP : P ∈ c.soup.parts) (hhome : P.home = run.parent) :
    P.run? = some run := by
  rcases h.alive run hrun with ⟨Q, hQ, hQrun⟩ | ⟨fault, cs, hcs⟩
  · have he : P.home = Q.home := hhome.trans (Part.home_of_run? hQrun).symm
    rw [ho.family.part_unique_of_home hP hQ he]
    exact hQrun
  · exact absurd hhome (ho.reported_gone _ (List.ne_nil_of_mem hcs) P hP)

end Course

namespace Move

variable {s : Script} {c : Course} {now : Instant} {r : Reduction} {p : Products}
  {consumed : List Link} (m : Move s now .root c.soup r p consumed)

include m

/-- The log knows which runs were started. -/
theorem starts_produced :
    r.produced.filterMap Part.start? = (p.kids.map Part.ready).filterMap Part.start? := by
  have hwaiting (qs : List Receiver) : (qs.map Part.waiting).filterMap Part.start? = [] := by
    rw [List.filterMap_map, List.filterMap_eq_nil_iff]
    exact fun _ _ => rfl
  rw [m.produced_eq, List.filterMap_append, hwaiting, List.append_nil, Products.tasks]
  split
  · next t hQ => simp [m.yields.start?_heir hQ]
  · rfl

theorem offspring_of_part {run : Run} (hrun : r.part.run? = some run) : (c.extend r).offspring run =
    c.offspring run ++ (p.kids.map Part.ready).filterMap Part.start? := by
  rw [Course.offspring_extend, if_pos hrun, m.starts_produced]

/-- A part that is done reports for its run. -/
theorem reported_of_done {run : Run} (hrun : r.part.run? = some run) (hn : p.heir = none) :
    ∃ fault, (c.extend r).Reported run fault := by
  obtain ⟨-, -, fault, cs, hs⟩ := m.yields.sent_of_heir_eq_none hn
  refine ⟨fault, cs, ?_⟩
  rw [Course.Orderly.reports_extend, ← Part.home_of_run? hrun, m.sentTo_eq, hs]
  simp [Soup.addressed, Message.isCompleted]

theorem mem_runs_extend {run : Run} : run ∈ (c.extend r).runs ↔
    (∃ t ∈ p.kids, (Part.ready t).run? = some run) ∨ run ∈ c.runs := by
  rw [(Course.runs_extend m).mem_iff, List.mem_append, List.mem_filterMap]
  refine or_congr_left ⟨?_, ?_⟩
  · rintro ⟨P, hP, hrun⟩
    obtain ⟨t, ht, rfl⟩ := List.mem_map.1 hP
    exact ⟨t, ht, m.yields.start?_kid ht ▸ hrun⟩
  · rintro ⟨t, ht, hrun⟩
    exact ⟨_, List.mem_map_of_mem ht, m.yields.start?_kid ht ▸ hrun⟩

/-- A run that was just started has not reported. -/
theorem not_reported_of_kid (h : c.Orderly s) {t : Task} (ht : t ∈ p.kids) {run : Run}
    (hrun : (Part.ready t).run? = some run) (fault : Option Fault) : ¬ c.Reported run fault := by
  rintro ⟨cs, hcs⟩
  have hnew := m.home_new_of_kid ht
  rw [Part.home_of_run? hrun] at hnew
  exact absurd (h.reported_below _ (List.ne_nil_of_mem hcs)) (Nat.not_lt.2 hnew)

/-- A run that was just started has started nothing. -/
theorem offspring_of_kid (hn : c.Numbered) {t : Task} (ht : t ∈ p.kids) {run : Run}
    (hrun : (Part.ready t).run? = some run) : (c.extend r).offspring run = [] :=
  List.flatMap_eq_nil_iff.2 fun _ hq => if_neg (hn.run?_ne_of_kid m ht hrun hq)

/-- After a reduction a run that was under way still is, or has reported. -/
theorem lives_or_reported_after {run : Run} (h : c.Lives run) :
    (c.extend r).Lives run ∨ ∃ fault, (c.extend r).Reported run fault := by
  obtain ⟨P, hP, hrun⟩ := h
  rcases m.mem_before_or hP with rfl | hb
  · cases hQ : p.heir with
    | none => exact .inr (m.reported_of_done hrun hQ)
    | some Q =>
      exact .inl ⟨Q, m.mem_after.2 (.inl hQ), (m.yields.run?_heir hQ).trans hrun⟩
  · exact .inl ⟨P, m.mem_after.2 (.inr (.inr hb)), hrun⟩

theorem accounted_extend (h : c.Accounted) (hn : c.Numbered) : (c.extend r).Accounted where
  alive run hrun := by
    rcases m.mem_runs_extend.1 hrun with ⟨t, ht, hrun⟩ | hrun
    · exact .inl ⟨_, m.mem_after.2 (.inr (.inl ⟨t, ht, rfl⟩)), hrun⟩
    · rcases h.alive run hrun with hl | ⟨fault, hr⟩
      · exact m.lives_or_reported_after hl
      · exact .inr ⟨fault, hr.extend r⟩
  begun run child hchild := by
    rw [(Course.runs_extend m).mem_iff]
    by_cases hr : r.part.run? = some run
    · rw [m.offspring_of_part hr] at hchild
      rcases List.mem_append.1 hchild with hold | hnew
      · exact List.mem_append_right _ (h.begun run child hold)
      · exact List.mem_append_left _ hnew
    · rw [Course.offspring_extend_of_ne hr] at hchild
      exact List.mem_append_right _ (h.begun run child hchild)
  once run := by
    by_cases hr : r.part.run? = some run
    · rw [m.offspring_of_part hr]
      -- what is started takes numbers that no run had before
      have hids : (((p.kids.map Part.ready).filterMap Part.start?).map Run.id).Nodup := by
        rw [m.yields.starts_kids]
        exact List.nodup_range'
      refine List.nodup_append.2 ⟨h.once run, hids.of_map, ?_⟩
      rintro child hold _ hnew rfl
      obtain ⟨P, hP, hstart⟩ := List.mem_filterMap.1 hnew
      obtain ⟨t, ht, rfl⟩ := List.mem_map.1 hP
      exact hn.not_mem_runs_of_kid m ht (m.yields.start?_kid ht ▸ hstart) (h.begun run child hold)
    · rw [Course.offspring_extend_of_ne hr]
      exact h.once run

end Move

/-- The runs of every course are accounted for. -/
theorem Script.Driven.accounted {s : Script} {c : Course} (h : s.Driven c) : c.Accounted := by
  induction h with
  | start _ =>
    refine ⟨fun run hrun => .inl ?_, fun _ _ hchild => absurd hchild List.not_mem_nil,
      fun _ => List.nodup_nil⟩
    obtain rfl := List.mem_singleton.1 hrun
    exact ⟨_, mem_parts_newSoup.2 rfl, rfl⟩
  | @inject c ch msg _ _ ih =>
    have hruns := c.runs_inject ch msg
    refine ⟨fun run hrun => ?_, fun run child hchild => hruns ▸ ih.begun run child hchild, ih.once⟩
    refine (ih.alive run (hruns ▸ hrun)).imp_left ?_
    rintro ⟨P, hP, hPrun⟩
    exact ⟨P, (c.soup.parts_send ch msg).symm ▸ hP, hPrun⟩
  | reduce h hr ih =>
    obtain ⟨p, consumed, m⟩ := h.orderly.family.exists_move hr
    exact m.accounted_extend ih h.numbered
  | drain _ ih => exact ⟨ih.alive, ih.begun, ih.once⟩

end Perdure
