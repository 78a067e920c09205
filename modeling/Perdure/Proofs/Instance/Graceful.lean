import Perdure.Proofs.Instance.Takedown
import Perdure.Proofs.Instance.Winding

/-!
# Graceful ends

An instance that is suspended and told to stop comes to its end: whatever the evaluator and the
clock, it winds down by the same reductions, never fails, starts nothing, disarms all of its timers
and reports without fault.

## Main definitions

* `Course.Suspended` — instances that rest while somebody waits.
* `Course.EndsQuietly` — the end of an instance that winds down.

## Main results

* `Winding.comes_to_rest` — an instance that winds down comes to rest.
* `Script.WellDriven.ends_gracefully` — a suspended instance that is told to stop ends gracefully.
-/

namespace Perdure

/-! ### On the way down -/

/-- An instance with work left has a part that reacts next. -/
theorem Soup.exists_pick {soup : InstanceSoup} (hw : soup.hasWork = true) :
    ∃ P taken rest, soup.pick? = some (P, taken, rest) := by
  cases hp : soup.pick? with
  | some found => exact ⟨_, _, _, rfl⟩
  | none =>
    unfold Soup.pick? at hp
    cases hr : soup.takeRunnable? with
    | some found =>
      rw [hr] at hp
      cases hp
    | none =>
      simp only [hr, Option.map_eq_none_iff] at hp
      rw [(Soup.hasWork_eq_false_iff soup).2 ⟨hr, hp⟩] at hw
      cases hw

namespace Winding

variable {s : Script} {root : Link}

/-- While work is left, the next reduction is the same for every evaluator and clock. -/
theorem exists_reduction {told : List Link} {soup : InstanceSoup} (h : Winding told root soup)
    (hf : Family s root soup) (hw : soup.hasWork = true) :
    ∃ r, r.part.Winds told r.taken ∧ ∀ evaluator now,
      (s.withEvaluator evaluator).reduction? now soup = .ok (some r) := by
  obtain ⟨P, taken, rest, hp⟩ := Soup.exists_pick hw
  have hg := Soup.gives_of_pick? hf.regular hp
  have hwinds := h.winds hf hg
  have hP : P ∈ soup.parts := hg.parts.mem_iff.2 List.mem_cons_self
  obtain ⟨p, hy⟩ := hwinds.exists_yields (hf.sound P hP)
  exact ⟨⟨P, taken, rest, p.addTo rest⟩, hwinds, fun evaluator now =>
    Script.reduction?_of_yields hf.regular hp (hy evaluator now _ _)⟩

/-- An instance that winds down comes to rest, and on the way it starts nothing and only disarms
timers. -/
theorem comes_to_rest {told : List Link} {c : Course} (h : Winding told root c.soup)
    (hf : Family s root c.soup) : ∃ n d rs,
      (∀ evaluator now, (s.withEvaluator evaluator).RestsAfter now n c ∧
        (s.withEvaluator evaluator).advance now n c = d) ∧
      (d.log = c.log ++ rs ∧ ∀ r ∈ rs, ¬ r.part.Starting) ∧
      (∃ told', Winding told' root d.soup) ∧ ∃ ts, Disarms ts c.soup d.soup := by
  -- the induction is on what is left to do, which every reduction lowers
  induction hn : c.soup.left told using Nat.strongRecOn generalizing told c with
  | _ n ih =>
    cases hw : c.soup.hasWork with
    | false =>
      exact ⟨0, c, [], fun _ _ => ⟨⟨rfl, hw⟩, rfl⟩, ⟨(List.append_nil _).symm, by simp⟩,
        ⟨told, h⟩, [], .refl _⟩
    | true =>
      obtain ⟨r, hwinds, hr⟩ := h.exists_reduction hf hw
      -- the move is that of the script's own evaluator; the reduction is the same for every other
      obtain ⟨p, consumed, m⟩ := hf.exists_move (hr s.evaluator ⟨0, 0⟩)
      obtain ⟨ts, hts⟩ := m.disarms_after hwinds
      obtain ⟨n, d, rs, hd, ⟨hlog, hrs⟩, htold, us, hus⟩ := ih _ (hn ▸ m.left_after hwinds)
        (c := c.extend r) (m.winding_after hwinds h) m.family_after rfl
      refine ⟨n + 1, d, r :: rs, ?_, ⟨?_, ?_⟩, htold, ts ++ us, hts.trans hus⟩
      · intro evaluator now
        rw [Script.restsAfter_succ (hr evaluator now), Script.advance_of_reduction? (hr evaluator now)]
        exact hd evaluator now
      · rw [hlog, Course.log_extend, List.append_assoc]
        rfl
      · intro q hq
        rcases List.mem_cons.1 hq with rfl | hq
        · exact hwinds.not_starting
        · exact hrs q hq

end Winding

/-! ### The beginning -/

/-- An undisturbed instance at rest whose root is told to stop winds down. -/
theorem Family.winding_of_terminate {s : Script} {root : Link} {soup : InstanceSoup}
    (h : Family s root soup) (hw : soup.hasWork = false) (hc : Calm root soup)
    (hr : soup.queue root.parent = []) :
    Winding [] root (soup.send root.termination .terminate) := by
  have hsilent := h.queue_of_calm hw hc hr
  have hroot : root ∈ soup.expected root := List.mem_cons_self
  -- no message waits but the order to the root
  have hqueue {q : Channel} (hq : q ≠ root.termination) :
      (soup.send root.termination .terminate).queue q = [] := by
    rw [Soup.queue_send, if_neg fun he => hq he.1]
    exact hsilent q
  have hparts := soup.parts_send root.termination .terminate
  refine
    { stopping := fun _ _ ht => absurd ht List.not_mem_nil, unhalted := fun P hP _ => ?_
      ready := fun t ht => ?_, faultless := fun P hP hf => ?_, report := fun l hl m hm => ?_
      once := fun _ _ ht => absurd ht List.not_mem_nil, single := fun l _ => ?_
      untouched := fun P hP _ u hu => ?_, control := fun l hl q hq => ?_
      event := fun t ht => ?_ }
  · rw [hparts] at hP
    exact hc.unhalted P hP
  · rw [hparts] at ht
    obtain ⟨q, he, -⟩ := h.waits_of_rest hw ht
    cases he
  · rw [hparts] at hP
    exact hc.unhalted P hP (hf.halted (h.sound P hP))
  · rw [soup.expected_send] at hl
    rw [hqueue (h.parent_ne_order hl hroot (.inl rfl))] at hm
    cases hm
  · by_cases hl : l.termination = root.termination
    · rw [hl, Soup.queue_send, hsilent]
      split <;> simp
    · rw [hqueue hl]
      exact Nat.zero_le _
  · rw [hparts] at hP
    have hue := mem_expected_of_awaits root hP hu
    refine ⟨List.not_mem_nil, hqueue (h.parent_ne_order hue hroot (.inl rfl)), hqueue ?_⟩
    intro he
    have hur := h.link_unique hue hroot (c := u.termination) (by simp) (by simp [he])
    exact h.root_not_awaited (hur ▸ List.mem_flatMap.2 ⟨P, hP, hu⟩)
  · rw [soup.expected_send] at hl
    exact hqueue fun he => h.termination_ne_control hroot hl hq he.symm
  · rw [soup.awaitedTimers_send] at ht
    apply hqueue
    rintro rfl
    exact h.timer_ne hroot (by simp) ht

/-- The order to the root disarms nothing. -/
theorem Family.get?_timers_terminate {s : Script} {root : Link} {soup : InstanceSoup}
    (h : Family s root soup) (t : Channel) :
    (soup.send root.termination .terminate).timers.get? t = soup.timers.get? t := by
  rw [Soup.get?_timers_send]
  apply ite_eq_right_iff.2
  rintro ⟨rfl, -⟩
  cases ht : soup.timers.get? root.termination with
  | none => rfl
  | some d =>
    have hroot : root ∈ soup.expected root := List.mem_cons_self
    exact absurd (h.armed _ d ht).1 (h.timer_ne hroot (by simp))

/-! ### The end -/

/-- When no timer is left, those that were disarmed are those that were armed. -/
theorem Disarms.mem_iff {ts : List Channel} {s t : InstanceSoup} (h : Disarms ts s t)
    (ht : t.timers = ∅) (c : Channel) : c ∈ ts ↔ s.timers.contains c = true := by
  refine ⟨h.armed c, ?_⟩
  intro hc
  by_contra hno
  have hgone := h.timers c
  rw [if_neg hno, ht] at hgone
  have hnone : s.timers.get? c = none := hgone.symm
  rw [Table.contains, hnone] at hc
  cases hc

namespace Course

/-- Nothing is left to do, and somebody waits. -/
def Suspended (c : Course) : Prop := c.soup.hasWork = false ∧ c.soup.choices ≠ []

/-- From `c` to `d` an instance has come to its end: nothing runs or waits and no timer is armed,
the root has reported without fault, and the effects since `c` are that each timer was disarmed
that was armed. -/
structure EndsQuietly (root : RootLink) (c d : Course) : Prop where
  emptied : d.soup.runnables = [] ∧ d.soup.choices = [] ∧ d.soup.timers = ∅
  report : ∃ cs, d.soup.queue root.parent = [.completed none cs]
  effects : ∃ ts : List Channel, ts.Nodup ∧ (∀ t, t ∈ ts ↔ c.soup.timers.contains t = true) ∧
    d.soup.outbox = c.soup.outbox ++ ts.map .cancelTimer

end Course

namespace Script

/-- An execution whose outcome is suspended leaves a suspended course. -/
theorem suspended_of_execute {s : Script} {now : Instant} {limit : Nat} {c : Course}
    {o : Outcome Shared Task Receiver Message} (ho : s.program.execute now limit c.soup = .ok o)
    (hs : o.rest = .suspended) : (s.advance now o.reductions c).Suspended := by
  obtain ⟨-, hrest, hsoup⟩ := execute_eq_ok_iff.1 ho
  refine ⟨hrest.2, ?_⟩
  intro hnil
  rw [Outcome.rest, hsoup, hnil] at hs
  cases hs

namespace Driven

variable {s : Script} {c : Course}

/-- While an instance is suspended its root has not reported, and nobody was told to stop. -/
theorem calm_of_suspended (h : s.Driven c) (hs : c.Suspended) :
    c.soup.queue Link.root.parent = [] ∧ Calm .root c.soup := by
  have hf := h.orderly.family
  have hnil : c.soup.queue Link.root.parent = [] := by
    by_contra hne
    exact hs.2 ((hf.parts_of_rest hs.1).2.1 (hf.parts_eq_nil hne))
  refine ⟨hnil, h.falling_or_calm.resolve_left ?_⟩
  intro hfall
  exact hf.report_of_falling hs.1 h.obedient hfall hnil

/-- An instance that has wound down has reported without fault, and nothing is left of it. -/
theorem over_of_winding (h : s.Driven c) (hfall : Falling .root c.soup) {told : List Link}
    (hw : Winding told .root c.soup) (hrest : c.soup.hasWork = false) :
    (c.soup.runnables = [] ∧ c.soup.choices = [] ∧ c.soup.timers = ∅) ∧
      ∃ cs, c.soup.queue Link.root.parent = [.completed none cs] := by
  have hf := h.orderly.family
  have hreport := hf.report_of_falling hrest h.obedient hfall
  have hparts := hf.parts_eq_nil hreport
  obtain ⟨hrun, hchoices⟩ := hf.parts_of_rest hrest
  refine ⟨⟨hrun, hchoices.1 hparts, hf.timers_eq_empty hparts⟩, ?_⟩
  have hroot : Link.root ∈ c.soup.expected .root := List.mem_cons_self
  obtain hnil | ⟨fault, cs, hq⟩ := hf.report _ hroot
  · exact absurd hnil hreport
  · have hm : Message.completed fault cs ∈ c.soup.queue Link.root.parent := by
      rw [hq]
      exact List.mem_singleton_self _
    obtain ⟨cs', he⟩ := hw.report _ hroot _ hm
    cases he
    exact ⟨cs, hq⟩

end Driven

/-- **A suspended instance that is told to stop ends gracefully.**  There are reductions that every
evaluator and every clock lead through: the execution never fails, starts no activity, times and
fires no alarm, and ends quietly. -/
theorem WellDriven.ends_gracefully {s : Script} {c : Course} (h : s.WellDriven c)
    (hs : c.Suspended) : ∃ root, c.soup.global.root = some root ∧
      let told := c.inject [(root.termination, .terminate)]
      ∃ n d, (∀ evaluator now,
          (s.withEvaluator evaluator).advance now n told = d ∧ ∀ limit, n ≤ limit →
            (s.withEvaluator evaluator).program.execute now limit told.soup = .ok ⟨d.soup, n⟩) ∧
        (∀ r ∈ d.log.drop c.log.length, ¬ r.part.Starting) ∧ Course.EndsQuietly root c d := by
  have hd := h.driven
  have hf := hd.orderly.family
  obtain ⟨hnil, hcalm⟩ := hd.calm_of_suspended hs
  have htold := hd.injectEach _ hd.admits_terminate
  refine ⟨⟨1, 2⟩, hd.orderly.root, ?_⟩
  obtain ⟨n, d, rs, hlead, ⟨hlog, hrs⟩, ⟨links, hwinds⟩, ts, hts⟩ :=
    Winding.comes_to_rest (c := c.inject [(Link.root.termination, .terminate)]) (s := s)
      (hf.winding_of_terminate hs.1 hcalm hnil) htold.orderly.family
  refine ⟨n, d, fun evaluator now => ?_, ?_, ?_⟩
  · obtain ⟨hafter, hsame⟩ := hlead evaluator now
    refine ⟨hsame, fun limit hn => execute_eq_ok_iff.2 ⟨?_, hafter, ?_⟩⟩
    · show n ≤ limit - 1 + 1
      omega
    · exact congrArg Course.soup hsame.symm
  · rw [hlog]
    show ∀ r ∈ (c.log ++ rs).drop c.log.length, _
    rw [List.drop_left]
    exact hrs
  · -- the script's own evaluator is one of those that lead to the end
    obtain ⟨⟨-, hrest⟩, hown⟩ := hlead s.evaluator ⟨0, 0⟩
    rw [hown] at hrest
    have hend : s.Driven d := hown ▸ htold.advance ⟨0, 0⟩ n
    have hfall : Falling .root d.soup := hown ▸ htold.falling_advance
      (hd.falling_inject hd.admits_terminate (.inr (List.mem_singleton_self _))) ⟨0, 0⟩ n
    obtain ⟨hover, hreport⟩ := hend.over_of_winding hfall hwinds hrest
    refine ⟨hover, hreport, ts, hts.nodup, fun t => ?_, ?_⟩
    · rw [hts.mem_iff hover.2.2, Table.contains, Table.contains, ← hf.get?_timers_terminate t]
      rfl
    · rw [hts.outbox]
      show (c.soup.send Link.root.termination .terminate).outbox ++ _ = _
      rw [Soup.outbox_send]

/-- A vigil rests after its first round. -/
theorem exists_outcome_vigil :
    ∃ o, vigil.program.execute ⟨0, 0⟩ 100 (Course.inject { soup := vigil.newSoup } []).soup = .ok o ∧
      o.rest = .suspended :=
  exists_outcome (by decide +kernel)

/-- A vigil that is told to stop while it rests ends gracefully. -/
theorem ends_gracefully_vigil : ∃ c : Course, vigil.WellDriven c ∧ c.Suspended ∧
    ∃ n d, (∀ now, vigil.program.execute now n (c.inject [(1, .terminate)]).soup =
      .ok ⟨d.soup, n⟩) ∧ Course.EndsQuietly ⟨1, 2⟩ c d := by
  obtain ⟨o, ho, hrest⟩ := exists_outcome_vigil
  have hdriven : vigil.WellDriven (vigil.advance ⟨0, 0⟩ o.reductions
      (Course.inject { soup := vigil.newSoup } [])) :=
    .round (.start rfl) (fun _ he => nomatch he) ho
  have hs := suspended_of_execute ho hrest
  refine ⟨_, hdriven, hs, ?_⟩
  obtain ⟨root, hroot, n, d, hlead, -, hend⟩ := WellDriven.ends_gracefully hdriven hs
  rw [hdriven.driven.orderly.root] at hroot
  cases hroot
  exact ⟨n, d, fun now => (hlead vigil.evaluator now).2 n (Nat.le_refl n), hend⟩

end Script

end Perdure
