import Perdure.Proofs.Instance.Course

/-!
# What a reduction takes and adds

A reduction takes a part out of the soup, with the oldest message of one of the channels that the
part listens on, and adds what the part yields.

## Main definitions

* `Soup.Regular` — every choice is one that a receiver waits in.
* `Soup.Gives` — a soup without one of its parts and the message that the part takes.

## Main results

* `Soup.gives_of_pick?` — what is picked next is given.
* `Script.exists_yields` — a reduction takes a part and adds what it yields.
-/

namespace Perdure

/-- The channels that a part listens on. -/
def Part.channels : Part → List Channel
  | .ready _ => []
  | .waiting r => r.channels

namespace Soup

/-- Every choice is the one that its receiver waits in. -/
def Regular (s : InstanceSoup) : Prop := s.choices = s.receivers.map Receiver.choice

theorem regular_of_eq {s : InstanceSoup} (rs : List Receiver)
    (h : s.choices = rs.map Receiver.choice) : s.Regular := by
  rw [Regular, receivers, h, filterMap_receiver?_choice]

theorem regular_addTo {s : InstanceSoup} (h : s.Regular) (p : Products) : (p.addTo s).Regular := by
  refine regular_of_eq (s.receivers ++ p.receivers) ?_
  rw [Products.choices_addTo, List.map_append, ← h]

/-- In a regular soup the parts are exactly what the soup holds. -/
theorem Regular.holds_iff {s : InstanceSoup} (h : s.Regular) (P : Part) :
    s.Holds P ↔ P ∈ s.parts := by
  cases P with
  | ready t => simp [Holds, parts]
  | waiting r =>
    have hcs : s.choices = s.receivers.map Receiver.choice := h
    simp only [Holds, hcs, parts, List.mem_append, List.mem_map, reduceCtorEq, and_false,
      exists_false, false_or]
    constructor
    · rintro ⟨c, ⟨q, hq, rfl⟩, a, ha, rfl⟩
      exact ⟨q, hq, by rw [(Receiver.mem_arms_choice.1 ha).2]⟩
    · rintro ⟨q, hq, he⟩
      cases he
      obtain ⟨c, hc⟩ := List.exists_mem_of_ne_nil _ r.channels_ne_nil
      exact ⟨r.choice, ⟨r, hq, rfl⟩, ⟨c, r⟩, Receiver.mem_arms_choice.2 ⟨hc, rfl⟩, rfl⟩

/-- What is picked takes a message if it is a receiver; besides tasks, choices and messages nothing
is touched. -/
theorem takes_of_pick? {s : InstanceSoup} {P : Part} {taken : Option (Channel × Message)}
    {rest : InstanceSoup} (h : s.pick? = some (P, taken, rest)) :
    P.takes taken ∧ rest = { s with
      runnables := rest.runnables, choices := rest.choices, messages := rest.messages } := by
  unfold pick? at h
  split at h
  · next t rest' ht =>
    cases h
    unfold takeRunnable? at ht
    split at ht
    · cases ht
    · cases ht
      exact ⟨rfl, rfl⟩
  · obtain ⟨⟨a, m, rest'⟩, hm, he⟩ := Option.map_eq_some_iff.1 h
    cases he
    obtain ⟨pre, c, post, -, -, hframe⟩ := exists_of_takeMatch? hm
    refine ⟨rfl, ?_⟩
    rw [hframe]

/-- `s.Gives P taken rest` says that `rest` is `s` without the part `P` and the message that `P`
takes. -/
structure Gives (s : InstanceSoup) (P : Part) (taken : Option (Channel × Message))
    (rest : InstanceSoup) : Prop where
  takes : P.takes taken
  listens : ∀ {c m}, taken = some (c, m) → c ∈ P.channels
  parts : s.parts.Perm (P :: rest.parts)
  queue : ∀ c, s.queue c = addressed taken.toList c ++ rest.queue c
  regular : rest.Regular
  frame : rest = { s with
    runnables := rest.runnables, choices := rest.choices, messages := rest.messages }

/-- What is picked next is given. -/
theorem gives_of_pick? {s : InstanceSoup} (hs : s.Regular) {P : Part}
    {taken : Option (Channel × Message)} {rest : InstanceSoup}
    (h : s.pick? = some (P, taken, rest)) : s.Gives P taken rest := by
  unfold pick? at h
  split at h
  · next t rest' ht =>
    cases h
    unfold takeRunnable? at ht
    split at ht
    · cases ht
    · next u us hr =>
      cases ht
      refine ⟨rfl, by simp, ?_, fun c => rfl, hs, rfl⟩
      simp [Soup.parts, hr, receivers]
  · obtain ⟨⟨a, m, rest'⟩, hm, he⟩ := Option.map_eq_some_iff.1 h
    cases he
    obtain ⟨pre, c, post, hcs, ha, hframe⟩ := exists_of_takeMatch? hm
    rw [Regular] at hs
    rw [hs] at hcs
    -- the choice that is used up is that of one receiver, and all other receivers wait on
    obtain ⟨before, after', hrs, rfl, hafter⟩ := List.map_eq_append_iff.1 hcs
    obtain ⟨r, after, rfl, rfl, rfl⟩ := List.map_eq_cons_iff.1 hafter
    obtain ⟨hc, rfl⟩ := Receiver.mem_arms_choice.1 ha
    have hrest : rest.choices = (before ++ after).map Receiver.choice := by
      rw [hframe, List.map_append]
    have hrec : rest.receivers = before ++ after := by
      rw [receivers, hrest, filterMap_receiver?_choice]
    have hrun : rest.runnables = s.runnables := by rw [hframe]
    refine ⟨rfl, ?_, ?_, ?_, regular_of_eq _ hrest, ?_⟩
    · intro q n he
      cases he
      exact hc
    · simp only [Soup.parts, hrs, hrec, hrun, List.map_append, List.map_cons]
      rw [← List.append_assoc, ← List.append_assoc]
      exact List.perm_middle
    · intro q
      rw [queue_takeMatch? hm q, Option.toList_some, addressed_cons]
      by_cases hq : q = a.channel
      · rw [if_pos hq, if_pos hq.symm]
        rfl
      · rw [if_neg hq, if_neg (Ne.symm hq)]
        rfl
    · rw [hframe]

end Soup

namespace Script

/-- A reduction adds to the soup what the part that is picked yields. -/
theorem exists_products {s : Script} {now : Instant} {soup : InstanceSoup} {r : Reduction}
    (h : s.reduction? now soup = .ok (some r)) :
    soup.pick? = some (r.part, r.taken, r.before) ∧ ∃ p,
      Yields s now soup.nextChannel soup.nextMonotonic r.part r.taken p ∧
        r.after = p.addTo r.before := by
  unfold reduction? at h
  split at h
  · cases h
  · next P taken rest hp =>
    obtain ⟨htakes, hframe⟩ := Soup.takes_of_pick? hp
    cases hr : (s.react now P taken).run rest with
    | error e => simp [hr, Except.map] at h
    | ok result =>
      simp only [hr, Except.map, Except.ok.injEq, Option.some.injEq] at h
      subst h
      obtain ⟨p, hy, ha⟩ := exists_yields_of_react_eq htakes hr
      have hn : rest.nextChannel = soup.nextChannel := by rw [hframe]
      have hk : rest.nextMonotonic = soup.nextMonotonic := by rw [hframe]
      rw [hn, hk] at hy
      exact ⟨hp, p, hy, ha⟩

/-- In a regular soup a reduction takes out one part, and adds what it yields. -/
theorem exists_yields {s : Script} {now : Instant} {soup : InstanceSoup} {r : Reduction}
    (hs : soup.Regular) (h : s.reduction? now soup = .ok (some r)) :
    soup.Gives r.part r.taken r.before ∧ ∃ p,
      Yields s now soup.nextChannel soup.nextMonotonic r.part r.taken p ∧
        r.after = p.addTo r.before := by
  obtain ⟨hp, hyields⟩ := exists_products h
  exact ⟨Soup.gives_of_pick? hs hp, hyields⟩

/-- A part that is picked next and yields something makes the next reduction. -/
theorem reduction?_of_yields {s : Script} {now : Instant} {soup rest : InstanceSoup} {P : Part}
    {taken : Option (Channel × Message)} {p : Products} (hs : soup.Regular)
    (h : soup.pick? = some (P, taken, rest))
    (hy : Yields s now soup.nextChannel soup.nextMonotonic P taken p) :
    s.reduction? now soup = .ok (some ⟨P, taken, rest, p.addTo rest⟩) := by
  have hg := Soup.gives_of_pick? hs h
  have hn : rest.nextChannel = soup.nextChannel := by rw [hg.frame]
  have hk : rest.nextMonotonic = soup.nextMonotonic := by rw [hg.frame]
  unfold reduction?
  simp only [h, hy.react_eq hn hk]
  rfl

end Script

end Perdure
