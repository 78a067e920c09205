import Perdure.Proofs.Instance.Budget
import Perdure.Proofs.Instance.Stale

/-!
# Runs come to an end

At one time, and with nobody interfering, an instance has only finitely many reductions to make:
what its parts have to do and what the waiting messages cost is less after every reduction.  If an
instance runs forever, then its definition goes in a circle or an alarm repeats at once.

## Main definitions

* `Part.hears`, `Soup.waitingFor` — the orders and timer events that wait for a part.
* `Soup.potential` — what an instance has left to do.
* `Script.HaltsAfter` — a course comes to rest or fails after so many reductions.

## Main results

* `Move.potential_after` — every reduction leaves less to do.
* `Script.Driven.exists_haltsAfter` — a driven course halts.
* `Script.HaltsAfter.execute_ne` — then no higher limit is met.
* `Script.WellDriven.comes_to_an_end` — both of these for a well-driven course.
-/

namespace Perdure

/-! ### Messages that wait -/

/-- The channels on which a part gets orders and the events of its timer. -/
def Part.hears (P : Part) : List Channel := P.timer.toList ++ P.link.orders

theorem Part.mem_hears {P : Part} {c : Channel} : c ∈ P.hears ↔
    P.timer = some c ∨ P.link.control = some c ∨ c = P.link.termination := by
  simp [hears, Link.orders]

theorem Part.hears_sublist (P : Part) : P.hears.Sublist P.reads := by
  unfold hears reads Link.orders
  simp only [List.append_assoc]
  exact (List.Sublist.refl _).append (List.sublist_append_right _ _)

/-- How many orders and timer events wait for a part. -/
def Soup.waitingFor (soup : InstanceSoup) (P : Part) : Nat :=
  (P.hears.map fun c => (soup.queue c).length).sum

/-- What an instance has left to do: what its parts have to do, and what the messages cost that
wait for them. -/
def Soup.potential (s : Script) (cost : ActivityId → Nat) (now : Instant) (soup : InstanceSoup) :
    Nat :=
  (soup.parts.map fun P =>
    P.weight s cost now + soup.waitingFor P * (s.fee cost P.station + 2)).sum

/-- No channel is heard by two parts. -/
theorem Family.hears_nodup {s : Script} {root : Link} {soup : InstanceSoup}
    (h : Family s root soup) : (soup.parts.flatMap Part.hears).Nodup := by
  obtain ⟨hone, hapart⟩ := List.nodup_flatMap.1 h.reads_nodup
  refine List.nodup_flatMap.2 ⟨fun P hP => (hone P hP).sublist P.hears_sublist, ?_⟩
  exact hapart.imp fun {P Q} hd _ hP hQ =>
    hd (P.hears_sublist.subset hP) (Q.hears_sublist.subset hQ)

/-- Each place of a list is taken by one of different values at most. -/
theorem sum_count_le_length {α : Type} [DecidableEq α] {l : List α} (h : l.Nodup) (xs : List α) :
    (l.map fun a => xs.count a).sum ≤ xs.length := by
  induction l generalizing xs with
  | nil => exact Nat.zero_le _
  | cons a l ih =>
    obtain ⟨ha, hl⟩ := List.nodup_cons.1 h
    -- the others are counted where `a` is not
    have hothers : (l.map fun b => xs.count b) = l.map fun b => (xs.filter (· ≠ a)).count b := by
      apply List.map_congr_left
      intro b hb
      have hne : b ≠ a := fun he => ha (he ▸ hb)
      rw [List.count_filter (by simpa using hne)]
    have hle := ih hl (xs.filter (· ≠ a))
    have hsplit : xs.length = xs.count a + (xs.filter (· ≠ a)).length := by
      rw [List.length_eq_countP_add_countP (· == a), ← List.countP_eq_length_filter, List.count]
      simp
    rw [List.map_cons, List.sum_cons, hothers, hsplit]
    exact Nat.add_le_add_left hle _

/-- Messages cost no more than their number allows, whoever hears them. -/
theorem Soup.sum_addressed_le {parts : List Part} (hn : (parts.flatMap Part.hears).Nodup)
    (ms : List (Channel × Message)) {price : Part → Nat} {fee : Nat}
    (hprice : ∀ Q ∈ parts, ∀ e ∈ ms, e.1 ∈ Q.hears → price Q ≤ fee) :
    (parts.map fun Q => (Q.hears.map fun c => (addressed ms c).length).sum * price Q).sum ≤
      ms.length * fee := by
  have hone (Q : Part) (hQ : Q ∈ parts) :
      (Q.hears.map fun c => (addressed ms c).length).sum * price Q ≤
        (Q.hears.map fun c => (ms.map Prod.fst).count c).sum * fee := by
    simp only [length_addressed]
    by_cases hheard : ∃ e ∈ ms, e.1 ∈ Q.hears
    · obtain ⟨e, he, hc⟩ := hheard
      exact Nat.mul_le_mul_left _ (hprice Q hQ e he hc)
    · have hzero : (Q.hears.map fun c => (ms.map Prod.fst).count c).sum = 0 := by
        apply List.sum_eq_zero
        intro x hx
        obtain ⟨c, hc, rfl⟩ := List.mem_map.1 hx
        refine List.count_eq_zero.2 fun hm => hheard ?_
        obtain ⟨e, he, rfl⟩ := List.mem_map.1 hm
        exact ⟨e, he, hc⟩
      rw [hzero, Nat.zero_mul, Nat.zero_mul]
  refine (List.sum_le_sum hone).trans ?_
  rw [List.sum_map_mul_right]
  refine Nat.mul_le_mul_right _ ?_
  have hall := sum_count_le_length hn (ms.map Prod.fst)
  rw [List.length_map, List.map_flatMap, List.flatMap_def, List.sum_flatten, List.map_map] at hall
  exact hall

/-! ### Moves -/

namespace Move

variable {s : Script} {now : Instant} {root : Link} {soup : InstanceSoup} {r : Reduction}
  {p : Products} {consumed : List Link} (m : Move s now root soup r p consumed)

include m

theorem length_queue_after_le (c : Channel) : (r.after.queue c).length ≤
    (r.before.queue c).length + (Soup.addressed p.sent c).length := by
  rw [m.after, Products.queue_addTo]
  split
  · exact Nat.zero_le _
  · split
    · exact Nat.le_add_right _ _
    · rw [List.length_append]

/-- Who does not react hears nothing but what is sent. -/
theorem waitingFor_before {Q : Part} : r.after.waitingFor Q ≤ soup.waitingFor Q +
    (Q.hears.map fun c => (Soup.addressed p.sent c).length).sum := by
  unfold Soup.waitingFor
  rw [← List.sum_map_add]
  apply List.sum_le_sum
  intro c _
  have hafter := m.length_queue_after_le c
  have hbefore := congrArg List.length (m.gives.queue c)
  rw [List.length_append] at hbefore
  omega

/-- Nothing waits for what was just started. -/
theorem waitingFor_kid {t : Task} (ht : t ∈ p.kids) : r.after.waitingFor (.ready t) = 0 := by
  apply List.sum_eq_zero
  intro x hx
  obtain ⟨c, hc, rfl⟩ := List.mem_map.1 hx
  have hc : c ∈ t.link.channels := by
    rcases Part.mem_hears.1 hc with hc | hc
    · cases hc
    · exact Link.mem_channels.2 (.inr hc.symm)
  rw [m.queue_after_new (m.new_of_kid (List.mem_map_of_mem ht) hc)]
  rfl

/-- What a part heeds was waiting for it. -/
theorem heeded_le : heeded r.taken + (r.part.hears.map fun c => (r.before.queue c).length).sum ≤
    soup.waitingFor r.part := by
  have hone {c : Channel} {msg : Message} (ht : r.taken = some (c, msg)) (hc : c ∈ r.part.hears) :
      heeded r.taken ≤
        (r.part.hears.map fun c => (Soup.addressed r.taken.toList c).length).sum := by
    have hlength : 1 ≤ (Soup.addressed r.taken.toList c).length :=
      List.length_pos_of_mem (Soup.mem_addressed_toList.2 ht)
    have hheeded : heeded r.taken ≤ 1 := by
      unfold heeded
      split <;> decide
    exact (hheeded.trans hlength).trans (List.le_sum_of_mem (List.mem_map_of_mem hc))
  have hheard : heeded r.taken ≤
      (r.part.hears.map fun c => (Soup.addressed r.taken.toList c).length).sum := by
    have hd := m.delivery
    generalize r.taken = taken at hd hone
    cases hd with
    | nothing | report => exact Nat.zero_le _
    | event hc => exact hone rfl (Part.mem_hears.2 (.inl hc))
    | stop hc => exact hone rfl (Part.mem_hears.2 (.inr (.inl hc)))
    | terminate hc => exact hone rfl (Part.mem_hears.2 (.inr (.inr hc)))
  have hqueue (c : Channel) : (soup.queue c).length =
      (Soup.addressed r.taken.toList c).length + (r.before.queue c).length := by
    rw [m.gives.queue c, List.length_append]
  simp only [Soup.waitingFor, hqueue, List.sum_map_add]
  exact Nat.add_le_add_right hheard _

/-- Messages that are no reports go to somebody that the part awaits, and that its heir awaits. -/
theorem exists_awaited_of_sent {Q : Part} (hQ : Q ∈ soup.parts) {c : Channel} {msg : Message}
    (hs : (c, msg) ∈ p.sent) (hc : c ∈ Q.hears) : p.heir ≠ none ∧ Q.link ∈ r.part.awaits := by
  have hlink := (m.family.link_mem hQ).1
  have htimer : Q.timer ≠ some c := fun ht =>
    m.not_sent_of_timer (Family.mem_awaitedTimers hQ ht) msg hs
  have horder := (Part.mem_hears.1 hc).resolve_left htimer
  have hhome : c ≠ r.part.home := fun he =>
    m.family.parent_ne_order (m.family.link_mem m.part_mem).1 hlink horder.symm he.symm
  refine ⟨fun hn => ?_, ?_⟩
  · obtain ⟨-, -, fault, cs, hsent⟩ := m.yields.sent_of_heir_eq_none hn
    rw [hsent] at hs
    exact hhome (Prod.mk.inj (List.mem_singleton.1 hs)).1
  · rcases m.mem_sent hs with ⟨-, he, -⟩ | ⟨u, hu, -, ho⟩
    · exact absurd he hhome
    · have hue := Family.mem_expected_of_awaits root m.part_mem hu
      have hcu : c ∈ u.channels := by rcases ho with ⟨rfl, -⟩ | ⟨hc, -⟩ <;> simp [*]
      rw [m.family.link_unique hlink hue (Link.mem_channels.2 (.inr horder.symm)) hcu]
      exact hu

/-- For what goes on waits what waited before, but for the message that was taken. -/
theorem waitingFor_heir {Q : Part} (hQ : p.heir = some Q) :
    r.after.waitingFor Q + heeded r.taken ≤ soup.waitingFor r.part := by
  have htimer : (Q.timer.toList.map fun c => (r.after.queue c).length).sum = 0 := by
    apply List.sum_eq_zero
    intro x hx
    obtain ⟨c, hc, rfl⟩ := List.mem_map.1 hx
    have htimer : p.timer = some c := by
      rw [Products.timer, hQ]
      exact Option.mem_toList.1 hc
    rw [m.queue_after_new (m.new_of_timer htimer)]
    rfl
  -- nobody gives orders to itself
  have horders : (r.part.link.orders.map fun c => (r.after.queue c).length).sum ≤
      (r.part.link.orders.map fun c => (r.before.queue c).length).sum := by
    apply List.sum_le_sum
    intro c hc
    have hsent : Soup.addressed p.sent c = [] := by
      rw [Soup.addressed_eq_nil_iff]
      intro msg hs
      have hself := (m.exists_awaited_of_sent m.part_mem hs (List.mem_append_right _ hc)).2
      exact absurd (m.family.elder _ m.part_mem _ hself) (Nat.lt_irrefl _)
    have hle := m.length_queue_after_le c
    rwa [hsent] at hle
  have hheeded := m.heeded_le
  unfold Soup.waitingFor Part.hears at hheeded ⊢
  rw [m.yields.heir_link hQ]
  simp only [List.map_append, List.sum_append] at hheeded ⊢
  omega

/-- What waits for the products was waiting for the part, less what it took. -/
theorem waitingFor_products (fee : Station → Nat) :
    (p.parts.map fun Q => r.after.waitingFor Q * fee Q.station).sum +
      heeded r.taken * fee r.part.station ≤ soup.waitingFor r.part * fee r.part.station := by
  have hkids : ((p.kids.map Part.ready).map fun Q => r.after.waitingFor Q * fee Q.station).sum =
      0 := by
    apply List.sum_eq_zero
    intro x hx
    obtain ⟨Q, hQ, rfl⟩ := List.mem_map.1 hx
    obtain ⟨t, ht, rfl⟩ := List.mem_map.1 hQ
    rw [m.waitingFor_kid ht, Nat.zero_mul]
  rw [Products.parts, List.map_append, List.sum_append, hkids, Nat.zero_add]
  cases hQ : p.heir with
  | none =>
    have hheeded := m.heeded_le
    have hle : heeded r.taken ≤ soup.waitingFor r.part := by omega
    show 0 + _ ≤ _
    rw [Nat.zero_add]
    exact Nat.mul_le_mul_right _ hle
  | some Q =>
    show r.after.waitingFor Q * fee Q.station + 0 + _ ≤ _
    rw [m.yields.station_heir hQ, Nat.add_zero, ← Nat.add_mul]
    exact Nat.mul_le_mul_right _ (m.waitingFor_heir hQ)

/-- The orders that are given cost no more than the part pays for them. -/
theorem orders_le {cost : ActivityId → Nat} (hc : s.Costs cost)
    (hr : s.Reaches r.part.station.id) (ht : s.Tiered soup) :
    (r.before.parts.map fun Q => (Q.hears.map fun c => (Soup.addressed p.sent c).length).sum *
      (s.fee cost Q.station + 2)).sum ≤ p.orders * s.fee cost r.part.station := by
  have hnodup : (r.before.parts.flatMap Part.hears).Nodup := by
    have hall := (m.gives.parts.flatMap_right Part.hears).nodup_iff.1 m.family.hears_nodup
    rw [List.flatMap_cons] at hall
    exact (List.nodup_append.1 hall).2.1
  cases hQ : p.heir with
  | none =>
    -- a report is no order
    have hnothing : (r.before.parts.map fun Q =>
        (Q.hears.map fun c => (Soup.addressed p.sent c).length).sum *
          (s.fee cost Q.station + 2)).sum ≤ p.sent.length * 0 :=
      Soup.sum_addressed_le hnodup p.sent fun Q hmem e he hc =>
        absurd hQ (m.exists_awaited_of_sent (m.mem_of_before hmem) he hc).1
    rw [Products.orders, hQ]
    exact hnothing.trans (Nat.zero_le _)
  | some Q =>
    rw [Products.orders, hQ]
    refine Soup.sum_addressed_le hnodup p.sent fun Q hmem e he hheard => ?_
    have hawaited := (m.exists_awaited_of_sent (m.mem_of_before hmem) he hheard).2
    exact (ht _ m.part_mem Q (m.mem_of_before hmem) hawaited).fee_le hc hr

/-- Every reduction leaves less to do. -/
theorem potential_after {cost : ActivityId → Nat} (hc : s.Costs cost)
    (hr : s.Reaches r.part.station.id) (ht : s.Tiered soup) (hl : s.RepeatsLater now) :
    r.after.potential s cost now < soup.potential s cost now := by
  have hlaw := m.yields.weight_lt m.delivery m.part_sound hc hr hl
  have hproducts := m.waitingFor_products fun x => s.fee cost x + 2
  have horders := m.orders_le hc hr ht
  -- for the others waits what was waiting before, and the orders
  have hothers : (r.before.parts.map fun Q =>
      r.after.waitingFor Q * (s.fee cost Q.station + 2)).sum ≤
        (r.before.parts.map fun Q => soup.waitingFor Q * (s.fee cost Q.station + 2)).sum +
          (r.before.parts.map fun Q => (Q.hears.map fun c => (Soup.addressed p.sent c).length).sum *
            (s.fee cost Q.station + 2)).sum := by
    rw [← List.sum_map_add]
    apply List.sum_le_sum
    intro Q _
    rw [← Nat.add_mul]
    exact Nat.mul_le_mul_right _ m.waitingFor_before
  have hafter := (m.parts_after.map fun P =>
    P.weight s cost now + r.after.waitingFor P * (s.fee cost P.station + 2)).sum_nat
  have hbefore := (m.gives.parts.map fun P =>
    P.weight s cost now + soup.waitingFor P * (s.fee cost P.station + 2)).sum_nat
  simp only [List.map_append, List.sum_append, List.sum_map_add] at hafter
  simp only [List.map_cons, List.sum_cons, List.sum_map_add] at hbefore
  simp only [Soup.potential, List.sum_map_add]
  omega

end Move

/-! ### Halting -/

namespace Script

variable {s : Script} {now : Instant} {c : Course}

/-- The course comes to rest or fails after exactly so many reductions. -/
def HaltsAfter (s : Script) (now : Instant) (n : Nat) (c : Course) : Prop :=
  (s.advance now n c).log.length = c.log.length + n ∧
    (s.program.step? now (s.advance now n c).soup = .ok none ∨
      ∃ e, s.program.step? now (s.advance now n c).soup = .error e)

/-- Without a next reduction a course has halted. -/
theorem haltsAfter_zero (h : ∀ r, s.reduction? now c.soup ≠ .ok (some r)) :
    s.HaltsAfter now 0 c := by
  refine ⟨rfl, ?_⟩
  show s.program.step? now c.soup = .ok none ∨ ∃ e, s.program.step? now c.soup = .error e
  rw [step?_eq]
  cases hr : s.reduction? now c.soup with
  | error e => exact .inr ⟨e, rfl⟩
  | ok r =>
    cases r with
    | none => exact .inl rfl
    | some r => exact absurd hr (h r)

theorem haltsAfter_succ {r : Reduction} (hr : s.reduction? now c.soup = .ok (some r)) {n : Nat}
    (h : s.HaltsAfter now n (c.extend r)) : s.HaltsAfter now (n + 1) c := by
  unfold HaltsAfter at h ⊢
  rw [advance_of_reduction? hr]
  refine ⟨?_, h.2⟩
  rw [h.1, Course.log_extend, List.length_append, List.length_singleton, Nat.add_assoc,
    Nat.add_comm 1 n]

/-- A driven course halts, since what it has left to do cannot become less forever. -/
theorem Driven.exists_haltsAfter (h : s.Driven c) (hac : s.Acyclic) (hl : s.RepeatsLater now) :
    ∃ n, s.HaltsAfter now n c := by
  obtain ⟨cost, hc⟩ := exists_costs h.valid hac
  generalize hleft : c.soup.potential s cost now = left
  induction left using Nat.strongRecOn generalizing c with
  | ind left ih =>
    by_cases hmoves : ∃ r, s.reduction? now c.soup = .ok (some r)
    · obtain ⟨r, hr⟩ := hmoves
      obtain ⟨p, consumed, m⟩ := h.orderly.family.exists_move hr
      have hless : r.after.potential s cost now < left :=
        hleft ▸ m.potential_after hc (h.reaches _ m.part_mem) h.tiered hl
      obtain ⟨n, hn⟩ := ih _ hless (.reduce h hr) rfl
      exact ⟨n + 1, haltsAfter_succ hr hn⟩
    · exact ⟨0, haltsAfter_zero (not_exists.1 hmoves)⟩

/-- Who meets the limit has a next reduction after as many as were allowed, or fewer. -/
theorem exists_reduction_of_limitExceeded {limit more done l : Nat} {c : Course}
    (h : s.program.reduce now limit more done c.soup = .error (.limitExceeded l)) {n : Nat}
    (hn : n ≤ more) : ∃ r, s.reduction? now (s.advance now n c).soup = .ok (some r) := by
  obtain ⟨r, hr⟩ : ∃ r, s.reduction? now c.soup = .ok (some r) := by
    cases hr : s.reduction? now c.soup with
    | error e =>
      rw [reduce_of_error hr] at h
      cases h
    | ok r =>
      cases r with
      | none =>
        rw [reduce_of_none hr] at h
        cases h
      | some r => exact ⟨r, rfl⟩
  cases n with
  | zero => exact ⟨r, hr⟩
  | succ n =>
    obtain ⟨more, rfl⟩ : ∃ k, more = k + 1 := Nat.exists_eq_add_one.2 (by omega)
    rw [reduce_succ hr] at h
    rw [advance_of_reduction? hr]
    exact exists_reduction_of_limitExceeded (c := c.extend r) h (Nat.le_of_succ_le_succ hn)

/-- A course that halts stays below every higher limit. -/
theorem HaltsAfter.execute_ne {n limit : Nat} (h : s.HaltsAfter now n c) (hn : n < limit)
    (l : Nat) : s.program.execute now limit c.soup ≠ .error (.limitExceeded l) := by
  intro he
  obtain ⟨r, hr⟩ := exists_reduction_of_limitExceeded he (Nat.le_sub_one_of_lt hn)
  obtain ⟨-, hend⟩ := h
  rw [step?_eq, hr] at hend
  rcases hend with hnone | ⟨e, he⟩
  · cases hnone
  · cases he

/-- **Only a definition that asks for it runs forever.**  Suppose that no activity that the root
reaches starts itself in the end, and that no alarm that is reached repeats at once.  Then a
well-driven course, with whatever messages from outside, comes to rest or fails after finitely many
reductions, and no execution with a higher limit meets it. -/
theorem WellDriven.comes_to_an_end (h : s.WellDriven c) {ms : List (Channel × Message)}
    (hms : ∀ e ∈ ms, c.Admits e.1 e.2) (hac : s.Acyclic) (hl : s.RepeatsLater now) :
    ∃ n, s.HaltsAfter now n (c.inject ms) ∧
      ∀ limit, n < limit → ∀ l,
        s.program.execute now limit (c.inject ms).soup ≠ .error (.limitExceeded l) := by
  obtain ⟨n, hn⟩ := (h.driven.injectEach ms hms).exists_haltsAfter hac hl
  exact ⟨n, hn, fun limit hlimit l => hn.execute_ne hlimit l⟩

/-- In a vigil, the root starts the others, and they start nobody. -/
theorem acyclic_vigil : vigil.Acyclic := by
  have hup : ∀ a b, vigil.Starts a b → a < b := by
    intro a b hab
    match a with
    | 0 =>
      have hmem : b ∈ [1, 2] := hab
      simp only [List.mem_cons, List.not_mem_nil, or_false] at hmem
      rcases hmem with rfl | rfl <;> decide
    | 1 | 2 => cases hab
    | a + 3 =>
      have hmem : b ∈ ([] : List ActivityId) := hab
      cases hmem
  have hlt : ∀ a b, Relation.TransGen vigil.Starts a b → a < b := by
    intro a b hab
    induction hab with
    | single hab => exact hup _ _ hab
    | tail _ hbc ih => exact ih.trans (hup _ _ hbc)
  exact fun a _ hcircle => absurd (hlt a a hcircle) (Nat.lt_irrefl a)

/-- Times in a vigil are hours or days. -/
theorem repeatsLater_vigil (now : Instant) : vigil.RepeatsLater now := by
  intro place alarm _ _ expression _ nanos hnanos
  obtain rfl : (if expression = "day" then 86400000000000 else 3600000000000) = nanos :=
    Except.ok.inj hnanos
  split <;> decide

/-- A vigil whose alarm goes off comes to an end, to wait for the next hour. -/
theorem comes_to_an_end_vigil : ∃ n, vigil.HaltsAfter ⟨3600, 0⟩ n
      (vigilStarted.inject [(9, .timeout)]) ∧
    ∀ limit, n < limit → ∀ l,
      vigil.program.execute ⟨3600, 0⟩ limit (vigilStarted.inject [(9, .timeout)]).soup ≠
        .error (.limitExceeded l) :=
  wellDriven_vigilStarted.comes_to_an_end admits_vigilStarted acyclic_vigil
    (repeatsLater_vigil ⟨3600, 0⟩)

end Script

end Perdure
