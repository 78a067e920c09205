import Perdure.Proofs.Instance.Graceful
import Perdure.Proofs.Instance.Readers
import Perdure.Proofs.Machine.Iteration

/-!
# Requests on their way up

While an instance is suspended, a request to compensate that arrives where somebody waits for what
it has started is passed on, from each receiver to the one that waits for it, until it waits on the
parent channel of the root.  Every receiver on the way uses up its choice and makes the same choice
again, so that nothing but the order of the choices changes.

## Main definitions

* `Soup.Bears` — a soup with one more message, and its choices perhaps in another order.

## Main results

* `Receiver.passes_on` — what a receiver makes of a request from what it has started.
* `Soup.Bears.exists_hop` — a request comes to where the receiver itself reports.
* `Soup.Bears.comes_to_root` — a request comes to the root.
* `Script.WellDriven.forwards_requests` — in a suspended instance, it does so whatever the evaluator
  and the clock.
-/

namespace Perdure

/-! ### Receivers on the way -/

/-- A receiver that has started others passes their requests on, and waits as before: at once, or
after one more reduction. -/
theorem Receiver.passes_on {q : Receiver} {u : Link} (hu : u ∈ q.awaits) (scope : ActivityId)
    (reply : Channel) :
    (∀ s now n k c, Yields s now n k (.waiting q) (some (c, .compensate scope reply))
      { sent := [(q.link.parent, .compensate scope reply)], heir := some (.waiting q) }) ∨
    ∃ t, (∀ s now n k c, Yields s now n k (.waiting q) (some (c, .compensate scope reply))
        { sent := [(q.link.parent, .compensate scope reply)], heir := some (.ready t) }) ∧
      ∀ s now n k, Yields s now n k (.ready t) none { heir := some (.waiting q) } := by
  cases q with
  | waitActivity run timer => cases hu
  | alarmWaiting alarm timer => cases hu
  | sequenceWaiting sequence child => exact .inl fun _ _ _ _ _ => .sequenceAsked
  | alarmActive alarm child stopped =>
    exact .inr ⟨.alarmActive alarm child stopped, fun _ _ _ _ _ => .firingAsked,
      fun _ _ _ _ => .firingWatched⟩
  | scopeWaiting scope =>
    -- somebody is still awaited, so the scope does not complete instead
    have hopen : scope.isFinished = false := by
      by_contra hf
      rw [Bool.not_eq_false] at hf
      have hnil : scope.awaits = [] := ScopeRun.awaits_eq_nil hf
      rw [Receiver.awaits, hnil] at hu
      cases hu
    exact .inr ⟨.scopeActive scope, fun _ _ _ _ _ => .scopeAsked, fun _ _ _ _ => .scopeWaits hopen⟩

/-- The receivers are the parts that wait. -/
@[simp] theorem Soup.waiting_mem_parts {s : InstanceSoup} {q : Receiver} :
    .waiting q ∈ s.parts ↔ q ∈ s.receivers := by
  simp [parts]

namespace Family

variable {s : Script} {root : Link} {soup : InstanceSoup} (h : Family s root soup)

include h

/-- Where somebody reports, no timer is armed and nothing is closed. -/
theorem parent_idle {l : Link} (hl : l ∈ soup.expected root) :
    soup.isClosed l.parent = false ∧ soup.timers.get? l.parent = none := by
  refine ⟨h.unclosed _ (parent_mem_owned hl), ?_⟩
  cases ht : soup.timers.get? l.parent with
  | none => rfl
  | some d => exact absurd (h.armed _ d ht).1 (h.timer_ne hl (by simp))

/-- One receiver listens on a channel. -/
theorem receiver_unique {q r : Receiver} (hq : q ∈ soup.receivers) (hr : r ∈ soup.receivers)
    {c : Channel} (hc : c ∈ q.channels) (hc' : c ∈ r.channels) : q = r := by
  have he := h.reader_unique (Soup.waiting_mem_parts.2 hq) (Soup.waiting_mem_parts.2 hr) hc hc'
  cases he
  rfl

/-- Nobody listens where the root reports. -/
theorem root_unheard {q : Receiver} (hq : q ∈ soup.receivers) : root.parent ∉ q.channels := by
  have hP := Soup.waiting_mem_parts.2 hq
  have hroot : root ∈ soup.expected root := List.mem_cons_self
  intro hc
  rcases Receiver.mem_channels.1 hc with ht | ha | ho
  · exact h.timer_ne hroot (by simp) (mem_awaitedTimers hP ht)
  · obtain ⟨u, hu, he⟩ := List.mem_map.1 ha
    obtain rfl := h.parent_inj (mem_expected_of_awaits root hP hu) hroot he
    exact h.root_not_awaited (List.mem_flatMap.2 ⟨_, hP, hu⟩)
  · exact h.parent_ne_order hroot (h.link_mem hP).1 ho.symm rfl

end Family

/-- What a part that is picked next yields is the machine's next step. -/
theorem Script.step?_of_yields {s : Script} {now : Instant} {soup rest : InstanceSoup} {P : Part}
    {taken : Option (Channel × Message)} {p : Products} (hs : soup.Regular)
    (h : soup.pick? = some (P, taken, rest))
    (hy : Yields s now soup.nextChannel soup.nextMonotonic P taken p) :
    s.program.step? now soup = .ok (some (p.addTo rest)) := by
  rw [step?_eq, reduction?_of_yields hs h hy]
  rfl

namespace Soup

/-! ### One more message -/

/-- `base.Bears c m soup` says that `soup` is `base` with one more message, `m` at the end of the
queue of `c`; the choices may stand in another order. -/
structure Bears (base : InstanceSoup) (c : Channel) (m : Message) (soup : InstanceSoup) : Prop where
  frame : soup = { base with choices := soup.choices, messages := soup.messages }
  choices : soup.choices.Perm base.choices
  queue : ∀ q, soup.queue q = if q = c then base.queue c ++ [m] else base.queue q

/-- An open channel without a timer takes a message, and nothing else changes. -/
theorem send_eq {s : InstanceSoup} {c : Channel} (hopen : s.isClosed c = false)
    (htimer : s.timers.get? c = none) (m : Message) :
    s.send c m = { s with messages := s.messages.insert c (s.queue c ++ [m]) } := by
  have htimers : s.timers.erase c = s.timers := by
    apply Table.eq_of_get?
    intro k
    rw [Table.get?_erase]
    split
    · next he => rw [he, htimer]
    · rfl
  rw [send, if_neg (by rw [hopen]; exact Bool.false_ne_true), htimers]

theorem bears_send {s : InstanceSoup} {c : Channel} (hopen : s.isClosed c = false)
    (htimer : s.timers.get? c = none) (m : Message) : s.Bears c m (s.send c m) where
  frame := by rw [send_eq hopen htimer]
  choices := by rw [send_eq hopen htimer]
  queue q := by
    rw [queue_send]
    by_cases hq : q = c <;> simp [hq, hopen]

/-- A reaction that only passes a message on, beside what goes on. -/
theorem addTo_passing {s : InstanceSoup} {c : Channel} (hopen : s.isClosed c = false)
    (htimer : s.timers.get? c = none) (m : Message) (heir : Option Part) :
    ({ sent := [(c, m)], heir } : Products).addTo s = ({ heir } : Products).populate
      { s with messages := s.messages.insert c (s.queue c ++ [m]) } := by
  have hsettle : ({ sent := [(c, m)], heir } : Products).settle s = s.send c m := rfl
  rw [Products.addTo_eq, hsettle, send_eq hopen htimer]
  rfl

theorem populate_waiting (s : InstanceSoup) (q : Receiver) :
    ({ heir := some (.waiting q) } : Products).populate s =
      { s with choices := s.choices ++ [q.choice] } := by
  rw [Products.populate_eq]
  simp [Products.tasks, Products.receivers]

theorem populate_ready (s : InstanceSoup) (t : Task) :
    ({ heir := some (.ready t) } : Products).populate s =
      { s with runnables := s.runnables ++ [t] } := by
  rw [Products.populate_eq]
  simp [Products.tasks, Products.receivers]

namespace Bears

variable {s : Script} {root : Link} {base soup : InstanceSoup} {c : Channel} {m : Message}

theorem regular (h : base.Bears c m soup) (hbase : base.Regular) : soup.Regular := by
  have hcs : base.choices = base.receivers.map Receiver.choice := hbase
  have hchoice : ∀ d ∈ soup.choices, d.receiver?.map Receiver.choice = some d := by
    intro d hd
    have hd := h.choices.mem_iff.1 hd
    rw [hcs] at hd
    obtain ⟨r, -, rfl⟩ := List.mem_map.1 hd
    rw [r.receiver?_choice]
    rfl
  rw [Regular, receivers, List.map_filterMap, List.filterMap_congr hchoice, List.filterMap_some]

/-- The message moves on, and the choice that was used up is made again. -/
theorem moved (h : base.Bears c m soup) (hsilent : ∀ c, base.queue c = [])
    {pre post : List (Choice Receiver)} {a : Choice Receiver} {ms : Table Channel (List Message)}
    (hsplit : soup.choices = pre ++ a :: post) (hms : ∀ l, (ms.get? l).getD [] = [])
    (l : Channel) : base.Bears l m { soup with
      choices := pre ++ post ++ [a], messages := ms.insert l ((ms.get? l).getD [] ++ [m]) } where
  frame := by rw [h.frame]
  choices := by
    refine List.Perm.trans ?_ h.choices
    rw [hsplit, List.append_assoc]
    exact (List.perm_append_singleton a post).append_left pre
  queue k := by
    show ((ms.insert l _).get? k).getD [] = _
    rw [Table.get?_insert, hsilent, hsilent]
    split
    · rw [Option.getD_some, hms]
    · exact hms k

/-- What is taken next is the message. -/
theorem taken (h : base.Bears c m soup) (hsilent : ∀ c, base.queue c = []) {a : Arm Receiver}
    {n : Message} {rest : InstanceSoup} (hm : soup.takeMatch? = some (a, n, rest)) :
    a.channel = c ∧ n = m ∧ ∀ l, rest.queue l = [] := by
  have hqueue (l : Channel) : (if l = c then [m] else []) =
      if l = a.channel then n :: rest.queue l else rest.queue l := by
    rw [← queue_takeMatch? hm l, h.queue, hsilent, hsilent]
    rfl
  have ha := hqueue a.channel
  rw [if_pos rfl] at ha
  obtain rfl : a.channel = c := by
    by_contra hne
    rw [if_neg hne] at ha
    cases ha
  rw [if_pos rfl] at ha
  obtain ⟨rfl, hrest⟩ := List.cons_eq_cons.1 ha
  refine ⟨rfl, rfl, fun l => ?_⟩
  by_cases hl : l = a.channel
  · rw [hl, ← hrest]
  · have hl' := hqueue l
    rw [if_neg hl, if_neg hl] at hl'
    exact hl'.symm

section

variable (hf : Family s root base) (hw : base.hasWork = false) (hsilent : ∀ c, base.queue c = [])

include hf hw hsilent

/-- The message is taken next, by the receiver that it is for. -/
theorem exists_pick {q : Receiver} (hq : q ∈ base.receivers) (hc : c ∈ q.channels)
    (h : base.Bears c m soup) : ∃ pre post ms, soup.choices = pre ++ q.choice :: post ∧
      soup.pick? = some (.waiting q, some (c, m),
        { soup with choices := pre ++ post, messages := ms }) ∧
      ∀ l, (ms.get? l).getD [] = [] := by
  have hcs : base.choices = base.receivers.map Receiver.choice := hf.regular
  have hrun : soup.takeRunnable? = none := by
    rw [takeRunnable?, h.frame]
    simp only [(hf.parts_of_rest hw).1]
  have hmem : q.choice ∈ soup.choices :=
    h.choices.mem_iff.2 (hcs ▸ List.mem_map_of_mem hq)
  have hready : soup.isReady ⟨c, q⟩ = true := by
    simp [isReady, h.queue]
  cases hm : soup.takeMatch? with
  | none =>
    rw [takeMatch?_eq_none_iff, List.any_eq_false] at hm
    exact absurd (List.any_eq_true.2 ⟨_, Receiver.mem_arms_choice.2 ⟨hc, rfl⟩, hready⟩)
      (hm _ hmem)
  | some found =>
    obtain ⟨a, n, rest⟩ := found
    obtain ⟨pre, d, post, hsplit, ha, hframe⟩ := exists_of_takeMatch? hm
    obtain ⟨rfl, rfl, hrest⟩ := h.taken hsilent hm
    -- the choice that is used up is that of the only receiver that listens there
    have hd : d ∈ base.choices := h.choices.mem_iff.1 (hsplit ▸ by simp)
    rw [hcs] at hd
    obtain ⟨r, hr, rfl⟩ := List.mem_map.1 hd
    obtain ⟨har, hhandler⟩ := Receiver.mem_arms_choice.1 ha
    obtain rfl := hf.receiver_unique hr hq har hc
    refine ⟨pre, post, rest.messages, hsplit, ?_, hrest⟩
    rw [pick?, hrun, hm, hframe, ← hhandler]
    rfl

/-- The receiver passes the message on, and waits as before. -/
theorem exists_hop {q : Receiver} (hq : q ∈ base.receivers) {u : Link} (hu : u ∈ q.awaits)
    {scope : ActivityId} {reply : Channel}
    (h : base.Bears u.parent (.compensate scope reply) soup) : ∃ n d,
      base.Bears q.link.parent (.compensate scope reply) d ∧ ∀ evaluator now,
        (s.withEvaluator evaluator).program.Reduces (fun _ => now) soup n d := by
  have hlisten : u.parent ∈ q.channels :=
    Receiver.mem_channels.2 (.inr (.inl (List.mem_map_of_mem hu)))
  obtain ⟨pre, post, ms, hsplit, hpick, hms⟩ := h.exists_pick hf hw hsilent hq hlisten
  have hregular := h.regular hf.regular
  have hlink := (hf.link_mem (waiting_mem_parts.2 hq)).1
  have hidle : soup.closed.contains q.link.parent = false ∧
      soup.timers.get? q.link.parent = none := by
    rw [h.frame]
    exact hf.parent_idle hlink
  have hrun : soup.runnables = [] := by
    rw [h.frame]
    exact (hf.parts_of_rest hw).1
  have hpassed := addTo_passing (s := { soup with choices := pre ++ post, messages := ms }) hidle.1
    hidle.2 (.compensate scope reply)
  have hmoved := h.moved hsilent hsplit hms q.link.parent
  obtain hat | ⟨t, hat, hthen⟩ := Receiver.passes_on hu scope reply
  · refine ⟨1, _, hmoved, fun evaluator now => .step .refl ?_⟩
    rw [Script.step?_of_yields hregular hpick (hat _ _ _ _ _), hpassed, populate_waiting]
    rfl
  · let mid : InstanceSoup := { soup with
      runnables := [t], choices := pre ++ post
      messages := ms.insert q.link.parent
        ((ms.get? q.link.parent).getD [] ++ [.compensate scope reply]) }
    have hmid : mid.Regular := (gives_of_pick? hregular hpick).regular
    refine ⟨2, _, hmoved, fun evaluator now => .step (t := mid) (.step .refl ?_) ?_⟩
    · rw [Script.step?_of_yields hregular hpick (hat _ _ _ _ _), hpassed, populate_ready]
      simp only [hrun]
      rfl
    · rw [Script.step?_of_yields hmid rfl (hthen _ _ _ _), hrun]
      exact congrArg (fun soup => Except.ok (some soup)) (populate_waiting _ q)

/-- From wherever somebody is awaited, a request comes to the root. -/
theorem comes_to_root {l : Link} (hl : l ∈ base.expected root) {scope : ActivityId}
    {reply : Channel} (h : base.Bears l.parent (.compensate scope reply) soup) : ∃ n d,
      base.Bears root.parent (.compensate scope reply) d ∧ ∀ evaluator now,
        (s.withEvaluator evaluator).program.Reduces (fun _ => now) soup n d := by
  -- the induction is on the channel, since whoever awaits a link is older than the link
  induction hn : (l.parent : Nat) using Nat.strongRecOn generalizing l soup with
  | _ n ih =>
    rcases List.mem_cons.1 hl with rfl | ha
    · exact ⟨0, soup, h, fun _ _ => .refl⟩
    · obtain ⟨P, hP, hu⟩ := List.mem_flatMap.1 ha
      obtain ⟨q, rfl, -⟩ := hf.waits_of_rest hw hP
      obtain ⟨j, mid, hmid, hfirst⟩ := h.exists_hop hf hw hsilent (waiting_mem_parts.1 hP) hu
      obtain ⟨k, d, hd, hthen⟩ := ih q.link.parent (hn ▸ hf.elder _ hP l hu) (hf.link_mem hP).1
        hmid rfl
      exact ⟨j + k, d, hd, fun evaluator now => (hfirst evaluator now).trans (hthen evaluator now)⟩

/-- When the message has come to the root, nothing is left to do. -/
theorem rests (h : base.Bears root.parent m soup) : soup.hasWork = false := by
  have hrun : soup.runnables = [] := by
    rw [h.frame]
    exact (hf.parts_of_rest hw).1
  refine (hasWork_eq_false_iff soup).2 ⟨by rw [takeRunnable?, hrun], ?_⟩
  rw [takeMatch?_eq_none_iff, List.any_eq_false]
  intro d hd
  have hcs : base.choices = base.receivers.map Receiver.choice := hf.regular
  rw [h.choices.mem_iff, hcs] at hd
  obtain ⟨q, hq, rfl⟩ := List.mem_map.1 hd
  rw [Bool.not_eq_true, List.any_eq_false]
  intro a ha
  have hc := (Receiver.mem_arms_choice.1 ha).1
  have hne : a.channel ≠ root.parent := fun he => hf.root_unheard hq (he ▸ hc)
  simp [isReady, h.queue, hne, hsilent]

end

end Bears

end Soup

/-- **Requests travel to the root.**  A request to compensate that is sent to a suspended instance,
to where somebody waits for what it has started, is passed on to the parent channel of the root:
whatever the evaluator and the clock, by the same reductions, none of which fails, and nothing else
comes of it but that the choices may stand in another order. -/
theorem Script.WellDriven.forwards_requests {s : Script} {c : Course} (h : s.WellDriven c)
    (hs : c.Suspended) {q : Receiver} (hq : q ∈ c.soup.receivers) {u : Link} (hu : u ∈ q.awaits)
    (scope : ActivityId) (reply : Channel) : ∃ root, c.soup.global.root = some root ∧ ∃ n d,
      Soup.Bears c.soup root.parent (.compensate scope reply) d ∧ ∀ evaluator now limit, n ≤ limit →
        (s.withEvaluator evaluator).program.execute now limit
          (c.soup.send u.parent (.compensate scope reply)) = .ok ⟨d, n⟩ := by
  have hd := h.driven
  have hf := hd.orderly.family
  obtain ⟨hnil, hcalm⟩ := hd.calm_of_suspended hs
  have hsilent := hf.queue_of_calm hs.1 hcalm hnil
  have hexpected := Family.mem_expected_of_awaits .root (Soup.waiting_mem_parts.2 hq) hu
  obtain ⟨hopen, htimer⟩ := hf.parent_idle hexpected
  have hsent := Soup.bears_send hopen htimer (.compensate scope reply)
  obtain ⟨n, d, hbears, hlead⟩ := hsent.comes_to_root hf hs.1 hsilent hexpected
  refine ⟨⟨1, 2⟩, hd.orderly.root, n, d, hbears, fun evaluator now limit hn => ?_⟩
  exact Program.execute_of_rest (hlead evaluator now) (hbears.rests hf hs.1 hsilent)
    (Nat.le_trans hn (Nat.le_max_left _ _))

/-- A vigil rests after its first round, its scope waiting for the day's wait. -/
theorem Script.exists_waiting_vigil : ∃ o,
    vigil.program.execute ⟨0, 0⟩ 100 (Course.inject { soup := vigil.newSoup } []).soup = .ok o ∧
      o.rest = .suspended ∧ ∃ q ∈ o.soup.receivers, ⟨4, 3, none⟩ ∈ q.awaits := by
  have hall : ((vigil.program.execute ⟨0, 0⟩ 100
      (Course.inject { soup := vigil.newSoup } []).soup).toOption.any fun o =>
        o.rest == .suspended && o.soup.receivers.any fun q => q.awaits.contains ⟨4, 3, none⟩) =
      true := by
    decide +kernel
  generalize vigil.program.execute _ _ _ = x at hall ⊢
  cases x with
  | error e => cases hall
  | ok o =>
    obtain ⟨hrest, hany⟩ := (Bool.and_eq_true _ _).mp hall
    obtain ⟨q, hq, hu⟩ := List.any_eq_true.1 hany
    exact ⟨o, rfl, eq_of_beq hrest, q, hq, List.contains_iff_mem.1 hu⟩

/-- A request to a vigil, sent to where the day's wait reports, comes to where the vigil does. -/
theorem Script.forwards_requests_vigil : ∃ c : Course, vigil.WellDriven c ∧ c.Suspended ∧
    ∃ n d, Soup.Bears c.soup 2 (.compensate 0 9) d ∧ ∀ now,
      vigil.program.execute now n (c.soup.send 4 (.compensate 0 9)) = .ok ⟨d, n⟩ := by
  obtain ⟨o, ho, hrest, q, hq, hu⟩ := exists_waiting_vigil
  have hdriven : vigil.WellDriven (vigil.advance ⟨0, 0⟩ o.reductions
      (Course.inject { soup := vigil.newSoup } [])) :=
    .round (.start rfl) (fun _ he => nomatch he) ho
  have hs := suspended_of_execute ho hrest
  rw [(execute_eq_ok_iff.1 ho).2.2] at hq
  obtain ⟨root, hroot, n, d, hbears, hlead⟩ := WellDriven.forwards_requests hdriven hs hq hu 0 9
  rw [hdriven.driven.orderly.root] at hroot
  cases hroot
  exact ⟨_, hdriven, hs, n, d, hbears, fun now => hlead vigil.evaluator now n (Nat.le_refl n)⟩

end Perdure
