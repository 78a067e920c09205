import Perdure.Engine.Basic
import Perdure.Proofs.Engine.Host
import Perdure.Proofs.Instance.History
import Perdure.Proofs.Instance.Takedown
import Perdure.Proofs.Instance.Timers

/-!
# Recovery

An engine that starts again knows of no timers; it reads them off the stored states of its
instances and asks for all of them.  That is right if the armed timers of an instance are exactly
those that somebody waits for: with a timer too few somebody would wait for ever, and one too many
would wake nobody.

## Main definitions

* `Course.TimersAwaited` — the armed timers and the events of timers are those that somebody waits
  for.

## Main results

* `Engine.perform_recoverInstance` — the timers that recovery asks for.
* `Script.Driven.wakes_of_rest` — at rest the armed timers are those that somebody waits for.
* `Script.WellDriven.awaits_armed_timers` — so it is between any two reductions, and after a restart
  every one of these timers is asked for again.
-/

namespace Perdure

/-! ### Timers of stored instances -/

/-- An instance whose state is read is asked about once: for each of its armed timers. -/
theorem Engine.perform_recoverInstance {h : Host} (hf : h.failing = []) {id : InstanceId}
    {r : Record} (hr : h.store.get? id = some r) {bytes : List UInt8} (hb : r.state = some bytes)
    {remap : RemapTable} {soup : InstanceSoup} (hs : Checkpoint.read remap bytes = .ok soup) :
    (Engine.recoverInstance remap id).perform h = (.ok soup.timers.size, { h with
      journal := h.journal ++ soup.timers.entries.map fun e => .registerTimer id e.1 e.2 }) := by
  have hstate := Access.perform_state_of_get? (by simp [hf]) hr
  unfold Engine.recoverInstance
  rw [Access.perform_bind, Access.perform_relabel_of_ok hstate, hb]
  simp only [hs, Access.perform_bind,
    Access.perform_forM_timer fun e : Channel × Instant => Action.registerTimer id e.1 e.2,
    Access.perform_pure]

/-! ### Timers that somebody waits for -/

namespace Course

/-- The timers of an instance are those that somebody waits for. -/
structure TimersAwaited (c : Course) : Prop where
  /-- Every choice is the one that its receiver waits in. -/
  choices : c.soup.choices = c.soup.receivers.map Receiver.choice
  /-- Who waits for a timer listens on it.  The timer was registered once, and is armed with the
  deadline of that, or what became of it waits to be taken. -/
  awaited : ∀ choice ∈ c.soup.choices, ∀ arm ∈ choice.arms, ∀ t, arm.handler.timer = some t →
    ⟨t, arm.handler⟩ ∈ choice.arms ∧ ∃ d, c.registrations t = [d] ∧
      (c.soup.timers.get? t = some d ∧ c.soup.queue t = [] ∨
        c.soup.timers.get? t = none ∧ c.soup.queue t ≠ [] ∧
          ∀ msg ∈ c.soup.queue t, msg = .timeout ∨ msg = .timerCancelled)
  /-- An armed timer is open, and exactly one choice listens on it: somebody waits for it. -/
  armed : ∀ t d, c.soup.timers.get? t = some d → c.soup.isClosed t = false ∧
    c.soup.choices.countP (·.listensOn t) = 1 ∧
    ∃ choice ∈ c.soup.choices, ∃ r, choice.receiver? = some r ∧ r.timer = some t ∧
      choice.listensOn t = true

end Course

namespace Script.Driven

variable {s : Script} {c : Course}

theorem timersAwaited (h : s.Driven c) : c.TimersAwaited where
  choices := h.orderly.family.regular
  awaited choice hchoice arm harm t ht := by
    rw [show c.soup.choices = _ from h.orderly.family.regular] at hchoice
    obtain ⟨q, hq, rfl⟩ := List.mem_map.1 hchoice
    obtain ⟨-, rfl⟩ := Receiver.mem_arms_choice.1 harm
    have hawaited := Soup.mem_awaitedTimers_iff.2 ⟨_, hq, ht⟩
    obtain ⟨d, hd, hwait⟩ := h.registered_once hawaited
    refine ⟨Receiver.mem_arms_choice.2 ⟨Receiver.mem_channels.2 (.inl ht), rfl⟩, d, hd, ?_⟩
    cases harmed : c.soup.timers.get? t with
    | some d' =>
      have hempty := (h.orderly.family.armed t d' harmed).2
      have hsame := hwait.resolve_right (not_not.2 hempty)
      exact .inl ⟨by rw [← harmed, hsame], hempty⟩
    | none =>
      have hne := hwait.resolve_left (by simp [harmed])
      exact .inr ⟨rfl, hne, h.orderly.family.event t hawaited⟩
  armed t d hd := by
    have hf := h.orderly.family
    have hawaited := (hf.armed t d hd).1
    refine ⟨hf.unclosed t (Family.timer_mem_owned hawaited), hf.countP_listensOn hawaited, ?_⟩
    obtain ⟨q, hq, ht⟩ := Soup.mem_awaitedTimers_iff.1 hawaited
    refine ⟨q.choice, ?_, q, q.receiver?_choice, ht, ?_⟩
    · rw [show c.soup.choices = _ from hf.regular]
      exact List.mem_map_of_mem hq
    · rw [q.listensOn_choice, decide_eq_true_eq]
      exact Receiver.mem_channels.2 (.inl ht)

/-- Who waits for a timer waits for the deadline that the timer was registered with. -/
theorem mem_wakes_iff (h : s.Driven c) {t : Channel} {d : Instant} :
    (t, d) ∈ c.wakes ↔ t ∈ c.soup.awaitedTimers ∧ c.registrations t = [d] := by
  rw [Soup.mem_awaitedTimers_iff, Course.wakes, List.mem_filterMap]
  constructor
  · rintro ⟨q, hq, he⟩
    obtain ⟨t', ht, he⟩ := Option.bind_eq_some_iff.1 he
    obtain ⟨d', hd, he⟩ := Option.map_eq_some_iff.1 he
    cases he
    obtain ⟨d', hd', -⟩ := h.registered_once (Soup.mem_awaitedTimers_iff.2 ⟨q, hq, ht⟩)
    rw [hd'] at hd ⊢
    cases hd
    exact ⟨⟨q, hq, ht⟩, rfl⟩
  · rintro ⟨⟨q, hq, ht⟩, hd⟩
    exact ⟨q, hq, by simp [ht, hd]⟩

/-- The timers that are waited for, each once. -/
theorem map_fst_wakes (h : s.Driven c) : c.wakes.map Prod.fst = c.soup.awaitedTimers := by
  have hall (q : Receiver) (hq : q ∈ c.soup.receivers) :
      (q.timer.bind fun t => (c.registrations t).head?.map fun d => (t, d)).map Prod.fst =
        q.timer := by
    cases ht : q.timer with
    | none => rfl
    | some t =>
      obtain ⟨d, hd, -⟩ := h.registered_once (Soup.mem_awaitedTimers_iff.2 ⟨q, hq, ht⟩)
      simp [hd]
  rw [c.soup.awaitedTimers_eq, Course.wakes, List.map_filterMap]
  exact List.filterMap_congr hall

/-- At rest the armed timers, with their deadlines, are those that somebody waits for. -/
theorem wakes_of_rest (h : s.Driven c) (hw : c.soup.hasWork = false) :
    c.soup.timers.entries.Perm c.wakes := by
  have hf := h.orderly.family
  have hkeys : (c.soup.timers.entries.map Prod.fst).Nodup := Table.nodup_keys c.soup.timers.ordered
  have hwakes : (c.wakes.map Prod.fst).Nodup := by
    rw [h.map_fst_wakes]
    exact (List.nodup_append.1 hf.nodup).2.1
  refine (List.perm_ext_iff_of_nodup (hkeys.of_map _) (hwakes.of_map _)).2 ?_
  rintro ⟨t, d⟩
  rw [Table.mem_entries_iff, h.mem_wakes_iff]
  constructor
  · intro hd
    obtain ⟨hawaited, hempty⟩ := hf.armed t d hd
    obtain ⟨d', hd', hwait⟩ := h.registered_once hawaited
    have hsame := hwait.resolve_right (not_not.2 hempty)
    rw [hd] at hsame
    cases hsame
    exact ⟨hawaited, hd'⟩
  · rintro ⟨hawaited, hd⟩
    obtain ⟨d', hd', hwait⟩ := h.registered_once hawaited
    rw [hd] at hd'
    cases hd'
    have hempty := hf.queue_timer_of_rest hw hawaited
    exact hwait.resolve_right (not_not.2 hempty)

end Script.Driven

namespace Script

/-- **Armed timers are those that somebody waits for.**  In every round of a well-driven course,
after any number of reductions, who waits for a timer listens on it, and the timer is armed with
the deadline it was registered with unless an event of it waits to be taken; every armed timer is
open and has one listener.  When the instance rests, its armed timers are exactly those that
somebody waits for, and an engine that recovers the stored instance asks for each of them once and
for no other. -/
theorem WellDriven.awaits_armed_timers {s : Script} {c : Course} (h : s.WellDriven c)
    {ms : List (Channel × Message)} (hms : ∀ e ∈ ms, c.Admits e.1 e.2) (now : Instant) (n : Nat) :
    let d := s.advance now n (c.inject ms)
    d.TimersAwaited ∧
    (d.soup.hasWork = false →
      d.soup.timers.entries.Perm d.wakes ∧
      d.wakes.map Prod.fst = d.soup.receivers.filterMap Receiver.timer ∧
      (d.wakes.map Prod.fst).Nodup ∧
      ∀ host : Host, host.failing = [] → ∀ id record bytes remap,
        host.store.get? id = some record → record.state = some bytes →
        Checkpoint.read remap bytes = .ok { d.soup with outbox := [] } →
        ∃ asked, (Engine.recoverInstance remap id).perform host =
            (.ok d.wakes.length, { host with journal := host.journal ++ asked }) ∧
          asked.Perm (d.wakes.map fun w => .registerTimer id w.1 w.2)) := by
  intro d
  have hd : s.Driven d := (h.driven.injectEach ms hms).advance now n
  refine ⟨hd.timersAwaited, fun hw => ?_⟩
  have hperm := hd.wakes_of_rest hw
  refine ⟨hperm, hd.map_fst_wakes.trans d.soup.awaitedTimers_eq, ?_, ?_⟩
  · rw [hd.map_fst_wakes]
    exact (List.nodup_append.1 hd.orderly.family.nodup).2.1
  · intro host hf id record bytes remap hr hb hs
    refine ⟨_, ?_, hperm.map _⟩
    rw [Engine.perform_recoverInstance hf hr hb hs, Table.size, hperm.length_eq]

/-- The record of a vigil that has started. -/
def vigilKept : Record where
  instanceId := 1
  processId := "vigil"
  state := some (Checkpoint.write vigilStarted.soup)
  createdAt := ⟨0, 0⟩

/-- An engine with no other instance than this one. -/
def vigilHost : Host := { store := Store.empty.insert vigilKept }

theorem get?_vigilHost : vigilHost.store.get? 1 = some vigilKept :=
  Store.empty.get?_insert_self rfl

/-- What is stored of a vigil that has started is read back. -/
theorem read_write_vigilStarted : Checkpoint.read ∅ (Checkpoint.write vigilStarted.soup) =
    .ok { vigilStarted.soup with outbox := [] } := by
  obtain ⟨k, hk⟩ : ∃ k, vigil.program.Reduces (fun _ => ⟨0, 0⟩) vigil.newSoup k vigilStarted.soup :=
    exists_reduces_advance 5 (Course.inject { soup := vigil.newSoup } [])
  have hnow (_ : Nat) : Instant.Valid ⟨0, 0⟩ := ⟨by decide, .inl (by decide)⟩
  exact Checkpoint.read_write (vigil_fits.over.steady_reduces hnow vigil_fits.steady_newSoup hk
    ⟨by decide +kernel, by decide +kernel⟩).fits

/-- A vigil that has started waits for the end of the day and for its alarm, and after a restart of
the engine both timers are asked for again. -/
theorem awaits_armed_timers_vigil : vigilStarted.TimersAwaited ∧
    vigilStarted.soup.hasWork = false ∧
    ∃ asked, (Engine.recoverInstance ∅ 1).perform vigilHost =
        (.ok 2, { vigilHost with journal := asked }) ∧
      asked.Perm [.registerTimer 1 8 ⟨86400, 0⟩, .registerTimer 1 9 ⟨3600, 0⟩] := by
  have hw : vigilStarted.soup.hasWork = false := by decide +kernel
  have hwakes : vigilStarted.wakes = [(8, ⟨86400, 0⟩), (9, ⟨3600, 0⟩)] := by decide +kernel
  have hd : vigil.advance ⟨0, 0⟩ 5 (Course.inject { soup := vigil.newSoup } []) = vigilStarted := rfl
  have hall := WellDriven.awaits_armed_timers (.start (s := vigil) rfl) (List.forall_mem_nil _)
    ⟨0, 0⟩ 5
  rw [hd] at hall
  obtain ⟨htimers, hrest⟩ := hall
  obtain ⟨-, -, -, hrecover⟩ := hrest hw
  obtain ⟨asked, hperform, hasked⟩ :=
    hrecover vigilHost rfl 1 vigilKept _ ∅ get?_vigilHost rfl read_write_vigilStarted
  rw [hwakes] at hperform hasked
  exact ⟨htimers, hw, asked, hperform, hasked⟩

end Script

end Perdure
