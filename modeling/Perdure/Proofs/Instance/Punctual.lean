import Perdure.Proofs.Instance.Clock
import Perdure.Proofs.Instance.Takedown
import Perdure.Proofs.Instance.Timers

/-!
# Punctual courses

The outside may tell an instance late that a timer went off, and it may do so when the timer is not
armed any more, but it should not be early: while a timer is armed, its event is due only when the
clock has reached the deadline.  If the outside keeps to that, whoever takes the event of a timer
takes it at the deadline or later.  For the clock moves only while the instance rests, and then no
event waits that could have become early by a step back.

## Main definitions

* `Course.OnTime` — messages from outside, none of which is early.
* `Script.Punctual` — well-driven courses with their ticks, in which no event is early.
* `Script.Clocked` — the same, change by change, with the time on the clock.

## Main results

* `Script.Punctual.clocked`, `Script.Clocked.further` — punctual courses are made by single changes.
* `Script.Clocked.due_of_timeout` — the event of a timer is taken at its deadline or later.
-/

namespace Perdure

/-- No event of a timer is early: while the timer is armed, the clock has reached its deadline. -/
def Course.OnTime (c : Course) (now : Instant) : List (Channel × Message) → Prop
  | [] => True
  | e :: ms => (e.2 = .timeout → ∀ d, c.soup.timers.get? e.1 = some d → d.isAtMost now = true) ∧
      (c.inject [e]).OnTime now ms

/-- The first event of each timer that somebody waits for is not early. -/
def Course.Timely (c : Course) (now : Instant) : Prop :=
  ∀ t ∈ c.soup.awaitedTimers, ∀ d ∈ c.registrations t,
    (c.soup.queue t).head? = some .timeout → d.isAtMost now = true

namespace Script

/-- The courses of instances of a valid definition, round by round, with their ticks, in which no
event of a timer is early. -/
inductive Punctual (s : Script) : List Tick → Course → Prop
  | start (h : s.definition.validate = .ok ()) : Punctual s [] { soup := s.newSoup }
  | round {ts : List Tick} {c : Course} {ms : List (Channel × Message)} {now : Instant}
      {limit : Nat} {o : Outcome Shared Task Receiver Message} (h : Punctual s ts c)
      (hms : ∀ e ∈ ms, c.Admits e.1 e.2) (hon : c.OnTime now ms)
      (ho : s.program.execute now limit (c.inject ms).soup = .ok o) :
      Punctual s (ts ++ (s.advance now o.reductions (c.inject ms)).since c now)
        (s.advance now o.reductions (c.inject ms))
  | drained {ts : List Tick} {c : Course} (h : Punctual s ts c) : Punctual s ts c.drain

/-- The same courses, change by change, with the time on the clock.  The clock is set while the
instance rests. -/
inductive Clocked (s : Script) : Instant → List Tick → Course → Prop
  | start {now : Instant} (h : s.definition.validate = .ok ()) :
      Clocked s now [] { soup := s.newSoup }
  | set {now : Instant} {ts : List Tick} {c : Course} (h : Clocked s now ts c)
      (hw : c.soup.hasWork = false) (next : Instant) : Clocked s next ts c
  | inject {now : Instant} {ts : List Tick} {c : Course} {ch : Channel} {msg : Message}
      (h : Clocked s now ts c) (ha : c.Admits ch msg) (hon : c.OnTime now [(ch, msg)]) :
      Clocked s now ts (c.inject [(ch, msg)])
  | reduce {now : Instant} {ts : List Tick} {c : Course} {r : Reduction} (h : Clocked s now ts c)
      (hr : s.reduction? now c.soup = .ok (some r)) : Clocked s now (ts ++ [⟨now, r⟩]) (c.extend r)
  | drain {now : Instant} {ts : List Tick} {c : Course} (h : Clocked s now ts c) :
      Clocked s now ts c.drain

variable {s : Script} {now : Instant} {ts : List Tick} {c : Course}

/-- A round that comes to rest after so many reductions makes a punctual course, if none of its
events is early. -/
theorem Punctual.round_of_restsAfter (h : s.Punctual ts c) {ms : List (Channel × Message)}
    (hms : ∀ e ∈ ms, c.Admits e.1 e.2) (hon : c.OnTime now ms) {n : Nat}
    (hrest : s.RestsAfter now n (c.inject ms)) :
    s.Punctual (ts ++ (s.advance now n (c.inject ms)).since c now)
      (s.advance now n (c.inject ms)) :=
  .round h hms hon (execute_of_restsAfter hrest)

/-- Punctual courses are timed. -/
theorem Punctual.timed (h : s.Punctual ts c) : s.Timed ts c := by
  induction h with
  | start hv => exact .start hv
  | round _ hms _ ho ih => exact .round ih hms ho
  | drained _ ih => exact .drained ih

namespace Clocked

theorem ticked (h : s.Clocked now ts c) : s.Ticked ts c := by
  induction h with
  | start hv => exact .start hv
  | set _ _ _ ih => exact ih
  | inject _ ha _ ih => exact .inject ih ha
  | reduce _ hr ih => exact .reduce ih hr
  | drain _ ih => exact .drain ih

/-! ### Rounds are made of single changes -/

theorem injectEach (h : s.Clocked now ts c) (ms : List (Channel × Message))
    (hms : ∀ e ∈ ms, c.Admits e.1 e.2) (hon : c.OnTime now ms) :
    s.Clocked now ts (c.inject ms) := by
  induction ms generalizing c with
  | nil => exact h
  | cons e ms ih =>
    have hfirst : s.Clocked now ts (c.inject [e]) :=
      .inject h (hms e List.mem_cons_self) ⟨hon.1, True.intro⟩
    exact ih hfirst (fun e' he' => Driven.admits_inject.2 (hms e' (List.mem_cons_of_mem _ he')))
      hon.2

/-- A further round, as far as it has come. -/
theorem further (h : s.Clocked now ts c) {ms : List (Channel × Message)}
    (hms : ∀ e ∈ ms, c.Admits e.1 e.2) (hon : c.OnTime now ms) (n : Nat) :
    s.Clocked now (ts ++ (s.advance now n (c.inject ms)).since c now)
      (s.advance now n (c.inject ms)) :=
  advance_since (fun _ _ _ h hr => .reduce h hr) (h.injectEach ms hms hon) n

end Clocked

/-- After a round the clock may show any time. -/
theorem Punctual.clocked (h : s.Punctual ts c) : ∀ now, s.Clocked now ts c := by
  induction h with
  | start hv => exact fun _ => .start hv
  | round _ hms hon ho ih =>
    exact ((ih _).further hms hon _).set (execute_eq_ok_iff.1 ho).2.1.2
  | drained _ ih => exact fun now => .drain (ih now)

/-! ### Events that are taken -/

namespace Clocked

/-- The events that wait are not early. -/
theorem timely (h : s.Clocked now ts c) : c.Timely now := by
  induction h with
  | start _ => exact nofun
  | @set now ts c h hw next ih =>
    intro t ht d hd hhead
    rw [h.ticked.driven.orderly.family.queue_timer_of_rest hw ht] at hhead
    cases hhead
  | @inject now ts c ch msg h ha hon ih =>
    intro t ht d hd hhead
    have hold : t ∈ c.soup.awaitedTimers := c.soup.awaitedTimers_send ch msg ▸ ht
    rw [c.registrations_inject] at hd
    replace hhead : ((c.soup.send ch msg).queue t).head? = some .timeout := hhead
    rw [Soup.queue_send] at hhead
    split at hhead
    · next hsent =>
      obtain ⟨rfl, -⟩ := hsent
      obtain ⟨d', hd', hwait⟩ := h.ticked.driven.registered_once hold
      cases hq : c.soup.queue t with
      | nil =>
        -- nothing waited on the timer, so it was armed with the deadline of its registration
        rw [hq] at hwait hhead
        obtain rfl := List.mem_singleton.1 (hd' ▸ hd)
        exact hon.1 (Option.some.inj hhead) d (hwait.resolve_right (not_not.2 rfl))
      | cons first rest =>
        rw [hq] at hhead
        exact ih t hold d hd (by rw [hq]; exact hhead)
    · exact ih t hold d hd hhead
  | @reduce now ts c r h hr ih =>
    obtain ⟨p, consumed, m⟩ := h.ticked.driven.orderly.family.exists_move hr
    intro t ht d hd hhead
    replace hhead : (r.after.queue t).head? = some .timeout := hhead
    rcases m.mem_awaitedTimers_after ht with hnew | hold
    · rw [m.queue_after_new (m.new_of_timer hnew)] at hhead
      cases hhead
    · have hne : r.part.timer ≠ some t := fun htimer =>
        m.not_owned_of_timer htimer (Family.timer_mem_owned ht)
      rw [m.queue_of_timer hold hne] at hhead
      rw [m.registrations_of_timer rfl hold] at hd
      exact ih t hold d hd hhead
  | @drain now ts c _ ih =>
    intro t ht d hd hhead
    exact ih t ht d (c.registrations_drain t ▸ hd) hhead

/-- **The event of a timer is taken at the deadline of the timer, or later.** -/
theorem due_of_timeout (h : s.Clocked now ts c) {r : Reduction}
    (hr : s.reduction? now c.soup = .ok (some r)) {t : Channel} (ht : r.part.timer = some t)
    (htaken : r.taken = some (t, .timeout)) {d : Instant} (hd : .registerTimer t d ∈ c.emitted) :
    d.isAtMost now = true := by
  obtain ⟨p, consumed, m⟩ := h.ticked.driven.orderly.family.exists_move hr
  refine h.timely t (Family.mem_awaitedTimers m.part_mem ht) d (Course.mem_registrations.2 hd) ?_
  rw [m.gives.queue t, htaken]
  simp [Soup.addressed]

end Clocked

end Script

end Perdure
