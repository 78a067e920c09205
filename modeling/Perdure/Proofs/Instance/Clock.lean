import Perdure.Proofs.Instance.Driven

/-!
# Courses and the clock

The log of a course tells which reductions were made, but not when.  Here the reductions come with
the time that was on the clock, so that what depends on the time, such as the value of an
expression, can be told from the record.

## Main definitions

* `Tick` — a reduction and the time on the clock.
* `Script.Timed` — well-driven courses with their ticks.
* `Script.Ticked` — the same, change by change.

## Main results

* `Script.WellDriven.exists_timed`, `Script.Timed.wellDriven` — the clock adds no courses, and takes
  none away.
* `Script.advance_since` — what a reduction keeps, with its tick, rounds keep.
* `Script.Timed.ticked`, `Script.Ticked.advance` — timed courses are made by single changes.
* `Script.Ticked.log_eq` — the ticks are the log with the time.
-/

namespace Perdure

/-- A reduction and the time on the clock when it was made. -/
structure Tick where
  now : Instant
  reduction : Reduction

/-- The reductions of a course since an earlier moment of it, all made at one time. -/
def Course.since (d c : Course) (now : Instant) : List Tick :=
  (d.log.drop c.log.length).map fun r => ⟨now, r⟩

namespace Script

/-- The courses of instances of a valid definition, round by round, with their ticks. -/
inductive Timed (s : Script) : List Tick → Course → Prop
  | start (h : s.definition.validate = .ok ()) : Timed s [] { soup := s.newSoup }
  | round {ts : List Tick} {c : Course} {ms : List (Channel × Message)} {now : Instant}
      {limit : Nat} {o : Outcome Shared Task Receiver Message} (h : Timed s ts c)
      (hms : ∀ e ∈ ms, c.Admits e.1 e.2)
      (ho : s.program.execute now limit (c.inject ms).soup = .ok o) :
      Timed s (ts ++ (s.advance now o.reductions (c.inject ms)).since c now)
        (s.advance now o.reductions (c.inject ms))
  | drained {ts : List Tick} {c : Course} (h : Timed s ts c) : Timed s ts c.drain

/-- The same courses, change by change. -/
inductive Ticked (s : Script) : List Tick → Course → Prop
  | start (h : s.definition.validate = .ok ()) : Ticked s [] { soup := s.newSoup }
  | inject {ts : List Tick} {c : Course} {ch : Channel} {msg : Message} (h : Ticked s ts c)
      (ha : c.Admits ch msg) : Ticked s ts (c.inject [(ch, msg)])
  | reduce {ts : List Tick} {c : Course} {now : Instant} {r : Reduction} (h : Ticked s ts c)
      (hr : s.reduction? now c.soup = .ok (some r)) : Ticked s (ts ++ [⟨now, r⟩]) (c.extend r)
  | drain {ts : List Tick} {c : Course} (h : Ticked s ts c) : Ticked s ts c.drain

variable {s : Script} {ts : List Tick} {c : Course}

/-! ### The clock neither adds courses nor takes them away -/

theorem WellDriven.exists_timed (h : s.WellDriven c) : ∃ ts, s.Timed ts c := by
  induction h with
  | start hv => exact ⟨[], .start hv⟩
  | round _ hms ho ih =>
    obtain ⟨ts, h⟩ := ih
    exact ⟨_, .round h hms ho⟩
  | drained _ ih =>
    obtain ⟨ts, h⟩ := ih
    exact ⟨ts, .drained h⟩

theorem Timed.wellDriven (h : s.Timed ts c) : s.WellDriven c := by
  induction h with
  | start hv => exact .start hv
  | round _ hms ho ih => exact .round ih hms ho
  | drained _ ih => exact .drained ih

/-- What a reduction keeps, with its tick, any number of reductions at one time keep. -/
theorem advance_since {R : List Tick → Course → Prop} {now : Instant}
    (hstep : ∀ ts c r, R ts c → s.reduction? now c.soup = .ok (some r) →
      R (ts ++ [⟨now, r⟩]) (c.extend r)) (h : R ts c) (n : Nat) :
    R (ts ++ (s.advance now n c).since c now) (s.advance now n c) := by
  induction n generalizing ts c with
  | zero =>
    rw [Script.advance, Course.since, List.drop_length, List.map_nil, List.append_nil]
    exact h
  | succ n ih =>
    by_cases hr : ∃ r, s.reduction? now c.soup = .ok (some r)
    · obtain ⟨r, hr⟩ := hr
      -- the first reduction, and then all that follow it
      have hrest := ih (hstep ts c r h hr)
      obtain ⟨rs, hrs⟩ := log_prefix_advance s now n (c.extend r)
      have hsince : (s.advance now n (c.extend r)).since c now =
          ⟨now, r⟩ :: (s.advance now n (c.extend r)).since (c.extend r) now := by
        rw [Course.since, Course.since, ← hrs, List.drop_left, Course.log_extend,
          List.append_assoc, List.drop_left]
        rfl
      rw [advance_of_reduction? hr, hsince]
      rw [List.append_assoc] at hrest
      exact hrest
    · rw [advance_of_stuck (not_exists.1 hr), Course.since, List.drop_length, List.map_nil,
        List.append_nil]
      exact h

namespace Ticked

theorem driven (h : s.Ticked ts c) : s.Driven c := by
  induction h with
  | start hv => exact .start hv
  | inject _ ha ih => exact .inject ih ha
  | reduce _ hr ih => exact .reduce ih hr
  | drain _ ih => exact .drain ih

/-- The ticks are the log with the time. -/
theorem log_eq (h : s.Ticked ts c) : ts.map Tick.reduction = c.log := by
  induction h with
  | start => rfl
  | inject _ _ ih => exact ih
  | reduce _ _ ih => rw [List.map_append, ih, Course.log_extend, List.map_singleton]
  | drain _ ih => exact ih

/-! ### Rounds are made of single changes -/

theorem injectEach (h : s.Ticked ts c) (ms : List (Channel × Message))
    (hms : ∀ e ∈ ms, c.Admits e.1 e.2) : s.Ticked ts (c.inject ms) := by
  induction ms generalizing c with
  | nil => exact h
  | cons e ms ih =>
    have hfirst : s.Ticked ts (c.inject [e]) := .inject h (hms e List.mem_cons_self)
    exact ih hfirst fun e' he' => Driven.admits_inject.2 (hms e' (List.mem_cons_of_mem _ he'))

theorem advance (h : s.Ticked ts c) (now : Instant) (n : Nat) :
    s.Ticked (ts ++ (s.advance now n c).since c now) (s.advance now n c) :=
  advance_since (fun _ _ _ h hr => .reduce h hr) h n

/-- A further round, as far as it has come. -/
theorem further (h : s.Ticked ts c) {ms : List (Channel × Message)}
    (hms : ∀ e ∈ ms, c.Admits e.1 e.2) (now : Instant) (n : Nat) :
    s.Ticked (ts ++ (s.advance now n (c.inject ms)).since c now)
      (s.advance now n (c.inject ms)) :=
  (h.injectEach ms hms).advance now n

end Ticked

theorem Timed.ticked (h : s.Timed ts c) : s.Ticked ts c := by
  induction h with
  | start hv => exact .start hv
  | round _ hms _ ih => exact ih.further hms _ _
  | drained _ ih => exact .drain ih

end Script

end Perdure
