import Mathlib.Logic.Relation
import Perdure.Proofs.Instance.React

/-!
# The course of an instance

An instance is driven from outside in rounds: messages are put into its soup, then it is reduced
until nothing is left to do.  Its course keeps beside the soup what has happened so far: every
reduction, with the part that reacted and the soups around its reaction, and every effect that was
handed over.  What a part sends and what it starts is read off the soups of its reductions.

## Main definitions

* `Soup.pick?` — the part that reacts next, and what it takes.
* `Reduction`, `Script.reduction?` — a reduction on record.
* `Course` — an instance and all that has happened to it.
* `Script.advance` — the course after some reductions.
* `Script.WellDriven` — the courses of instances that get only messages the outside may send.

## Main results

* `Script.step?_eq` — the machine makes the reductions on record.
* `Script.execute_eq_ok_iff` — an execution is a course that comes to rest within its limit.
-/

namespace Perdure

/-! ### What reacts next -/

namespace Soup

/-- The part that reacts next, what it takes, and the soup without both. -/
def pick? (s : InstanceSoup) : Option (Part × Option (Channel × Message) × InstanceSoup) :=
  match s.takeRunnable? with
  | some (t, rest) => some (.ready t, none, rest)
  | none => s.takeMatch?.map fun (a, m, rest) => (.waiting a.handler, some (a.channel, m), rest)

/-- The soup holds a part: as a task that is ready, or behind an arm of a waiting choice. -/
def Holds (s : InstanceSoup) : Part → Prop
  | .ready t => t ∈ s.runnables
  | .waiting r => ∃ c ∈ s.choices, ∃ a ∈ c.arms, a.handler = r

end Soup

/-- A reduction on record. -/
structure Reduction where
  part : Part
  /-- The message that the part took, and its channel. -/
  taken : Option (Channel × Message) := none
  /-- The soup without the part and what it took. -/
  before : InstanceSoup
  /-- The soup after the reaction. -/
  after : InstanceSoup

namespace Reduction

/-- The messages that the reaction sent to a channel. -/
def sentTo (r : Reduction) (c : Channel) : List Message :=
  (r.after.queue c).drop (r.before.queue c).length

/-- The parts that the reaction left behind: others that it started, and its heir. -/
def produced (r : Reduction) : List Part :=
  (r.after.runnables.drop r.before.runnables.length).map .ready ++
    (r.after.receivers.drop r.before.receivers.length).map .waiting

end Reduction

namespace Script

/-- The next reduction, on record; `none` if nothing is left to do. -/
def reduction? (s : Script) (now : Instant) (soup : InstanceSoup) :
    Except RunError (Option Reduction) :=
  match soup.pick? with
  | none => .ok none
  | some (part, taken, before) =>
    ((s.react now part taken).run before).map fun r => some ⟨part, taken, before, r.2⟩

/-- The machine makes the reductions on record. -/
theorem step?_eq (s : Script) (now : Instant) (soup : InstanceSoup) :
    s.program.step? now soup = (s.reduction? now soup).map (Option.map Reduction.after) := by
  unfold Program.step? reduction? Soup.pick?
  cases soup.takeRunnable? with
  | some found =>
    obtain ⟨t, rest⟩ := found
    show ((s.runTask now t).run rest).map _ = (((s.runTask now t).run rest).map _).map _
    cases (s.runTask now t).run rest <;> rfl
  | none =>
    cases soup.takeMatch? with
    | none => rfl
    | some found =>
      obtain ⟨a, m, rest⟩ := found
      show ((s.receive now a.handler a.channel m).run rest).map _ =
        (((s.receive now a.handler a.channel m).run rest).map _).map _
      cases (s.receive now a.handler a.channel m).run rest <;> rfl

/-- A reduction of the machine is one on record. -/
theorem exists_of_step? {s : Script} {now : Instant} {soup t : InstanceSoup}
    (h : s.program.step? now soup = .ok (some t)) :
    ∃ r, s.reduction? now soup = .ok (some r) ∧ r.after = t := by
  rw [step?_eq] at h
  rcases hr : s.reduction? now soup with e | _ | r
  · rw [hr] at h
    cases h
  · rw [hr] at h
    cases h
  · rw [hr] at h
    exact ⟨r, rfl, Option.some.inj (Except.ok.inj h)⟩

end Script

/-! ### Courses -/

/-- What a message says about the end of an activity. -/
def Message.isCompleted : Message → Bool
  | .completed .. => true
  | _ => false

/-- An instance and all that has happened to it. -/
structure Course where
  soup : InstanceSoup
  /-- The effects that were handed over. -/
  effects : List Effect := []
  /-- The reductions, first to last. -/
  log : List Reduction := []

namespace Course

/-- The effects emitted so far, handed over or not. -/
def emitted (c : Course) : List Effect := c.effects ++ c.soup.outbox

/-- The course with one more reduction. -/
def extend (c : Course) (r : Reduction) : Course :=
  { c with soup := r.after, log := c.log ++ [r] }

@[simp] theorem soup_extend (c : Course) (r : Reduction) : (c.extend r).soup = r.after := rfl

@[simp] theorem log_extend (c : Course) (r : Reduction) : (c.extend r).log = c.log ++ [r] := rfl

/-- The course with messages from outside. -/
def inject (c : Course) (ms : List (Channel × Message)) : Course :=
  { c with soup := c.soup.sendEach ms }

/-- The course with its effects handed over. -/
def drain (c : Course) : Course :=
  { c with soup := c.soup.drainEffects.2, effects := c.effects ++ c.soup.drainEffects.1 }

/-- Messages from outside emit nothing. -/
@[simp] theorem emitted_inject (c : Course) (ms : List (Channel × Message)) :
    (c.inject ms).emitted = c.emitted := by
  simp [emitted, inject]

/-- Effects that are handed over stay emitted. -/
@[simp] theorem emitted_drain (c : Course) : c.drain.emitted = c.emitted := by
  simp [emitted, drain, Soup.drainEffects]

/-- The completions that were sent to a channel. -/
def reports (c : Course) (ch : Channel) : List Message :=
  c.log.flatMap fun r => (r.sentTo ch).filter Message.isCompleted

/-- Who reports on `a` left a part behind that reports on `b`. -/
def Started (c : Course) (a b : Channel) : Prop :=
  ∃ r ∈ c.log, r.part.home = a ∧ ∃ P ∈ r.produced, P.home = b

/-- Who reports on `a` has started, directly or through others, who reports on `b`. -/
def Descends (c : Course) : Channel → Channel → Prop := Relation.ReflTransGen c.Started

/-- The messages that the outside may send: what became of a timer that it was asked to arm, and
the order to the root activity to stop at once. -/
def Admits (c : Course) (ch : Channel) (m : Message) : Prop :=
  (m = .timeout ∨ m = .timerCancelled) ∧ (∃ t, .registerTimer ch t ∈ c.emitted) ∨
  m = .terminate ∧ ∃ root, c.soup.global.root = some root ∧ ch = root.termination

end Course

namespace Script

/-- The course after so many reductions, or fewer if it comes to rest or fails before. -/
def advance (s : Script) (now : Instant) : Nat → Course → Course
  | 0, c => c
  | n + 1, c => match s.reduction? now c.soup with
    | .ok (some r) => advance s now n (c.extend r)
    | _ => c

/-- The courses of instances of a valid definition: in each round the clock is set, messages are
put in that the outside may send, and the instance is reduced until nothing is left to do. -/
inductive WellDriven (s : Script) : Course → Prop
  | start (h : s.definition.validate = .ok ()) : WellDriven s { soup := s.newSoup }
  | round {c : Course} {ms : List (Channel × Message)} {now : Instant} {limit : Nat}
      {o : Outcome Shared Task Receiver Message} (h : WellDriven s c)
      (hms : ∀ e ∈ ms, c.Admits e.1 e.2)
      (ho : s.program.execute now limit (c.inject ms).soup = .ok o) :
      WellDriven s (s.advance now o.reductions (c.inject ms))
  | drained {c : Course} (h : WellDriven s c) : WellDriven s c.drain

/-! ### Executions -/

theorem advance_of_reduction? {s : Script} {now : Instant} {c : Course} {r : Reduction}
    (h : s.reduction? now c.soup = .ok (some r)) (n : Nat) :
    s.advance now (n + 1) c = s.advance now n (c.extend r) := by
  simp only [advance, h]

/-- Without a next reduction the course stays as it is. -/
theorem advance_of_stuck {s : Script} {now : Instant} {c : Course}
    (h : ∀ r, s.reduction? now c.soup ≠ .ok (some r)) (n : Nat) : s.advance now n c = c := by
  cases n with
  | zero => rfl
  | succ n =>
    unfold advance
    split
    · next hr => exact absurd hr (h _)
    · rfl

/-- What is on record stays on record. -/
theorem log_prefix_advance (s : Script) (now : Instant) (n : Nat) (c : Course) :
    c.log <+: (s.advance now n c).log := by
  induction n generalizing c with
  | zero => exact List.prefix_rfl
  | succ n ih =>
    unfold advance
    split
    · next r _ => exact (List.prefix_append c.log [r]).trans (ih (c.extend r))
    · exact List.prefix_rfl

/-- A reduction that came on record was made on the way, and the rest of the way follows it. -/
theorem exists_of_mem_log_advance {s : Script} {now : Instant} {n : Nat} {c : Course}
    {r : Reduction} (h : r ∈ (s.advance now n c).log.drop c.log.length) :
    ∃ m k, m + (k + 1) = n ∧ s.reduction? now (s.advance now m c).soup = .ok (some r) ∧
      s.advance now n c = s.advance now k ((s.advance now m c).extend r) := by
  induction n generalizing c with
  | zero =>
    rw [advance, List.drop_length] at h
    cases h
  | succ n ih =>
    by_cases hr : ∃ q, s.reduction? now c.soup = .ok (some q)
    · obtain ⟨q, hq⟩ := hr
      rw [advance_of_reduction? hq] at h ⊢
      obtain ⟨rs, hrs⟩ := log_prefix_advance s now n (c.extend q)
      rw [← hrs, Course.log_extend, List.append_assoc, List.drop_left] at h
      -- it is the first reduction on the way, or one of those that follow
      rcases List.mem_cons.1 h with rfl | h
      · exact ⟨0, n, by omega, hq, rfl⟩
      · have h' : r ∈ (s.advance now n (c.extend q)).log.drop (c.extend q).log.length := by
          rw [← hrs, List.drop_left]
          exact h
        obtain ⟨m, k, hmk, hm, he⟩ := ih h'
        refine ⟨m + 1, k, by omega, ?_, ?_⟩
        · rw [advance_of_reduction? hq]
          exact hm
        · rw [he, advance_of_reduction? hq]
    · rw [advance_of_stuck (not_exists.1 hr), List.drop_length] at h
      cases h

/-- Nothing is left to do exactly when there is no next reduction. -/
theorem reduction?_eq_none_iff (s : Script) (now : Instant) (soup : InstanceSoup) :
    s.reduction? now soup = .ok none ↔ soup.hasWork = false := by
  rw [← s.program.step?_eq_none_iff now, step?_eq]
  cases s.reduction? now soup with
  | error e => simp [Except.map]
  | ok r => cases r <;> simp [Except.map]

/-- The course has come to rest after exactly so many reductions. -/
def RestsAfter (s : Script) (now : Instant) (n : Nat) (c : Course) : Prop :=
  (s.advance now n c).log.length = c.log.length + n ∧ (s.advance now n c).soup.hasWork = false

theorem restsAfter_succ {s : Script} {now : Instant} {c : Course} {r : Reduction}
    (h : s.reduction? now c.soup = .ok (some r)) (n : Nat) :
    s.RestsAfter now (n + 1) c ↔ s.RestsAfter now n (c.extend r) := by
  unfold RestsAfter
  rw [advance_of_reduction? h]
  rw [Course.log_extend, List.length_append, List.length_singleton, Nat.add_assoc, Nat.add_comm 1 n]

/-- A course with a next reduction has not come to rest. -/
theorem not_restsAfter_zero {s : Script} {now : Instant} {c : Course} {r : Reduction}
    (h : s.reduction? now c.soup = .ok (some r)) : ¬ s.RestsAfter now 0 c := by
  rintro ⟨-, hw⟩
  have hn := (s.reduction?_eq_none_iff now c.soup).2 hw
  rw [h] at hn
  cases hn

/-- A course without a next reduction rests now or never. -/
theorem restsAfter_of_stuck {s : Script} {now : Instant} {c : Course}
    (h : ∀ r, s.reduction? now c.soup ≠ .ok (some r)) (n : Nat) :
    s.RestsAfter now n c ↔ n = 0 ∧ s.reduction? now c.soup = .ok none := by
  unfold RestsAfter
  rw [advance_of_stuck h, reduction?_eq_none_iff]
  constructor
  · rintro ⟨hn, hw⟩
    exact ⟨by omega, hw⟩
  · rintro ⟨rfl, hw⟩
    exact ⟨rfl, hw⟩

section Reduce

variable {s : Script} {now : Instant} {limit more done : Nat} {c : Course} {r : Reduction}
  {o : Outcome Shared Task Receiver Message}

/-- The last reduction that is allowed. -/
theorem reduce_zero (h : s.reduction? now c.soup = .ok (some r)) :
    s.program.reduce now limit 0 done c.soup =
      if r.after.hasWork then .error (.limitExceeded limit) else .ok ⟨r.after, done + 1⟩ := by
  unfold Program.reduce
  rw [step?_eq, h]
  rfl

/-- A reduction after which more are allowed. -/
theorem reduce_succ (h : s.reduction? now c.soup = .ok (some r)) :
    s.program.reduce now limit (more + 1) done c.soup =
      s.program.reduce now limit more (done + 1) r.after := by
  rw [Program.reduce, step?_eq, h]
  rfl

theorem reduce_of_none (h : s.reduction? now c.soup = .ok none) :
    s.program.reduce now limit more done c.soup = .ok ⟨c.soup, done⟩ := by
  unfold Program.reduce
  rw [step?_eq, h]
  rfl

theorem reduce_of_error {e : RunError} (h : s.reduction? now c.soup = .error e) :
    s.program.reduce now limit more done c.soup = .error (.process e) := by
  unfold Program.reduce
  rw [step?_eq, h]
  rfl

/-- Where a course comes to rest, told from after its next reduction. -/
theorem exists_restsAfter_iff (h : s.reduction? now c.soup = .ok (some r)) :
    (∃ n ≤ more + 1, s.RestsAfter now n c ∧ o = ⟨(s.advance now n c).soup, done + n⟩) ↔
      ∃ n ≤ more, s.RestsAfter now n (c.extend r) ∧
        o = ⟨(s.advance now n (c.extend r)).soup, done + 1 + n⟩ := by
  constructor
  · rintro ⟨n, hn, hrest, rfl⟩
    cases n with
    | zero => exact absurd hrest (not_restsAfter_zero h)
    | succ n =>
      refine ⟨n, Nat.le_of_succ_le_succ hn, (restsAfter_succ h n).1 hrest, ?_⟩
      rw [advance_of_reduction? h, Nat.add_assoc, Nat.add_comm 1 n]
  · rintro ⟨n, hn, hrest, rfl⟩
    refine ⟨n + 1, Nat.succ_le_succ hn, (restsAfter_succ h n).2 hrest, ?_⟩
    rw [advance_of_reduction? h, Nat.add_assoc, Nat.add_comm 1 n]

end Reduce

/-- Reductions within a limit are a course that comes to rest after as many as were counted. -/
theorem reduce_eq_ok_iff {s : Script} {now : Instant} {limit more done : Nat} {c : Course}
    {o : Outcome Shared Task Receiver Message} :
    s.program.reduce now limit more done c.soup = .ok o ↔
      ∃ n ≤ more + 1, s.RestsAfter now n c ∧ o = ⟨(s.advance now n c).soup, done + n⟩ := by
  by_cases h : ∃ r, s.reduction? now c.soup = .ok (some r)
  · obtain ⟨r, hr⟩ := h
    rw [exists_restsAfter_iff hr]
    -- the limit is checked after a reduction, and only work that is still open exceeds it
    cases more with
    | zero =>
      rw [reduce_zero hr]
      constructor
      · intro ho
        split at ho
        · cases ho
        · next hw =>
          cases ho
          exact ⟨0, Nat.le_refl 0, ⟨rfl, Bool.eq_false_iff.2 hw⟩, rfl⟩
      · rintro ⟨n, hn, hrest, rfl⟩
        obtain rfl := Nat.le_zero.1 hn
        have hw : r.after.hasWork = false := hrest.2
        rw [hw]
        rfl
    | succ more =>
      rw [reduce_succ hr]
      exact reduce_eq_ok_iff (c := c.extend r)
  · -- the course rests now, or its next reduction fails
    have hstuck := not_exists.1 h
    simp only [restsAfter_of_stuck hstuck, advance_of_stuck hstuck]
    cases hr : s.reduction? now c.soup with
    | error e => simp [reduce_of_error hr]
    | ok r =>
      cases r with
      | some r => exact absurd hr (hstuck r)
      | none =>
        rw [reduce_of_none hr]
        constructor
        · intro ho
          cases ho
          exact ⟨0, Nat.zero_le _, ⟨rfl, rfl⟩, rfl⟩
        · rintro ⟨n, -, ⟨rfl, -⟩, rfl⟩
          rfl

/-- An execution succeeds exactly when the course comes to rest within the limit.  A limit of zero
allows one reduction, like a limit of one. -/
theorem execute_eq_ok_iff {s : Script} {now : Instant} {limit : Nat} {c : Course}
    {o : Outcome Shared Task Receiver Message} :
    s.program.execute now limit c.soup = .ok o ↔
      o.reductions ≤ limit - 1 + 1 ∧ s.RestsAfter now o.reductions c ∧
        o.soup = (s.advance now o.reductions c).soup := by
  unfold Program.execute
  rw [reduce_eq_ok_iff]
  constructor
  · rintro ⟨n, hn, hrest, rfl⟩
    rw [Nat.zero_add]
    exact ⟨hn, hrest, rfl⟩
  · rintro ⟨hn, hrest, ho⟩
    refine ⟨o.reductions, hn, hrest, ?_⟩
    rw [Nat.zero_add, ← ho]

/-- An execution with a limit that is just high enough. -/
theorem execute_of_restsAfter {s : Script} {now : Instant} {n : Nat} {c : Course}
    (hrest : s.RestsAfter now n c) :
    s.program.execute now n c.soup = .ok ⟨(s.advance now n c).soup, n⟩ :=
  execute_eq_ok_iff.2 ⟨by show n ≤ n - 1 + 1; omega, hrest, rfl⟩

/-- A round that comes to rest after so many reductions makes a well-driven course. -/
theorem WellDriven.round_of_restsAfter {s : Script} {c : Course} (h : s.WellDriven c)
    {ms : List (Channel × Message)} (hms : ∀ e ∈ ms, c.Admits e.1 e.2) {now : Instant} {n : Nat}
    (hrest : s.RestsAfter now n (c.inject ms)) :
    s.WellDriven (s.advance now n (c.inject ms)) :=
  .round h hms (execute_of_restsAfter hrest)

end Script

end Perdure
