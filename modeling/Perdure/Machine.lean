import Perdure.Soup

/-!
# Reduction

A program says what a process does when it runs and what a handler does with a message.  Reducing
an instance runs ready processes first, then lets a choice take a message, until nothing is left
to do or the limit on reductions is met.

## Main definitions

* `Turn` — what a process or handler does to the soup, or its failure.
* `Program` — the meaning of processes and handlers.
* `Program.step?` — one reduction.
* `Program.execute` — reductions until nothing is left to do.
* `Program.Trail`, `Program.executeBy` — the same under a clock that may move on, telling what is
  left however it ends.

## Main results

* `Program.step?_eq_none_iff` — reduction stops exactly when no work is left.
-/

namespace Perdure

/-- What a process or handler does to the soup, unless it fails. -/
abbrev Turn (γ π η μ ε : Type) := StateT (Soup γ π η μ) (Except ε)

namespace Turn

variable {γ π η μ ε : Type}

/-- Change the soup. -/
def update (f : Soup γ π η μ → Soup γ π η μ) : Turn γ π η μ ε Unit := fun s => .ok ((), f s)

/-- Hand out a new channel. -/
def newChannel : Turn γ π η μ ε Channel := fun s => .ok s.newChannel

/-- Hand out a new number. -/
def genMonotonic : Turn γ π η μ ε Nat := fun s => .ok s.genMonotonic

/-- Add a process that is ready to run. -/
def spawn (p : π) : Turn γ π η μ ε Unit := update (·.spawn p)

/-- Wait on the channels of a choice. -/
def listen (arms : List (Arm η)) : Turn γ π η μ ε Unit := update (·.object ⟨arms⟩)

/-- Send a message. -/
def send (c : Channel) (m : μ) : Turn γ π η μ ε Unit := update (·.send c m)

/-- Send one message to several channels in turn. -/
def sendAll (cs : List Channel) (m : μ) : Turn γ π η μ ε Unit :=
  update fun s => cs.foldl (fun s c => s.send c m) s

/-- Close a channel. -/
def close (c : Channel) : Turn γ π η μ ε Unit := update (·.close c)

/-- Arm a timer. -/
def registerTimer (c : Channel) (deadline : Instant) : Turn γ π η μ ε Unit :=
  update (·.registerTimer c deadline)

/-- Disarm a timer, if it is armed. -/
def cancelTimer (c : Channel) : Turn γ π η μ ε Unit := update (·.cancelTimer c)

/-- Give up. -/
def fail {α : Type} (e : ε) : Turn γ π η μ ε α := fun _ => .error e

/-- Go on with a value, unless there is none. -/
def ofExcept {α : Type} (r : Except ε α) : Turn γ π η μ ε α := fun s => r.map (·, s)

end Turn

/-- The meaning of processes and handlers at an instant. -/
structure Program (γ π η μ ε : Type) where
  run : Instant → π → Turn γ π η μ ε Unit
  receive : Instant → η → Channel → μ → Turn γ π η μ ε Unit

/-- Why reduction stopped before its end. -/
inductive ReductionError (ε : Type) where
  /-- A process or handler failed. -/
  | process (e : ε)
  /-- As many reductions as allowed, and work is left. -/
  | limitExceeded (limit : Nat)
deriving DecidableEq, Repr

/-- The wording of an error. -/
def ReductionError.message {ε : Type} (describe : ε → String) : ReductionError ε → String
  | .process e => s!"process error: {describe e}"
  | .limitExceeded limit => s!"reduction limit of {limit} exceeded"

/-- How an instance rests when nothing is left to do. -/
inductive Rest where
  /-- Choices wait for messages. -/
  | suspended
  /-- Nobody waits for anything. -/
  | terminated
deriving DecidableEq, Repr

/-- The limit on reductions unless another is given. -/
def defaultLimit : Nat := 10000

/-- What a run came to. -/
structure Outcome (γ π η μ : Type) where
  soup : Soup γ π η μ
  reductions : Nat
deriving DecidableEq, Repr

namespace Outcome

variable {γ π η μ : Type}

/-- How the instance rests. -/
def rest (o : Outcome γ π η μ) : Rest :=
  if o.soup.choices.isEmpty then .terminated else .suspended

end Outcome

namespace Program

variable {γ π η μ ε : Type}

/-- The soup after one reduction; `none` if there is nothing to reduce. -/
def step? (p : Program γ π η μ ε) (now : Instant) (s : Soup γ π η μ) :
    Except ε (Option (Soup γ π η μ)) :=
  match s.takeRunnable? with
  | some (process, s) => ((p.run now process).run s).map fun r => some r.2
  | none => match s.takeMatch? with
    | some (arm, m, s) => ((p.receive now arm.handler arm.channel m).run s).map fun r => some r.2
    | none => .ok none

/-- Reductions until nothing is left to do: one, and `more` after it at most. -/
def reduce (p : Program γ π η μ ε) (now : Instant) (limit : Nat) :
    (more : Nat) → (done : Nat) → Soup γ π η μ → Except (ReductionError ε) (Outcome γ π η μ)
  | more, done, s => match p.step? now s with
    | .error e => .error (.process e)
    | .ok none => .ok ⟨s, done⟩
    | .ok (some s) => match more with
      | 0 => if s.hasWork then .error (.limitExceeded limit) else .ok ⟨s, done + 1⟩
      | more + 1 => reduce p now limit more (done + 1) s

/-- Reduce until nothing is left to do, or the limit is met with work left. -/
def execute (p : Program γ π η μ ε) (now : Instant) (limit : Nat) (s : Soup γ π η μ) :
    Except (ReductionError ε) (Outcome γ π η μ) :=
  p.reduce now limit (limit - 1) 0 s

/-! ### Reductions under a clock -/

/-- What an execution leaves, however it ends. -/
@[ext] structure Trail (γ π η μ ε : Type) where
  /-- The soup at the end; if a reduction failed, the one before it. -/
  soup : Soup γ π η μ
  /-- The reductions that were made. -/
  reductions : Nat
  /-- Why it stopped early, if it did. -/
  failure : Option (ReductionError ε)

/-- What the execution comes to. -/
def Trail.outcome (t : Trail γ π η μ ε) : Except (ReductionError ε) (Outcome γ π η μ) :=
  match t.failure with
  | some e => .error e
  | none => .ok ⟨t.soup, t.reductions⟩

/-- Reductions until nothing is left to do, `more` of them at most after the next one, under a clock
that may move on after each. -/
def reduceBy (p : Program γ π η μ ε) (clock : Nat → Instant) (limit : Nat) :
    (more : Nat) → (done : Nat) → Soup γ π η μ → Trail γ π η μ ε
  | more, done, s => match p.step? (clock done) s with
    | .error e => ⟨s, done, some (.process e)⟩
    | .ok none => ⟨s, done, none⟩
    | .ok (some s) => match more with
      | 0 => ⟨s, done + 1, if s.hasWork then some (.limitExceeded limit) else none⟩
      | more + 1 => reduceBy p clock limit more (done + 1) s

/-- Reduce under a clock until nothing is left to do, or the limit is met with work left. -/
def executeBy (p : Program γ π η μ ε) (clock : Nat → Instant) (limit : Nat) (s : Soup γ π η μ) :
    Trail γ π η μ ε :=
  p.reduceBy clock limit (limit - 1) 0 s

/-! ### What is left to reduce -/

/-- There is nothing to reduce exactly when no work is left. -/
theorem step?_eq_none_iff (p : Program γ π η μ ε) (now : Instant) (s : Soup γ π η μ) :
    p.step? now s = .ok none ↔ s.hasWork = false := by
  rw [Soup.hasWork_eq_false_iff]
  simp only [step?]
  split
  · next h => cases hr : (p.run now _).run _ <;> simp [h, Except.map]
  · next h =>
    split
    · next h' => cases hr : (p.receive now _ _ _).run _ <;> simp [h, h', Except.map]
    · next h' => simp [h, h']

end Program

end Perdure
