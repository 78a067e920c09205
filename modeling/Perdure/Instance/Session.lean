import Perdure.Checkpoint
import Perdure.Instance.Program
import Perdure.Time.Due

/-!
# Sessions

One instance by itself, on a clock that is set by hand.  A run reduces it until nothing is left to
do and hands over the effects; a run that fails leaves the instance as it would come back from
storage.  Letting time pass makes the armed timers go off one after another.

## Main definitions

* `Session` — an instance and its clock.
* `Session.run`, `Session.step` — reduce it, to the end or once.
* `Session.elapse` — let time pass.
-/

namespace Perdure

/-- An instance and its clock. -/
structure Session where
  script : Script
  /-- The limit on the reductions of one run. -/
  limit : Nat := defaultLimit
  now : Instant
  soup : InstanceSoup

/-- What a run came to. -/
structure RunReport where
  reductions : Nat
  rest : Rest
  effects : List Effect
deriving DecidableEq, Repr

/-- The report of a run, or why it failed. -/
abbrev RunResult := Except (ReductionError RunError) RunReport

/-- A timer that went off. -/
structure Firing where
  /-- The time on the clock. -/
  time : Instant
  channel : Channel
  result : RunResult

namespace Session

/-- The soup as it would come back from storage. -/
def stored (s : Session) : InstanceSoup :=
  (Checkpoint.read ∅ (Checkpoint.write s.soup)).toOption.getD s.soup

/-- Hand over the effects. -/
def drain (s : Session) : List Effect × Session :=
  let (effects, soup) := s.soup.drainEffects
  (effects, { s with soup })

/-- Reduce until nothing is left to do. -/
def run (s : Session) : RunResult × Session :=
  match s.script.program.execute s.now s.limit s.soup with
  | .error e => (.error e, { s with soup := s.stored })
  | .ok outcome =>
    let (effects, s) := drain { s with soup := outcome.soup }
    (.ok ⟨outcome.reductions, outcome.rest, effects⟩, s)

/-- Reduce once; was there anything to reduce? -/
def step (s : Session) : Except (ReductionError RunError) (Bool × List Effect) × Session :=
  match s.script.program.step? s.now s.soup with
  | .error e => (.error (.process e), { s with soup := s.stored })
  | .ok soup? =>
    let (effects, s) := drain { s with soup := soup?.getD s.soup }
    (.ok (soup?.isSome, effects), s)

/-- A timer goes off: the clock moves on to its deadline, and the instance runs. -/
def fire (s : Session) (channel : Channel) (deadline : Instant) : Firing × Session :=
  let now := s.now.latest deadline
  let (result, s) := run { s with now, soup := s.soup.send channel .timeout }
  (⟨now, channel, result⟩, s)

/-- Let time pass up to an instant, with so many firings at most.  The clock stands still when
there would be more, or when a run fails; the answer tells whether it did. -/
def elapse (upTo : Instant) : (most : Nat) → Session → (List Firing × Bool) × Session
  | most, s => match s.soup.timers.due? upTo, most with
    | none, _ => (([], false), { s with now := upTo })
    | some _, 0 => (([], true), s)
    | some (channel, deadline), most + 1 =>
      let (firing, s) := s.fire channel deadline
      match firing.result with
      | .error _ => (([firing], true), s)
      | .ok _ =>
        let ((firings, stopped), s) := elapse upTo most s
        ((firing :: firings, stopped), s)

end Session

end Perdure
