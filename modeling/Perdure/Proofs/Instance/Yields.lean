import Perdure.Proofs.Instance.Products

/-!
# What parts yield

`Yields` lists, one rule for each way a part can react, what the part produces.  The rules do not
mention the soup: only the channel and the number that come next matter to a reaction.  `Fails`
lists in the same way why a part fails; for that not even the names that come next matter.

## Main definitions

* `Run.fresh`, `AlarmRun.fresh`, `AlarmLink.fresh` — what is started with new channels.
* `Message.report?` — what a message says about an activity that is done.
* `Yields` — what a part produces.
* `Receiver.Refuses` — the messages that a receiver does not understand.
* `Fails` — why a part fails.
-/

namespace Perdure

/-! ### New names -/

/-- A run with the next number and the next two channels. -/
def Run.fresh (activity : ActivityId) (number : Nat) (channel : Channel) : Run :=
  { id := number, activity, termination := channel, parent := channel + 1 }

/-- The link to an alarm with the next three channels. -/
def AlarmLink.fresh (channel : Channel) : AlarmLink :=
  { parent := channel, termination := channel + 1, control := channel + 2 }

/-- An alarm of a scope with the next three channels. -/
def AlarmRun.fresh (run : Run) (index : Nat) (channel : Channel) : AlarmRun :=
  { alarm := ⟨run.activity, index⟩, scopeInstance := run.id
    parent := channel, termination := channel + 1, control := channel + 2 }

/-- The first channel of the alarm at an index, when the scope takes channels from `channel`. -/
def alarmChannel (channel : Channel) (index : Nat) : Channel := channel + 2 + 3 * index

/-- A scope that starts. -/
def ScopeRun.fresh (run : Run) (body : ActivityId) (alarms number : Nat) (channel : Channel) :
    ScopeRun :=
  { run, body := some (Run.fresh body number channel)
    handlers := (List.range alarms).map fun i => AlarmLink.fresh (alarmChannel channel i) }

/-- The alarms of a scope that starts. -/
def AlarmRun.freshAll (run : Run) (alarms : Nat) (channel : Channel) : List AlarmRun :=
  (List.range alarms).map fun i => AlarmRun.fresh run i (alarmChannel channel i)

/-! ### Messages -/

/-- What a message says about an activity that is done: its fault, and what it left behind. -/
def Message.report? : Message → Option (Option Fault × Compensations)
  | .completed fault compensations => some (fault, compensations)
  | .cancelled | .failure _ => some (none, ∅)
  | _ => none

/-- Only a completion reports a fault. -/
theorem Message.report?_eq_some_some {m : Message} {fault : Fault} {cs : Compensations} :
    m.report? = some (some fault, cs) ↔ m = .completed (some fault) cs := by
  cases m <;> simp [report?]

/-- A report without fault is a completion, a cancellation or a failure. -/
theorem Message.report?_eq_some_none {m : Message} {cs : Compensations} :
    m.report? = some (none, cs) ↔
      m = .completed none cs ∨ cs = ∅ ∧ (m = .cancelled ∨ ∃ reason, m = .failure reason) := by
  cases m <;> simp [report?, eq_comm]

/-- The orders that stop everything in a scope at once, unless they have been given. -/
def ScopeRun.orders (s : ScopeRun) : List (Channel × Message) :=
  if s.terminating then [] else s.awaits.map fun l => (l.termination, .terminate)

/-- The orders that let the alarms of a scope fire no more. -/
def ScopeRun.softOrders (s : ScopeRun) : List (Channel × Message) :=
  if s.terminating then [] else s.pending.map fun l => (l.control, .stop)

/-! ### What the definition says -/

theorem Script.kind_of_scopeParts {s : Script} {id : ActivityId} {parts : ActivityId × List Alarm}
    (h : s.scopeParts id = .ok parts) :
    ∃ a compensation, s.activity id = .ok a ∧ a.kind = .scope parts.1 parts.2 compensation := by
  unfold Script.scopeParts at h
  cases ha : s.activity id with
  | error e =>
    rw [ha] at h
    cases h
  | ok a =>
    simp only [ha, bind, Except.bind] at h
    split at h
    · next hk => cases h; exact ⟨a, _, rfl, hk⟩
    · cases h

theorem Script.kind_of_children {s : Script} {id : ActivityId} {children : List ActivityId}
    (h : s.children id = .ok children) :
    ∃ a, s.activity id = .ok a ∧ a.kind = .sequence children := by
  unfold Script.children at h
  cases ha : s.activity id with
  | error e =>
    rw [ha] at h
    cases h
  | ok a =>
    simp only [ha, bind, Except.bind] at h
    split at h
    · next hk => cases h; exact ⟨a, rfl, hk⟩
    · cases h

theorem Script.children_of_kind {s : Script} {id : ActivityId} {a : Activity}
    {children : List ActivityId} (ha : s.activity id = .ok a) (hk : a.kind = .sequence children) :
    s.children id = .ok children := by
  unfold Script.children
  simp only [ha, bind, Except.bind, hk]
  rfl

/-! ### The rules -/

/-- `Yields s now n k P taken p` says that the part `P`, with the message it took, produces `p`
when the next channel is `n` and the next number is `k`. -/
inductive Yields (s : Script) (now : Instant) (n k : Nat) :
    Part → Option (Channel × Message) → Products → Prop
  -- activities
  | emptyDone {run : Run} {a : Activity} (ha : s.activity run.activity = .ok a)
      (hk : a.kind = .empty) :
      Yields s now n k (.ready (.activity run)) none
        { sent := [(run.parent, .completed none ∅)] }
  | thrown {run : Run} {a : Activity} {fault : String} (ha : s.activity run.activity = .ok a)
      (hk : a.kind = .throw fault) :
      Yields s now n k (.ready (.activity run)) none
        { sent := [(run.parent, .completed (some { name := fault }) ∅)] }
  | waitFaulted {run : Run} {a : Activity} {deadline : Deadline} {fault : Fault}
      (ha : s.activity run.activity = .ok a) (hk : a.kind = .wait deadline)
      (hd : s.deadline ⟨now, run.activity⟩ deadline = .ok (.error fault)) :
      Yields s now n k (.ready (.activity run)) none
        { sent := [(run.parent, .completed (some fault) ∅)] }
  | waitPassed {run : Run} {a : Activity} {deadline : Deadline} {t : Instant}
      (ha : s.activity run.activity = .ok a) (hk : a.kind = .wait deadline)
      (hd : s.deadline ⟨now, run.activity⟩ deadline = .ok (.ok t)) (ht : t.isAtMost now = true) :
      Yields s now n k (.ready (.activity run)) none
        { sent := [(run.parent, .completed none ∅)] }
  | waitArmed {run : Run} {a : Activity} {deadline : Deadline} {t : Instant}
      (ha : s.activity run.activity = .ok a) (hk : a.kind = .wait deadline)
      (hd : s.deadline ⟨now, run.activity⟩ deadline = .ok (.ok t)) (ht : t.isAtMost now = false) :
      Yields s now n k (.ready (.activity run)) none
        { channels := 1, armed := some (n, t), heir := some (.waiting (.waitActivity run n)) }
  | sequenceStarted {run : Run} {a : Activity} {children : List ActivityId}
      (ha : s.activity run.activity = .ok a) (hk : a.kind = .sequence children) :
      Yields s now n k (.ready (.activity run)) none
        { heir := some (.ready (.sequenceStep { run, position := 0 })) }
  | scopeStarted {run : Run} {body : ActivityId} {alarms : List Alarm}
      (hp : s.scopeParts run.activity = .ok (body, alarms)) :
      Yields s now n k (.ready (.activity run)) none
        { numbers := 1, channels := 2 + 3 * alarms.length
          kids := .activity (Run.fresh body k n) ::
            (AlarmRun.freshAll run alarms.length n).map .alarmStart
          heir := some (.ready (.scopeActive (ScopeRun.fresh run body alarms.length k n))) }
  -- sequences
  | childStarted {sequence : SequenceRun} {children : List ActivityId} {next : ActivityId}
      (hc : s.children sequence.run.activity = .ok children)
      (hn : children[sequence.position]? = some next) (ht : sequence.terminated = false) :
      Yields s now n k (.ready (.sequenceStep sequence)) none
        { numbers := 1, channels := 2, kids := [.activity (Run.fresh next k n)]
          heir := some (.waiting (.sequenceWaiting sequence (Run.fresh next k n))) }
  | sequenceDone {sequence : SequenceRun} {children : List ActivityId}
      (hc : s.children sequence.run.activity = .ok children)
      (hn : children[sequence.position]? = none ∨ sequence.terminated = true) :
      Yields s now n k (.ready (.sequenceStep sequence)) none
        { sent := [(sequence.run.parent, .completed none sequence.compensations)] }
  | sequenceFaulted {sequence : SequenceRun} {child : Run} {c : Channel} {m : Message}
      {fault : Fault} {cs : Compensations} (hm : m.report? = some (some fault, cs)) :
      Yields s now n k (.waiting (.sequenceWaiting sequence child)) (some (c, m))
        { sent := [(sequence.run.parent,
            .completed (some fault) (sequence.compensations.union cs))] }
  | sequenceNext {sequence : SequenceRun} {child : Run} {c : Channel} {m : Message}
      {cs : Compensations} (hm : m.report? = some (none, cs)) :
      Yields s now n k (.waiting (.sequenceWaiting sequence child)) (some (c, m))
        { heir := some (.ready (.sequenceStep { sequence with
            position := sequence.position + 1
            compensations := sequence.compensations.union cs })) }
  | sequenceTold {sequence : SequenceRun} {child : Run} {c : Channel} :
      Yields s now n k (.waiting (.sequenceWaiting sequence child)) (some (c, .terminate))
        { sent := [(child.termination, .terminate)]
          heir := some (.waiting (.sequenceWaiting { sequence with terminated := true } child)) }
  | sequenceAsked {sequence : SequenceRun} {child : Run} {c : Channel} {scope : ActivityId}
      {reply : Channel} :
      Yields s now n k (.waiting (.sequenceWaiting sequence child))
        (some (c, .compensate scope reply))
        { sent := [(sequence.run.parent, .compensate scope reply)]
          heir := some (.waiting (.sequenceWaiting sequence child)) }
  -- waits
  | waitOver {run : Run} {timer c : Channel} {m : Message}
      (hm : m = .timeout ∨ m = .timerCancelled ∨ m = .terminate) :
      Yields s now n k (.waiting (.waitActivity run timer)) (some (c, m))
        { cancelled := some timer, closed := [timer]
          sent := [(run.parent, .completed none ∅)] }
  -- scopes
  | scopeDone {scope : ScopeRun} {left : Option Compensation} (hf : scope.isFinished = true)
      (hl : s.leftBehind scope = .ok left) :
      Yields s now n k (.ready (.scopeActive scope)) none
        { sent := [(scope.run.parent, .completed scope.fault
            (left.elim scope.compensations scope.compensations.add))] }
  | scopeWaits {scope : ScopeRun} (hf : scope.isFinished = false) :
      Yields s now n k (.ready (.scopeActive scope)) none
        { heir := some (.waiting (.scopeWaiting scope)) }
  | scopeTold {scope : ScopeRun} {c : Channel} (hc : c = scope.run.termination) :
      Yields s now n k (.waiting (.scopeWaiting scope)) (some (c, .terminate))
        { sent := scope.orders, heir := some (.ready (.scopeActive { scope with terminating := true })) }
  | bodyFaulted {scope : ScopeRun} {body : Run} {c : Channel} {m : Message} {fault : Fault}
      {cs : Compensations} (hb : scope.body = some body) (hc : body.parent = c)
      (hm : m.report? = some (some fault, cs)) :
      Yields s now n k (.waiting (.scopeWaiting scope)) (some (c, m))
        { closed := [body.termination]
          sent := ({ scope with body := none }).orders
          heir := some (.ready (.scopeActive
            { scope.absorb (some fault) cs with body := none, terminating := true })) }
  | bodyDone {scope : ScopeRun} {body : Run} {c : Channel} {m : Message} {cs : Compensations}
      (hb : scope.body = some body) (hc : body.parent = c)
      (hm : m.report? = some (none, cs)) :
      Yields s now n k (.waiting (.scopeWaiting scope)) (some (c, m))
        { closed := [body.termination]
          sent := scope.softOrders
          heir := some (.ready (.scopeActive { scope.absorb none cs with body := none })) }
  | alarmFaulted {scope : ScopeRun} {link : AlarmLink} {handlers : List AlarmLink} {c : Channel}
      {m : Message} {fault : Fault} {cs : Compensations}
      (hb : scope.body.filter (·.parent == c) = none)
      (hc : ScopeRun.markDone c scope.handlers = some (link, handlers))
      (hm : m.report? = some (some fault, cs)) :
      Yields s now n k (.waiting (.scopeWaiting scope)) (some (c, m))
        { closed := [link.termination, link.control]
          sent := ({ scope with handlers }).orders
          heir := some (.ready (.scopeActive
            { scope.absorb (some fault) cs with handlers, terminating := true })) }
  | alarmDone {scope : ScopeRun} {link : AlarmLink} {handlers : List AlarmLink} {c : Channel}
      {m : Message} {cs : Compensations}
      (hb : scope.body.filter (·.parent == c) = none)
      (hc : ScopeRun.markDone c scope.handlers = some (link, handlers))
      (hm : m.report? = some (none, cs)) :
      Yields s now n k (.waiting (.scopeWaiting scope)) (some (c, m))
        { closed := [link.termination, link.control]
          heir := some (.ready (.scopeActive { scope.absorb none cs with handlers })) }
  | scopeAsked {scope : ScopeRun} {c : Channel} {target : ActivityId} {reply : Channel} :
      Yields s now n k (.waiting (.scopeWaiting scope)) (some (c, .compensate target reply))
        { sent := [(scope.run.parent, .compensate target reply)]
          heir := some (.ready (.scopeActive scope)) }
  -- alarms
  | alarmUntimed {alarm : AlarmRun} {a : Alarm} {fault : Fault}
      (ha : s.alarm alarm.alarm = .ok a)
      (hd : s.firstDeadline ⟨now, alarm.alarm.scope⟩ a = .ok (.error fault)) :
      Yields s now n k (.ready (.alarmStart alarm)) none
        { sent := [(alarm.parent, .completed (some fault) alarm.compensations)] }
  | alarmTimed {alarm : AlarmRun} {a : Alarm} {deadline : Option Instant}
      (ha : s.alarm alarm.alarm = .ok a)
      (hd : s.firstDeadline ⟨now, alarm.alarm.scope⟩ a = .ok (.ok deadline)) :
      Yields s now n k (.ready (.alarmStart alarm)) none
        { heir := some (.ready (.alarmWait alarm deadline)) }
  | alarmRests {alarm : AlarmRun} :
      Yields s now n k (.ready (.alarmWait alarm none)) none
        { heir := some (.waiting (.alarmWaiting alarm none)) }
  | alarmPassed {alarm : AlarmRun} {t : Instant} (ht : t.isAtMost now = true) :
      Yields s now n k (.ready (.alarmWait alarm (some t))) none
        { heir := some (.ready (.alarmFire alarm)) }
  | alarmArmed {alarm : AlarmRun} {t : Instant} (ht : t.isAtMost now = false) :
      Yields s now n k (.ready (.alarmWait alarm (some t))) none
        { channels := 1, armed := some (n, t), heir := some (.waiting (.alarmWaiting alarm (some n))) }
  | alarmDue {alarm : AlarmRun} {timer : Option Channel} {c : Channel} :
      Yields s now n k (.waiting (.alarmWaiting alarm timer)) (some (c, .timeout))
        { closed := timer.toList, heir := some (.ready (.alarmFire alarm)) }
  | alarmOver {alarm : AlarmRun} {timer : Option Channel} {c : Channel} {m : Message}
      (hm : m = .stop ∨ m = .terminate ∨ m = .timerCancelled) :
      Yields s now n k (.waiting (.alarmWaiting alarm timer)) (some (c, m))
        { cancelled := timer, closed := timer.toList
          sent := [(alarm.parent, .completed none alarm.compensations)] }
  | alarmFired {alarm : AlarmRun} {a : Alarm} (ha : s.alarm alarm.alarm = .ok a) :
      Yields s now n k (.ready (.alarmFire alarm)) none
        { numbers := 1, channels := 2
          kids := [.activity (Run.fresh a.activity k n)]
          heir := some (.ready (.alarmActive alarm (Run.fresh a.activity k n) false)) }
  | firingWatched {alarm : AlarmRun} {child : Run} {stopped : Bool} :
      Yields s now n k (.ready (.alarmActive alarm child stopped)) none
        { heir := some (.waiting (.alarmActive alarm child stopped)) }
  | firingFaulted {alarm : AlarmRun} {child : Run} {stopped : Bool} {c : Channel} {m : Message}
      {fault : Fault} {cs : Compensations} (hm : m.report? = some (some fault, cs)) :
      Yields s now n k (.waiting (.alarmActive alarm child stopped)) (some (c, m))
        { sent := [(alarm.parent, .completed (some fault) (alarm.compensations.union cs))] }
  | firingLast {alarm : AlarmRun} {child : Run} {c : Channel} {m : Message}
      {cs : Compensations} (hm : m.report? = some (none, cs)) :
      Yields s now n k (.waiting (.alarmActive alarm child true)) (some (c, m))
        { sent := [(alarm.parent, .completed none (alarm.compensations.union cs))] }
  | firingUntimed {alarm : AlarmRun} {child : Run} {c : Channel} {m : Message}
      {cs : Compensations} {a : Alarm} {fault : Fault} (hm : m.report? = some (none, cs))
      (ha : s.alarm alarm.alarm = .ok a)
      (hd : s.nextDeadline ⟨now, alarm.alarm.scope⟩ a = .ok (.error fault)) :
      Yields s now n k (.waiting (.alarmActive alarm child false)) (some (c, m))
        { sent := [(alarm.parent, .completed (some fault) (alarm.compensations.union cs))] }
  | firingAgain {alarm : AlarmRun} {child : Run} {c : Channel} {m : Message}
      {cs : Compensations} {a : Alarm} {deadline : Option Instant}
      (hm : m.report? = some (none, cs)) (ha : s.alarm alarm.alarm = .ok a)
      (hd : s.nextDeadline ⟨now, alarm.alarm.scope⟩ a = .ok (.ok deadline)) :
      Yields s now n k (.waiting (.alarmActive alarm child false)) (some (c, m))
        { heir := some (.ready
            (.alarmWait { alarm with compensations := alarm.compensations.union cs } deadline)) }
  | firingTold {alarm : AlarmRun} {child : Run} {stopped : Bool} {c : Channel} :
      Yields s now n k (.waiting (.alarmActive alarm child stopped)) (some (c, .terminate))
        { sent := [(child.termination, .terminate)]
          heir := some (.ready (.alarmActive alarm child true)) }
  | firingStopped {alarm : AlarmRun} {child : Run} {stopped : Bool} {c : Channel} :
      Yields s now n k (.waiting (.alarmActive alarm child stopped)) (some (c, .stop))
        { heir := some (.ready (.alarmActive alarm child true)) }
  | firingAsked {alarm : AlarmRun} {child : Run} {stopped : Bool} {c : Channel}
      {scope : ActivityId} {reply : Channel} :
      Yields s now n k (.waiting (.alarmActive alarm child stopped))
        (some (c, .compensate scope reply))
        { sent := [(alarm.parent, .compensate scope reply)]
          heir := some (.ready (.alarmActive alarm child stopped)) }

/-- What a part starts is an activity with a fresh run, or a fresh alarm. -/
theorem Yields.kid_cases {s : Script} {now : Instant} {n k : Nat} {P : Part}
    {taken : Option (Channel × Message)} {p : Products} (h : Yields s now n k P taken p) {t : Task}
    (ht : t ∈ p.kids) :
    (∃ activity number channel, t = .activity (Run.fresh activity number channel)) ∨
      ∃ run index channel, t = .alarmStart (AlarmRun.fresh run index channel) := by
  cases h
  case scopeStarted =>
    rcases List.mem_cons.1 ht with rfl | ht
    · exact .inl ⟨_, _, _, rfl⟩
    · obtain ⟨alarm, halarm, rfl⟩ := List.mem_map.1 ht
      obtain ⟨i, -, rfl⟩ := List.mem_map.1 halarm
      exact .inr ⟨_, i, _, rfl⟩
  case childStarted | alarmFired => exact .inl ⟨_, _, _, List.mem_singleton.1 ht⟩
  all_goals cases ht

/-! ### The rules of failure -/

/-- What a receiver calls itself when it refuses a message. -/
def Receiver.state : Receiver → String
  | .waitActivity .. => "wait"
  | .sequenceWaiting .. => "sequence"
  | .scopeWaiting _ => "scope"
  | .alarmWaiting .. => "alarm-wait"
  | .alarmActive .. => "alarm-active"

/-- The messages that a receiver does not understand.  A scope understands a report only from a part
of its own, and the order to stop only on its own channel for it. -/
inductive Receiver.Refuses : Receiver → Channel → Message → Prop
  | wait {run : Run} {timer c : Channel} {m : Message} (ht : m ≠ .timeout)
      (hc : m ≠ .timerCancelled) (ho : m ≠ .terminate) : Refuses (.waitActivity run timer) c m
  | sequence {sequence : SequenceRun} {child : Run} {c : Channel} {m : Message}
      (hm : m = .stop ∨ m = .timeout ∨ m = .timerCancelled) :
      Refuses (.sequenceWaiting sequence child) c m
  | scope {scope : ScopeRun} {c : Channel} {m : Message}
      (hm : m = .stop ∨ m = .timeout ∨ m = .timerCancelled) : Refuses (.scopeWaiting scope) c m
  | astray {scope : ScopeRun} {c : Channel} (hc : c ≠ scope.run.termination) :
      Refuses (.scopeWaiting scope) c .terminate
  | stranger {scope : ScopeRun} {c : Channel} {m : Message} (hm : m.report?.isSome)
      (hb : scope.body.filter (·.parent == c) = none)
      (hl : ScopeRun.markDone c scope.handlers = none) : Refuses (.scopeWaiting scope) c m
  | alarmWaiting {alarm : AlarmRun} {timer : Option Channel} {c : Channel} {m : Message}
      (hm : m.report?.isSome ∨ ∃ scope reply, m = .compensate scope reply) :
      Refuses (.alarmWaiting alarm timer) c m
  | alarmActive {alarm : AlarmRun} {child : Run} {stopped : Bool} {c : Channel} {m : Message}
      (hm : m = .timeout ∨ m = .timerCancelled) : Refuses (.alarmActive alarm child stopped) c m

/-- `Fails s now P taken e` says that the part `P`, with the message it took, fails for the reason
`e`: what it refers to is missing, a deadline has no value, or it does not understand the message. -/
inductive Fails (s : Script) (now : Instant) : Part → Option (Channel × Message) → RunError → Prop
  | activityMissing {run : Run} {e : RunError} (ha : s.activity run.activity = .error e) :
      Fails s now (.ready (.activity run)) none e
  | waitInvalid {run : Run} {a : Activity} {deadline : Deadline} {e : RunError}
      (ha : s.activity run.activity = .ok a) (hk : a.kind = .wait deadline)
      (hd : s.deadline ⟨now, run.activity⟩ deadline = .error e) :
      Fails s now (.ready (.activity run)) none e
  | childrenMissing {sequence : SequenceRun} {e : RunError}
      (hc : s.children sequence.run.activity = .error e) :
      Fails s now (.ready (.sequenceStep sequence)) none e
  | scopeMissing {scope : ScopeRun} {e : RunError} (hf : scope.isFinished = true)
      (hl : s.leftBehind scope = .error e) : Fails s now (.ready (.scopeActive scope)) none e
  | alarmMissing {alarm : AlarmRun} {e : RunError} (ha : s.alarm alarm.alarm = .error e) :
      Fails s now (.ready (.alarmStart alarm)) none e
  | alarmInvalid {alarm : AlarmRun} {a : Alarm} {e : RunError} (ha : s.alarm alarm.alarm = .ok a)
      (hd : s.firstDeadline ⟨now, alarm.alarm.scope⟩ a = .error e) :
      Fails s now (.ready (.alarmStart alarm)) none e
  | firedMissing {alarm : AlarmRun} {e : RunError} (ha : s.alarm alarm.alarm = .error e) :
      Fails s now (.ready (.alarmFire alarm)) none e
  | firingMissing {alarm : AlarmRun} {child : Run} {c : Channel} {m : Message}
      {cs : Compensations} {e : RunError} (hm : m.report? = some (none, cs))
      (ha : s.alarm alarm.alarm = .error e) :
      Fails s now (.waiting (.alarmActive alarm child false)) (some (c, m)) e
  | firingInvalid {alarm : AlarmRun} {child : Run} {c : Channel} {m : Message}
      {cs : Compensations} {a : Alarm} {e : RunError} (hm : m.report? = some (none, cs))
      (ha : s.alarm alarm.alarm = .ok a)
      (hd : s.nextDeadline ⟨now, alarm.alarm.scope⟩ a = .error e) :
      Fails s now (.waiting (.alarmActive alarm child false)) (some (c, m)) e
  | refused {q : Receiver} {c : Channel} {m : Message} (hr : q.Refuses c m) :
      Fails s now (.waiting q) (some (c, m)) (.unexpectedMessage q.state c m.shape)

end Perdure
