import Perdure.Proofs.Instance.Timers
import Perdure.Proofs.Instance.Undoing

/-!
# Names

A channel or a number is a name.  Names are taken from two counters, and are passed on: a part names
what its predecessor named, what the message it took named, and what is new.  So every name that
stands anywhere in a soup lies below its counter.

## Main definitions

* `Name` — a channel or a number.
* `Part.names`, `Message.names`, … — the names in a part, in a message and in what they hold.
* `Soup.names` — the names anywhere in a soup.
* `Name.Below`, `Name.New` — a name that was handed out, and one that is handed out next.

## Main results

* `Yields.names_heir`, `Yields.names_kid`, `Yields.names_sent` — where the names in products come
  from.
-/

namespace Perdure

/-! ### Names -/

/-- A channel or a number. -/
inductive Name where
  | channel (c : Channel)
  | number (i : Nat)
deriving DecidableEq, Repr

/-- The name was handed out. -/
def Name.Below (s : InstanceSoup) : Name → Prop
  | .channel c => c < (s.nextChannel : Nat)
  | .number i => i < s.nextMonotonic

/-- The name is among those that a reaction takes, when the next channel is `n` and the next number
is `k`. -/
def Name.New (n k : Nat) (p : Products) : Name → Prop
  | .channel c => n ≤ (c : Nat) ∧ (c : Nat) < n + p.channels
  | .number i => k ≤ i ∧ i < k + p.numbers

/-! ### Names in the data of an instance -/

/-- The runs of scopes in a set of compensations. -/
def Compensations.names (cs : Compensations) : List Name := cs.keys.map (.number ·.scopeInstance)

/-- The number and the channels of a run. -/
def Run.names (r : Run) : List Name := [.number r.id, .channel r.termination, .channel r.parent]

/-- The names in a sequence under way. -/
def SequenceRun.names (q : SequenceRun) : List Name := q.run.names ++ q.compensations.names

/-- The channels of an alarm, as its scope knows it. -/
def AlarmLink.names (l : AlarmLink) : List Name :=
  [.channel l.parent, .channel l.termination, .channel l.control]

/-- The names in a scope under way. -/
def ScopeRun.names (s : ScopeRun) : List Name :=
  s.run.names ++ s.body.toList.flatMap Run.names ++ s.handlers.flatMap AlarmLink.names ++
    s.compensations.names

/-- The names in an alarm under way. -/
def AlarmRun.names (a : AlarmRun) : List Name :=
  [.number a.scopeInstance, .channel a.parent, .channel a.termination, .channel a.control] ++
    a.compensations.names

/-- The names in a task. -/
def Task.names : Task → List Name
  | .activity run => run.names
  | .sequenceStep sequence => sequence.names
  | .scopeActive scope => scope.names
  | .alarmStart alarm | .alarmWait alarm _ | .alarmFire alarm => alarm.names
  | .alarmActive alarm child _ => alarm.names ++ child.names

/-- The names in a receiver. -/
def Receiver.names : Receiver → List Name
  | .waitActivity run timer => run.names ++ [.channel timer]
  | .sequenceWaiting sequence child => sequence.names ++ child.names
  | .scopeWaiting scope => scope.names
  | .alarmWaiting alarm timer => alarm.names ++ timer.toList.map .channel
  | .alarmActive alarm child _ => alarm.names ++ child.names

/-- The names in a part. -/
def Part.names : Part → List Name
  | .ready t => t.names
  | .waiting r => r.names

/-- The names in a message. -/
def Message.names : Message → List Name
  | .completed _ cs => cs.names
  | .compensate _ reply => [.channel reply]
  | _ => []

/-- The names in what a part took. -/
def heard (taken : Option (Channel × Message)) : List Name := taken.toList.flatMap (·.2.names)

/-- The channel that an effect is about. -/
def Effect.channel : Effect → Channel
  | .registerTimer c _ | .cancelTimer c => c

/-- The names in what all parts share. -/
def Shared.names (g : Shared) : List Name :=
  g.root.toList.flatMap (fun l => [.channel l.termination, .channel l.parent]) ++
    match g.requests with
    | .list requests => requests.map (.channel ·.channel)
    | .manager m => m.entries.map (.channel ·.channel)

/-- The names anywhere in a soup. -/
def Soup.names (s : InstanceSoup) : List Name :=
  s.global.names ++ s.runnables.flatMap Task.names ++
    (s.choices.flatMap Choice.arms).flatMap (fun a => .channel a.channel :: a.handler.names) ++
    s.messages.entries.flatMap (fun e => .channel e.1 :: e.2.flatMap Message.names) ++
    s.closed.keys.map .channel ++ s.timers.keys.map .channel ++ s.outbox.map (.channel ·.channel)

/-! ### Compensations and reports -/

namespace KeySet

variable {κ : Type} [Ord κ] [Std.TransOrd κ] [Std.LawfulEqOrd κ] [DecidableEq κ]

@[simp] theorem mem_keys_add {s : KeySet κ} {k q : κ} : q ∈ (s.add k).keys ↔ q = k ∨ q ∈ s.keys := by
  simp [← contains_iff_mem_keys]

@[simp] theorem mem_keys_union {s t : KeySet κ} {q : κ} :
    q ∈ (s.union t).keys ↔ q ∈ s.keys ∨ q ∈ t.keys := by
  simp [← contains_iff_mem_keys, contains_union]

end KeySet

@[simp] theorem Compensations.names_empty : Compensations.names ∅ = [] := rfl

@[simp] theorem Compensations.mem_names_union {cs ds : Compensations} {x : Name} :
    x ∈ Compensations.names (cs.union ds) ↔ x ∈ cs.names ∨ x ∈ ds.names := by
  simp [names, or_and_right, exists_or]

@[simp] theorem Compensations.mem_names_add {cs : Compensations} {c : Compensation} {x : Name} :
    x ∈ Compensations.names (cs.add c) ↔ x = .number c.scopeInstance ∨ x ∈ cs.names := by
  simp [names, eq_comm]

/-- What is reported stands in the message. -/
theorem Message.names_of_report? {m : Message} {fault : Option Fault} {cs : Compensations}
    (hm : m.report? = some (fault, cs)) {x : Name} (hx : x ∈ cs.names) : x ∈ m.names := by
  cases m <;> cases hm <;> exact hx

/-! ### Scopes -/

namespace ScopeRun

/-- Marking an alarm as done keeps its channels. -/
theorem names_markDone {c : Channel} {links marked : List AlarmLink} {l : AlarmLink}
    (h : markDone c links = some (l, marked)) :
    marked.flatMap AlarmLink.names = links.flatMap AlarmLink.names := by
  obtain ⟨pre, post, rfl, -, rfl⟩ := markDone_eq_some h
  simp [AlarmLink.names]

/-- What a scope takes in from a report. -/
theorem mem_names_absorb {scope : ScopeRun} {fault : Option Fault} {cs : Compensations} {x : Name}
    (hx : x ∈ (scope.absorb fault cs).names) : x ∈ scope.names ∨ x ∈ cs.names := by
  simp only [names, absorb, List.mem_append, Compensations.mem_names_union] at hx ⊢
  tauto

/-- A scope whose body is done names less. -/
theorem mem_names_bodyDone {scope : ScopeRun} {x : Name}
    (hx : x ∈ ({ scope with body := none }).names) : x ∈ scope.names := by
  simp only [names, List.mem_append, Option.toList_none, List.flatMap_nil, List.not_mem_nil,
    or_false] at hx ⊢
  tauto

/-- A scope one of whose alarms is marked as done names the same. -/
theorem names_alarmDone {scope : ScopeRun} {c : Channel} {l : AlarmLink} {handlers : List AlarmLink}
    (h : markDone c scope.handlers = some (l, handlers)) :
    ({ scope with handlers }).names = scope.names := by
  rw [names, names, names_markDone h]

end ScopeRun

/-! ### New names -/

theorem Run.new_of_fresh {activity : ActivityId} {n k : Nat} {p : Products} (hn : 2 ≤ p.channels)
    (hk : 1 ≤ p.numbers) {x : Name} (hx : x ∈ (Run.fresh activity k n).names) : x.New n k p := by
  simp only [names, fresh, List.mem_cons, List.not_mem_nil, or_false] at hx
  rcases hx with rfl | rfl | rfl
  · show k ≤ k ∧ k < k + p.numbers
    omega
  · show n ≤ n ∧ n < n + p.channels
    omega
  · show n ≤ n + 1 ∧ n + 1 < n + p.channels
    omega

/-- The channels of the alarms of a scope that starts. -/
theorem AlarmLink.new_of_fresh {n k i : Nat} {p : Products} (hi : 2 + 3 * (i + 1) ≤ p.channels)
    {x : Name} (hx : x ∈ (AlarmLink.fresh (alarmChannel n i)).names) : x.New n k p := by
  simp only [names, fresh, alarmChannel, List.mem_cons, List.not_mem_nil, or_false] at hx
  rcases hx with rfl | rfl | rfl
  · show n ≤ n + 2 + 3 * i ∧ n + 2 + 3 * i < n + p.channels
    omega
  · show n ≤ n + 2 + 3 * i + 1 ∧ n + 2 + 3 * i + 1 < n + p.channels
    omega
  · show n ≤ n + 2 + 3 * i + 2 ∧ n + 2 + 3 * i + 2 < n + p.channels
    omega

/-! ### Reactions -/

namespace Yields

variable {s : Script} {now : Instant} {n k : Nat} {P : Part} {taken : Option (Channel × Message)}
  {p : Products}

/-- What is reported was heard. -/
theorem heard_of_report? {c : Channel} {m : Message} {fault : Option Fault} {cs : Compensations}
    (hm : m.report? = some (fault, cs)) {x : Name} (hx : x ∈ cs.names) :
    x ∈ heard (some (c, m)) := by
  simpa [heard] using Message.names_of_report? hm hx

/-- What goes on names what its predecessor named, what that has heard, and what is new. -/
theorem names_heir (h : Yields s now n k P taken p) {Q : Part} (hQ : p.heir = some Q) {x : Name}
    (hx : x ∈ Q.names) : x ∈ P.names ∨ x ∈ heard taken ∨ x.New n k p := by
  cases h <;> cases hQ
  -- what takes new names
  case waitArmed | alarmArmed =>
    rcases List.mem_append.1 hx with hx | hx
    · exact .inl hx
    · rw [List.mem_singleton.1 hx]
      exact .inr (.inr ⟨Nat.le_refl n, Nat.lt_succ_self n⟩)
  case scopeStarted run body alarms hp =>
    simp only [Part.names, Task.names, ScopeRun.names, ScopeRun.fresh, List.mem_append,
      Option.toList_some, List.flatMap_cons, List.flatMap_nil, List.append_nil,
      Compensations.names_empty] at hx ⊢
    rcases hx with (hx | hx) | hx
    · exact .inl hx
    · exact .inr (.inr (Run.new_of_fresh (Nat.le_add_right _ _) (Nat.le_refl _) hx))
    · obtain ⟨l, hl, hx⟩ := List.mem_flatMap.1 hx
      obtain ⟨i, hi, rfl⟩ := List.mem_map.1 hl
      have hi := List.mem_range.1 hi
      exact .inr (.inr (AlarmLink.new_of_fresh (by show _ ≤ 2 + 3 * alarms.length; omega) hx))
  case childStarted | alarmFired =>
    rcases List.mem_append.1 hx with hx | hx
    · exact .inl hx
    · exact .inr (.inr (Run.new_of_fresh (Nat.le_refl _) (Nat.le_refl _) hx))
  -- what takes in a report
  case sequenceNext hm | firingAgain hm _ _ =>
    rcases List.mem_append.1 hx with hx | hx
    · exact .inl (List.mem_append_left _ (List.mem_append_left _ hx))
    · rcases Compensations.mem_names_union.1 hx with hx | hx
      · exact .inl (List.mem_append_left _ (List.mem_append_right _ hx))
      · exact .inr (.inl (heard_of_report? hm hx))
  case bodyFaulted hm | bodyDone hm =>
    rcases ScopeRun.mem_names_absorb (ScopeRun.mem_names_bodyDone hx) with hx | hx
    · exact .inl hx
    · exact .inr (.inl (heard_of_report? hm hx))
  case alarmFaulted scope _ _ _ _ _ cs _ hl hm | alarmDone scope _ _ _ _ cs _ hl hm =>
    -- absorbing a report leaves the handlers, and so the link that was found among them
    have hl : ScopeRun.markDone _ (scope.absorb none cs).handlers = some _ := hl
    rcases ScopeRun.mem_names_absorb ((ScopeRun.names_alarmDone hl).subst hx) with hx | hx
    · exact .inl hx
    · exact .inr (.inl (heard_of_report? hm hx))
  -- what knows no more than before
  case sequenceStarted run _ _ _ _ =>
    exact .inl ((List.append_nil run.names).subst hx)
  case alarmRests alarm => exact .inl ((List.append_nil alarm.names).subst hx)
  case alarmDue => exact .inl (List.mem_append_left _ hx)
  all_goals exact .inl hx

/-- What is started names new channels, and the number of its scope. -/
theorem names_kid (h : Yields s now n k P taken p) {t : Task} (ht : t ∈ p.kids) {x : Name}
    (hx : x ∈ t.names) : x ∈ P.names ∨ x.New n k p := by
  cases h
  case scopeStarted run body alarms hp =>
    rcases List.mem_cons.1 ht with rfl | ht
    · exact .inr (Run.new_of_fresh (Nat.le_add_right _ _) (Nat.le_refl _) hx)
    · obtain ⟨alarm, halarm, rfl⟩ := List.mem_map.1 ht
      obtain ⟨i, hi, rfl⟩ := List.mem_map.1 halarm
      have hi := List.mem_range.1 hi
      rcases List.mem_cons.1 hx with rfl | hx
      · exact .inl List.mem_cons_self
      · exact .inr (AlarmLink.new_of_fresh (by show _ ≤ 2 + 3 * alarms.length; omega) hx)
  case childStarted | alarmFired =>
    rw [List.mem_singleton.1 ht] at hx
    exact .inr (Run.new_of_fresh (Nat.le_refl _) (Nat.le_refl _) hx)
  all_goals cases ht

/-- What is sent names what its sender named or has heard. -/
theorem names_sent (h : Yields s now n k P taken p) {c : Channel} {m : Message}
    (hm : (c, m) ∈ p.sent) {x : Name} (hx : x ∈ m.names) : x ∈ P.names ∨ x ∈ heard taken := by
  cases h
  case emptyDone | thrown | waitFaulted | waitPassed | waitOver =>
    cases List.mem_singleton.1 hm
    cases hx
  case sequenceDone | alarmUntimed =>
    cases List.mem_singleton.1 hm
    exact .inl (List.mem_append_right _ hx)
  case alarmOver =>
    cases List.mem_singleton.1 hm
    exact .inl (List.mem_append_left _ (List.mem_append_right _ hx))
  case sequenceFaulted hr | firingFaulted hr | firingLast hr | firingUntimed hr _ _ =>
    cases List.mem_singleton.1 hm
    rcases Compensations.mem_names_union.1 hx with hx | hx
    · exact .inl (List.mem_append_left _ (List.mem_append_right _ hx))
    · exact .inr (heard_of_report? hr hx)
  case scopeDone scope left _ hl =>
    cases List.mem_singleton.1 hm
    -- what a scope leaves behind bears its own number
    cases left with
    | none => exact .inl (List.mem_append_right _ hx)
    | some c =>
      obtain ⟨-, _, _, _, _, -, -, rfl⟩ := (Script.leftBehind_eq_some_iff hl c).1 rfl
      rcases Compensations.mem_names_add.1 hx with rfl | hx
      · exact .inl (by simp [Part.names, Task.names, ScopeRun.names, Run.names])
      · exact .inl (List.mem_append_right _ hx)
  case scopeTold | bodyFaulted | alarmFaulted =>
    obtain ⟨u, -, -, rfl⟩ := ScopeRun.mem_orders hm
    cases hx
  case bodyDone =>
    obtain ⟨u, -, -, rfl⟩ := ScopeRun.mem_softOrders hm
    cases hx
  case sequenceTold | firingTold =>
    cases List.mem_singleton.1 hm
    cases hx
  case sequenceAsked | scopeAsked | firingAsked =>
    cases List.mem_singleton.1 hm
    exact .inr hx
  all_goals cases hm

end Yields

end Perdure
