import Perdure.Engine.Host
import Perdure.Proofs.Store.Basic

/-!
# Work on a host

Work is done one piece after another, until a piece ends early.  Work that is confined to an
instance says nothing to the outside about any other one, and leaves the records of all others as
they are, also when it ends early or the store fails.

## Main definitions

* `Action.subject` — the instance that an action is about.
* `Host.Within` — from one host to the next, one instance alone was worked on.
* `Access.Confined` — work on one instance alone.

## Main results

* `Access.perform_bind` — the host goes from piece to piece.
* `Access.record_cases`, `Access.state_cases`, `Access.active_cases`, `Access.change_cases` — what a
  call of the store comes to, whether the store works or not.
* `Access.Confined.bind` — pieces of work on one instance alone are work on it alone.
-/

namespace Perdure

/-- The instance that an action is about. -/
def Action.subject : Action → InstanceId
  | .change c => c.target
  | .registerTimer id .. => id
  | .cancelTimer id _ => id

/-! ### From host to host -/

/-- What becomes of a host when one instance alone is worked on. -/
structure Host.Within (id : InstanceId) (h h' : Host) : Prop where
  failing : h'.failing = h.failing
  others : ∀ other, other ≠ id → h'.store.get? other = h.store.get? other
  journal : ∃ acts, h'.journal = h.journal ++ acts ∧ ∀ a ∈ acts, a.subject = id

namespace Host.Within

variable {id : InstanceId} {h h' h'' : Host}

theorem refl (id : InstanceId) (h : Host) : h.Within id h where
  failing := rfl
  others _ _ := rfl
  journal := ⟨[], (List.append_nil _).symm, nofun⟩

theorem trans (hw : h.Within id h') (hw' : h'.Within id h'') : h.Within id h'' where
  failing := hw'.failing.trans hw.failing
  others := by
    intro other hne
    rw [hw'.others other hne, hw.others other hne]
  journal := by
    obtain ⟨acts, he, hacts⟩ := hw.journal
    obtain ⟨acts', he', hacts'⟩ := hw'.journal
    refine ⟨acts ++ acts', by rw [he', he, List.append_assoc], ?_⟩
    intro a ha
    rcases List.mem_append.1 ha with ha | ha
    · exact hacts a ha
    · exact hacts' a ha

end Host.Within

namespace Access

variable {ε ε' α β : Type} {h : Host}

/-! ### Pieces of work -/

@[simp] theorem perform_pure (a : α) : (pure a : Access ε α).perform h = (.ok a, h) := rfl

@[simp] theorem perform_throw (e : ε) : (throw e : Access ε α).perform h = (.error e, h) := rfl

@[simp] theorem perform_ofExcept (r : Except ε α) : (ofExcept r).perform h = (r, h) := rfl

@[simp] theorem perform_timer (a : Action) :
    (timer a : Access ε Unit).perform h = (.ok (), { h with journal := h.journal ++ [a] }) := rfl

/-- Work goes on from the host that the work before it left, unless that ended early. -/
theorem perform_bind (work : Access ε α) (next : α → Access ε β) :
    (work >>= next).perform h = match work.perform h with
      | (.ok a, h') => (next a).perform h'
      | (.error e, h') => (.error e, h') := by
  simp only [perform, bind, ExceptT.bind, ExceptT.mk, StateT.bind]
  rcases work h with ⟨_ | _, _⟩ <;> rfl

/-- Renaming the reasons of an early end changes nothing else. -/
@[simp] theorem perform_relabel (f : ε → ε') (work : Access ε α) :
    (work.relabel f).perform h = ((work.perform h).1.mapError f, (work.perform h).2) := rfl

/-- Work that succeeds has no reason to rename. -/
theorem perform_relabel_of_ok {work : Access ε α} {a : α} {h' : Host}
    (hw : work.perform h = (.ok a, h')) (f : ε → ε') :
    (work.relabel f).perform h = (.ok a, h') := by
  rw [perform_relabel, hw]
  rfl

/-- Asking for several timers in turn writes them all down. -/
theorem perform_forM_timer (g : β → Action) (l : List β) :
    (l.forM fun b => timer (g b) : Access ε Unit).perform h =
      (.ok (), { h with journal := h.journal ++ l.map g }) := by
  induction l generalizing h with
  | nil => simp
  | cons b rest ih =>
    show (timer (g b) >>= fun _ => rest.forM fun b => timer (g b)).perform h = _
    rw [perform_bind, perform_timer]
    simp only [ih, List.map_cons, List.append_assoc, List.singleton_append]

/-! ### Calls of a store that works -/

/-- Calls of a kind that does not fail are made. -/
theorem perform_calling {kind : CallKind} (hk : kind ∉ h.failing) (call : Access StoreError α) :
    (calling kind call).perform h = call.perform h :=
  if_neg (by rwa [List.contains_iff_mem])

/-- Calls of a kind that fails change nothing. -/
theorem perform_calling_of_failing {kind : CallKind} (hk : kind ∈ h.failing)
    (call : Access StoreError α) : (calling kind call).perform h = (.error .unavailable, h) :=
  if_pos (by rwa [List.contains_iff_mem])

/-- A store that works is asked for a record. -/
theorem perform_record (hf : h.failing = []) (id : InstanceId) :
    (record id).perform h = (h.store.record id, h) :=
  perform_calling (by rw [hf]; exact List.not_mem_nil) _

/-- A store that is asked for a state looks at the record. -/
theorem perform_state (hk : CallKind.state ∉ h.failing) (id : InstanceId) :
    (state id).perform h = ((h.store.record id).map (·.state), h) :=
  perform_calling hk _

/-- The state of an instance that is there is found. -/
theorem perform_state_of_get? (hk : CallKind.state ∉ h.failing) {id : InstanceId} {r : Record}
    (hr : h.store.get? id = some r) : (state id).perform h = (.ok r.state, h) := by
  rw [perform_state hk, Store.record_of_get? hr]
  rfl

/-- A store that lists active instances lists them as they are. -/
theorem perform_active (hk : CallKind.active ∉ h.failing) (processId : String) :
    (active processId).perform h = (.ok (h.store.active processId), h) :=
  perform_calling hk _

/-- A store that takes changes makes a change or refuses it. -/
theorem perform_change {c : Change} (hk : c.kind ∉ h.failing) :
    (change c).perform h = match c.apply h.store with
      | .ok store => (.ok (), { h with store, journal := h.journal ++ [.change c] })
      | .error e => (.error e, h) :=
  perform_calling hk _

/-! ### Calls of any store -/

/-- A call is made, or fails and changes nothing. -/
theorem calling_cases (kind : CallKind) (call : Access StoreError α) (h : Host) :
    (calling kind call).perform h = (.error .unavailable, h) ∨
      (calling kind call).perform h = call.perform h := by
  by_cases hk : kind ∈ h.failing
  · exact .inl (perform_calling_of_failing hk call)
  · exact .inr (perform_calling hk call)

/-- A record is there and found, or the call is refused. -/
theorem record_cases (id : InstanceId) (h : Host) :
    (∃ refusal, (record id).perform h = (.error refusal, h)) ∨
      ∃ r, h.store.get? id = some r ∧ (record id).perform h = (.ok r, h) := by
  rcases calling_cases .record (fun h => (h.store.record id, h)) h with hfailed | hmade
  · exact .inl ⟨_, hfailed⟩
  · cases hr : h.store.get? id with
    | none => exact .inl ⟨_, hmade.trans (congrArg (·, h) (Store.record_of_missing hr))⟩
    | some r => exact .inr ⟨r, rfl, hmade.trans (congrArg (·, h) (Store.record_of_get? hr))⟩

/-- A record is there and its state found, or the call is refused. -/
theorem state_cases (id : InstanceId) (h : Host) :
    (∃ refusal, (state id).perform h = (.error refusal, h)) ∨
      ∃ r, h.store.get? id = some r ∧ (state id).perform h = (.ok r.state, h) := by
  by_cases hk : CallKind.state ∈ h.failing
  · exact .inl ⟨_, perform_calling_of_failing hk _⟩
  · cases hr : h.store.get? id with
    | none =>
      refine .inl ⟨.notFound id, ?_⟩
      rw [perform_state hk, Store.record_of_missing hr]
      rfl
    | some r => exact .inr ⟨r, rfl, perform_state_of_get? hk hr⟩

/-- The active instances of a process are listed, or the call is refused. -/
theorem active_cases (processId : String) (h : Host) :
    (∃ refusal, (active processId).perform h = (.error refusal, h)) ∨
      (active processId).perform h = (.ok (h.store.active processId), h) :=
  (calling_cases _ _ h).imp_left fun hfailed => ⟨_, hfailed⟩

/-- A change is made, or refused and nothing is done. -/
theorem change_cases (c : Change) (h : Host) :
    (∃ refusal, (change c).perform h = (.error refusal, h)) ∨
      ∃ store, c.apply h.store = .ok store ∧
        (change c).perform h = (.ok (), { h with store, journal := h.journal ++ [.change c] }) := by
  by_cases hk : c.kind ∈ h.failing
  · exact .inl ⟨_, perform_calling_of_failing hk _⟩
  · rw [perform_change hk]
    cases c.apply h.store with
    | ok store => exact .inr ⟨store, rfl, rfl⟩
    | error refusal => exact .inl ⟨refusal, rfl⟩

/-! ### Work on one instance alone -/

/-- Work on one instance alone, whatever host it is done on. -/
def Confined (id : InstanceId) (work : Access ε α) : Prop :=
  ∀ h : Host, h.Within id (work.perform h).2

namespace Confined

variable {id : InstanceId} {work : Access ε α}

theorem pure (id : InstanceId) (a : α) : Confined id (Pure.pure a : Access ε α) :=
  fun h => .refl id h

theorem throw (id : InstanceId) (e : ε) : Confined id (MonadExcept.throw e : Access ε α) :=
  fun h => .refl id h

theorem ofExcept (id : InstanceId) (r : Except ε α) : Confined id (Access.ofExcept r) :=
  fun h => .refl id h

theorem timer {a : Action} (ha : a.subject = id) : Confined id (Access.timer a : Access ε Unit) := by
  intro h
  refine { failing := rfl, others := fun _ _ => rfl, journal := ⟨[a], rfl, ?_⟩ }
  intro b hb
  rw [List.mem_singleton.1 hb, ha]

/-- Pieces of work on one instance alone are work on it alone. -/
theorem bind {next : α → Access ε β} (hw : Confined id work) (hn : ∀ a, Confined id (next a)) :
    Confined id (work >>= next) := by
  intro h
  have hfirst := hw h
  rw [perform_bind]
  rcases hp : work.perform h with ⟨e | a, h'⟩
  · rw [hp] at hfirst
    exact hfirst
  · rw [hp] at hfirst
    exact hfirst.trans (hn a h')

theorem relabel (hw : Confined id work) (f : ε → ε') : Confined id (work.relabel f) := by
  intro h
  rw [perform_relabel]
  exact hw h

theorem forM {l : List β} {each : β → Access ε Unit} (he : ∀ b, Confined id (each b)) :
    Confined id (l.forM each) := by
  induction l with
  | nil => exact pure id ()
  | cons b rest ih => exact (he b).bind fun _ => ih

/-- Asking a store changes nothing. -/
theorem record (id asked : InstanceId) : Confined id (Access.record asked) := by
  intro h
  rcases record_cases asked h with ⟨refusal, hp⟩ | ⟨r, -, hp⟩
  all_goals
    rw [hp]
    exact .refl id h

/-- A change concerns its target alone. -/
theorem change {c : Change} (hc : c.target = id) : Confined id (Access.change c) := by
  intro h
  rcases change_cases c h with ⟨refusal, hp⟩ | ⟨store, happly, hp⟩
  · rw [hp]
    exact .refl id h
  · rw [hp]
    refine { failing := rfl, others := ?_, journal := ⟨[.change c], rfl, ?_⟩ }
    · intro other hne
      exact Change.get?_of_apply happly (hc ▸ hne)
    · intro a ha
      rw [List.mem_singleton.1 ha]
      exact hc

end Confined

end Access

end Perdure
