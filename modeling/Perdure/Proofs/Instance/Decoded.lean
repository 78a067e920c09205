import Perdure.Proofs.Checkpoint
import Perdure.Proofs.Instance.Fits
import Perdure.Proofs.Json.Decoded
import Perdure.Proofs.Time.Relaxed

/-!
# What is read fits

Whatever bytes a soup is read from, its numbers are words and its instants are valid, since readers
take in no others.  So a soup that was read can be written, and is then read again.

## Main results

* `InstanceSoup.decodes` — a soup that is read from a document fits.
* `Checkpoint.fits_of_read` — a soup that is read from bytes fits, and has no effects.
-/

namespace Perdure

open Json (Decodes)

/-! ### Scalars -/

theorem ActivityId.decodes : Decodes (· < 2 ^ 32) ActivityId.ofJson? := .word32

theorem Channel.decodes : Decodes (· < 2 ^ 64) Channel.ofJson? := .word64

theorem Instant.decodes : Decodes Instant.Valid Instant.ofJson? := by
  intro v t h
  obtain ⟨s, -, h⟩ := Option.bind_eq_some_iff.1 h
  exact valid_of_ofStored? h

/-! ### Compensations -/

theorem Compensation.decodes : Decodes Compensation.Fits Compensation.ofJson? := by
  intro v a h
  unfold ofJson? at h
  obtain ⟨slots, -, h⟩ := Option.bind_eq_some_iff.1 h
  split at h
  · simp only [Option.bind_eq_bind, Option.pure_def, Option.bind_eq_some_iff, Option.some.injEq] at h
    obtain ⟨scopeInstance, hinstance, scope, hscope, activity, hactivity, rfl⟩ := h
    exact ⟨Decodes.word64.required hinstance, ActivityId.decodes.required hscope,
      ActivityId.decodes.required hactivity⟩
  · cases h

theorem Compensations.decodes : Decodes Compensations.Fits Compensations.ofJson? :=
  Compensation.decodes.keySet

/-- Where no compensations are written there are none. -/
theorem Compensations.decodes_withDefault {slot : Json.Slot} {cs : Compensations}
    (h : slot.withDefault ∅ Compensations.ofJson? = some cs) : Compensations.Fits cs :=
  Compensations.decodes.withDefault Compensations.fits_empty h

/-! ### Activities under way -/

theorem Run.decodes : Decodes Run.Fits Run.ofJson? := by
  intro v a h
  unfold ofJson? at h
  obtain ⟨slots, -, h⟩ := Option.bind_eq_some_iff.1 h
  split at h
  · simp only [Option.bind_eq_bind, Option.pure_def, Option.bind_eq_some_iff, Option.some.injEq] at h
    obtain ⟨id, hid, activity, hactivity, termination, htermination, parent, hparent, rfl⟩ := h
    exact ⟨Decodes.word64.required hid, ActivityId.decodes.required hactivity,
      Channel.decodes.required htermination, Channel.decodes.required hparent⟩
  · cases h

theorem SequenceRun.decodes : Decodes SequenceRun.Fits SequenceRun.ofJson? := by
  intro v a h
  unfold ofJson? at h
  obtain ⟨slots, -, h⟩ := Option.bind_eq_some_iff.1 h
  split at h
  · simp only [Option.bind_eq_bind, Option.pure_def, Option.bind_eq_some_iff, Option.some.injEq] at h
    obtain ⟨run, hrun, position, hposition, compensations, hcs, terminated, -, rfl⟩ := h
    exact ⟨Run.decodes.required hrun, Decodes.word64.required hposition,
      Compensations.decodes_withDefault hcs⟩
  · cases h

theorem AlarmLink.decodes : Decodes AlarmLink.Fits AlarmLink.ofJson? := by
  intro v a h
  unfold ofJson? at h
  obtain ⟨slots, -, h⟩ := Option.bind_eq_some_iff.1 h
  split at h
  · simp only [Option.bind_eq_bind, Option.pure_def, Option.bind_eq_some_iff, Option.some.injEq] at h
    obtain ⟨parent, hparent, termination, htermination, control, hcontrol, done, -, rfl⟩ := h
    exact ⟨Channel.decodes.required hparent, Channel.decodes.required htermination,
      Channel.decodes.required hcontrol⟩
  · cases h

theorem ScopeRun.decodes : Decodes ScopeRun.Fits ScopeRun.ofJson? := by
  intro v a h
  unfold ofJson? at h
  obtain ⟨slots, -, h⟩ := Option.bind_eq_some_iff.1 h
  split at h
  · simp only [Option.bind_eq_bind, Option.pure_def, Option.bind_eq_some_iff, Option.some.injEq] at h
    obtain ⟨run, hrun, body, hbody, handlers, hhandlers, compensations, hcs, fault, -, terminating,
       -, rfl⟩ := h
    exact ⟨Run.decodes.required hrun, Run.decodes.optional hbody,
      AlarmLink.decodes.list.required hhandlers, Compensations.decodes_withDefault hcs⟩
  · cases h

theorem AlarmRef.decodes : Decodes AlarmRef.Fits AlarmRef.ofJson? := by
  intro v a h
  unfold ofJson? at h
  obtain ⟨slots, -, h⟩ := Option.bind_eq_some_iff.1 h
  split at h
  · simp only [Option.bind_eq_bind, Option.pure_def, Option.bind_eq_some_iff, Option.some.injEq] at h
    obtain ⟨scope, hscope, index, hindex, rfl⟩ := h
    exact ⟨ActivityId.decodes.required hscope, Decodes.word32.required hindex⟩
  · cases h

theorem AlarmRun.decodes : Decodes AlarmRun.Fits AlarmRun.ofJson? := by
  intro v a h
  unfold ofJson? at h
  obtain ⟨slots, -, h⟩ := Option.bind_eq_some_iff.1 h
  split at h
  · simp only [Option.bind_eq_bind, Option.pure_def, Option.bind_eq_some_iff, Option.some.injEq] at h
    obtain ⟨alarm, halarm, scopeInstance, hinstance, parent, hparent, termination, htermination,
       control, hcontrol, compensations, hcs, rfl⟩ := h
    exact ⟨AlarmRef.decodes.required halarm, Decodes.word64.required hinstance,
      Channel.decodes.required hparent, Channel.decodes.required htermination,
      Channel.decodes.required hcontrol, Compensations.decodes_withDefault hcs⟩
  · cases h

/-! ### Shared data -/

theorem Request.decodes : Decodes Request.Fits Request.ofJson? := by
  intro v a h
  unfold ofJson? at h
  obtain ⟨slots, -, h⟩ := Option.bind_eq_some_iff.1 h
  split at h
  · simp only [Option.bind_eq_bind, Option.pure_def, Option.bind_eq_some_iff, Option.some.injEq] at h
    obtain ⟨partnerLink, -, operation, -, correlationKey, -, channel, hchannel, messageExchange, -,
       rfl⟩ := h
    exact Channel.decodes.required hchannel
  · cases h

theorem RootLink.decodes : Decodes RootLink.Fits RootLink.ofJson? := by
  intro v a h
  unfold ofJson? at h
  obtain ⟨slots, -, h⟩ := Option.bind_eq_some_iff.1 h
  split at h
  · simp only [Option.bind_eq_bind, Option.pure_def, Option.bind_eq_some_iff, Option.some.injEq] at h
    obtain ⟨termination, htermination, parent, hparent, rfl⟩ := h
    exact ⟨Channel.decodes.required htermination, Channel.decodes.required hparent⟩
  · cases h

/-! ### Messages, tasks and receivers -/

theorem Message.decodes : Decodes Message.Fits Message.ofJson? := by
  intro v m h
  unfold ofJson? at h
  obtain ⟨⟨shape, v⟩, -, h⟩ := Option.bind_eq_some_iff.1 h
  dsimp only at h
  split at h
  · obtain ⟨_, -, rfl⟩ := Option.map_eq_some_iff.1 h
    trivial
  · obtain ⟨_, -, rfl⟩ := Option.map_eq_some_iff.1 h
    trivial
  · obtain ⟨_, -, rfl⟩ := Option.map_eq_some_iff.1 h
    trivial
  · obtain ⟨_, -, rfl⟩ := Option.map_eq_some_iff.1 h
    trivial
  · obtain ⟨_, -, rfl⟩ := Option.map_eq_some_iff.1 h
    trivial
  · obtain ⟨slots, -, h⟩ := Option.bind_eq_some_iff.1 h
    split at h
    · simp only [Option.bind_eq_bind, Option.pure_def, Option.bind_eq_some_iff,
        Option.some.injEq] at h
      obtain ⟨fault, -, compensations, hcs, rfl⟩ := h
      exact Compensations.decodes_withDefault hcs
    · cases h
  · obtain ⟨slots, -, h⟩ := Option.bind_eq_some_iff.1 h
    split at h
    · simp only [Option.bind_eq_bind, Option.pure_def, Option.bind_eq_some_iff,
        Option.some.injEq] at h
      obtain ⟨reason, -, rfl⟩ := h
      exact trivial
    · cases h
  · obtain ⟨slots, -, h⟩ := Option.bind_eq_some_iff.1 h
    split at h
    · simp only [Option.bind_eq_bind, Option.pure_def, Option.bind_eq_some_iff,
        Option.some.injEq] at h
      obtain ⟨scope, hscope, reply, hreply, rfl⟩ := h
      exact ⟨ActivityId.decodes.required hscope, Channel.decodes.required hreply⟩
    · cases h
  · cases h

theorem Task.decodes : Decodes (Task.Fits Instant.Valid) Task.ofJson? := by
  intro v t h
  unfold ofJson? at h
  obtain ⟨⟨shape, v⟩, -, h⟩ := Option.bind_eq_some_iff.1 h
  dsimp only at h
  split at h
  · obtain ⟨slots, -, h⟩ := Option.bind_eq_some_iff.1 h
    split at h
    · simp only [Option.bind_eq_bind, Option.pure_def, Option.bind_eq_some_iff,
        Option.some.injEq] at h
      obtain ⟨run, hrun, rfl⟩ := h
      exact Run.decodes.required hrun
    · cases h
  · obtain ⟨slots, -, h⟩ := Option.bind_eq_some_iff.1 h
    split at h
    · simp only [Option.bind_eq_bind, Option.pure_def, Option.bind_eq_some_iff,
        Option.some.injEq] at h
      obtain ⟨sequence, hsequence, rfl⟩ := h
      exact SequenceRun.decodes.required hsequence
    · cases h
  · obtain ⟨slots, -, h⟩ := Option.bind_eq_some_iff.1 h
    split at h
    · simp only [Option.bind_eq_bind, Option.pure_def, Option.bind_eq_some_iff,
        Option.some.injEq] at h
      obtain ⟨scope, hscope, rfl⟩ := h
      exact ScopeRun.decodes.required hscope
    · cases h
  · obtain ⟨slots, -, h⟩ := Option.bind_eq_some_iff.1 h
    split at h
    · simp only [Option.bind_eq_bind, Option.pure_def, Option.bind_eq_some_iff,
        Option.some.injEq] at h
      obtain ⟨alarm, halarm, rfl⟩ := h
      exact AlarmRun.decodes.required halarm
    · cases h
  · obtain ⟨slots, -, h⟩ := Option.bind_eq_some_iff.1 h
    split at h
    · simp only [Option.bind_eq_bind, Option.pure_def, Option.bind_eq_some_iff,
        Option.some.injEq] at h
      obtain ⟨alarm, halarm, deadline, hdeadline, rfl⟩ := h
      exact ⟨AlarmRun.decodes.required halarm, Instant.decodes.optional hdeadline⟩
    · cases h
  · obtain ⟨slots, -, h⟩ := Option.bind_eq_some_iff.1 h
    split at h
    · simp only [Option.bind_eq_bind, Option.pure_def, Option.bind_eq_some_iff,
        Option.some.injEq] at h
      obtain ⟨alarm, halarm, rfl⟩ := h
      exact AlarmRun.decodes.required halarm
    · cases h
  · obtain ⟨slots, -, h⟩ := Option.bind_eq_some_iff.1 h
    split at h
    · simp only [Option.bind_eq_bind, Option.pure_def, Option.bind_eq_some_iff,
        Option.some.injEq] at h
      obtain ⟨alarm, halarm, child, hchild, stopped, -, rfl⟩ := h
      exact ⟨AlarmRun.decodes.required halarm, Run.decodes.required hchild⟩
    · cases h
  · cases h

theorem Receiver.decodes : Decodes Receiver.Fits Receiver.ofJson? := by
  intro v r h
  unfold ofJson? at h
  obtain ⟨⟨shape, v⟩, -, h⟩ := Option.bind_eq_some_iff.1 h
  dsimp only at h
  split at h
  · obtain ⟨slots, -, h⟩ := Option.bind_eq_some_iff.1 h
    split at h
    · simp only [Option.bind_eq_bind, Option.pure_def, Option.bind_eq_some_iff,
        Option.some.injEq] at h
      obtain ⟨run, hrun, timer, htimer, rfl⟩ := h
      exact ⟨Run.decodes.required hrun, Channel.decodes.required htimer⟩
    · cases h
  · obtain ⟨slots, -, h⟩ := Option.bind_eq_some_iff.1 h
    split at h
    · simp only [Option.bind_eq_bind, Option.pure_def, Option.bind_eq_some_iff,
        Option.some.injEq] at h
      obtain ⟨sequence, hsequence, child, hchild, rfl⟩ := h
      exact ⟨SequenceRun.decodes.required hsequence, Run.decodes.required hchild⟩
    · cases h
  · obtain ⟨slots, -, h⟩ := Option.bind_eq_some_iff.1 h
    split at h
    · simp only [Option.bind_eq_bind, Option.pure_def, Option.bind_eq_some_iff,
        Option.some.injEq] at h
      obtain ⟨scope, hscope, rfl⟩ := h
      exact ScopeRun.decodes.required hscope
    · cases h
  · obtain ⟨slots, -, h⟩ := Option.bind_eq_some_iff.1 h
    split at h
    · simp only [Option.bind_eq_bind, Option.pure_def, Option.bind_eq_some_iff,
        Option.some.injEq] at h
      obtain ⟨alarm, halarm, timer, htimer, rfl⟩ := h
      exact ⟨AlarmRun.decodes.required halarm, Channel.decodes.optional htimer⟩
    · cases h
  · obtain ⟨slots, -, h⟩ := Option.bind_eq_some_iff.1 h
    split at h
    · simp only [Option.bind_eq_bind, Option.pure_def, Option.bind_eq_some_iff,
        Option.some.injEq] at h
      obtain ⟨alarm, halarm, child, hchild, stopped, -, rfl⟩ := h
      exact ⟨AlarmRun.decodes.required halarm, Run.decodes.required hchild⟩
    · cases h
  · cases h

/-! ### Requests -/

theorem RequestState.decodes : Decodes RequestState.Fits RequestState.ofJson? := by
  have hrequests {slot : Json.Slot} {requests : List Request}
      (h : slot.withDefault [] (Json.list? Request.ofJson?) = some requests) :
      ∀ r ∈ requests, r.Fits := Request.decodes.list.withDefault (fun _ hr => absurd hr List.not_mem_nil) h
  intro v s h
  unfold ofJson? at h
  obtain ⟨⟨shape, v⟩, -, h⟩ := Option.bind_eq_some_iff.1 h
  dsimp only at h
  split at h
  · obtain ⟨slots, -, h⟩ := Option.bind_eq_some_iff.1 h
    split at h
    · simp only [Option.bind_eq_bind, Option.pure_def, Option.bind_eq_some_iff,
        Option.some.injEq] at h
      obtain ⟨requests, hread, rfl⟩ := h
      exact hrequests hread
    · cases h
  · split at h
    · obtain ⟨slots, -, h⟩ := Option.bind_eq_some_iff.1 h
      split at h
      · simp only [Option.bind_eq_bind, Option.pure_def, Option.bind_eq_some_iff,
          Option.some.injEq] at h
        obtain ⟨requests, hread, m, hm, rfl⟩ := h
        -- a manager holds what it was made of
        have hperm := (RequestManager.ofList_eq_ok_iff.1 (toOption_eq_some_iff.1 hm)).2
        exact fun r hr => hrequests hread r (hperm.mem_iff.1 hr)
      · cases h
    · cases h

theorem Shared.decodes : Decodes Shared.Fits Shared.ofJson? := by
  intro v g h
  unfold ofJson? read? at h
  obtain ⟨slots, -, h⟩ := Option.bind_eq_some_iff.1 h
  split at h
  · simp only [Option.bind_eq_bind, Option.pure_def, Option.bind_eq_some_iff, Option.some.injEq] at h
    obtain ⟨root, hroot, requests, hrequests, rfl⟩ := h
    exact ⟨RootLink.decodes.option.withDefault (by rintro _ ⟨⟩) hroot,
      RequestState.decodes.required hrequests⟩
  · cases h

/-! ### Soups -/

theorem Arm.decodes :
    Decodes (fun a : Arm Receiver => a.channel < 2 ^ 64 ∧ a.handler.Fits) Arm.ofJson? := by
  intro v a h
  unfold ofJson? at h
  obtain ⟨slots, -, h⟩ := Option.bind_eq_some_iff.1 h
  split at h
  · simp only [Option.bind_eq_bind, Option.pure_def, Option.bind_eq_some_iff, Option.some.injEq] at h
    obtain ⟨channel, hchannel, handler, hhandler, rfl⟩ := h
    exact ⟨Channel.decodes.required hchannel, Receiver.decodes.required hhandler⟩
  · cases h

theorem Choice.decodes :
    Decodes (fun c : Choice Receiver => ∀ a ∈ c.arms, a.channel < 2 ^ 64 ∧ a.handler.Fits)
      Choice.ofJson? := by
  intro v c h
  unfold ofJson? at h
  obtain ⟨slots, -, h⟩ := Option.bind_eq_some_iff.1 h
  split at h
  · simp only [Option.bind_eq_bind, Option.pure_def, Option.bind_eq_some_iff, Option.some.injEq] at h
    obtain ⟨arms, harms, rfl⟩ := h
    exact Arm.decodes.list.required harms
  · cases h

theorem Channel.lt_of_ofKey? {key : String} {c : Channel} (h : ofKey? key = some c) :
    c < 2 ^ 64 := by
  unfold ofKey? at h
  dsimp only at h
  split at h
  · cases h
  · split at h
    · next hc =>
      cases h
      exact hc
    · cases h

theorem Channel.decodes_table {ν : Type} {fits : ν → Prop} {read : Json → Option ν}
    (h : Decodes fits read) :
    Decodes (fun t : Table Channel ν => ∀ e ∈ t.entries, e.1 < 2 ^ 64 ∧ fits e.2)
      (Channel.table? read) := by
  intro v t ht
  cases v with
  | obj members =>
    obtain ⟨entries, hentries, ht⟩ := Option.bind_eq_some_iff.1 ht
    cases ht
    have hfits : ∀ e ∈ entries, e.1 < 2 ^ 64 ∧ fits e.2 := by
      refine Json.forall_of_mapM (fun m e he => ?_) hentries
      obtain ⟨c, hc, he⟩ := Option.bind_eq_some_iff.1 he
      obtain ⟨w, hw, he⟩ := Option.bind_eq_some_iff.1 he
      cases he
      exact ⟨lt_of_ofKey? hc, h m.2 w hw⟩
    exact fun e he => hfits e (Table.mem_of_mem_ofList he)
  | _ => cases ht

/-- A soup that is read from a document fits. -/
theorem InstanceSoup.decodes :
    Decodes (fun s : InstanceSoup => Soup.Fits Instant.Valid s ∧ s.outbox = []) InstanceSoup.ofJson? := by
  intro v s h
  unfold ofJson? at h
  obtain ⟨slots, -, h⟩ := Option.bind_eq_some_iff.1 h
  split at h
  · simp only [Option.bind_eq_bind, Option.pure_def, Option.bind_eq_some_iff, Option.some.injEq] at h
    obtain ⟨shared, hshared, nextChannel, hchannel, nextMonotonic, hmonotonic, runnables,
      hrunnables, choices, hchoices, messages, hmessages, closed, hclosed, timers, htimers, rfl⟩ := h
    exact ⟨{ global := Shared.decodes.required hshared
             nextChannel := Decodes.word64.required hchannel
             nextMonotonic := Decodes.word64.required hmonotonic
             runnables := Task.decodes.list.required hrunnables
             choices := Choice.decodes.list.required hchoices
             messages := (Channel.decodes_table Message.decodes.list).required hmessages
             closed := Channel.decodes.keySet.required hclosed
             timers := (Channel.decodes_table Instant.decodes).required htimers }, rfl⟩
  · cases h

/-- A soup that is read from bytes fits, and has no effects. -/
theorem Checkpoint.fits_of_read {t : RemapTable} {bytes : List UInt8} {s : InstanceSoup}
    (h : read t bytes = .ok s) : Soup.Fits Instant.Valid s ∧ s.outbox = [] := by
  unfold read at h
  obtain ⟨v, -, h⟩ := exists_of_bind_eq_ok h
  obtain ⟨w, -, h⟩ := exists_of_bind_eq_ok h
  split at h
  · next hs =>
    cases h
    exact InstanceSoup.decodes w _ hs
  · cases h

end Perdure
