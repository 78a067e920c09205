import Perdure.Engine.Site
import Perdure.Proofs.Engine.Endings
import Perdure.Proofs.Engine.Recovery
import Perdure.Proofs.Engine.Solo
import Perdure.Proofs.Instance.Pending

/-!
# What recovery asks for

Recovery goes over the deployed processes and over the active instances of each.  It changes nothing
that is stored, and asks for exactly the timers that are armed in states that can be read.

## Main definitions

* `Engine.Loads` — the stored state of a record, as it is read back.
* `Engine.rearmings` — all that recovery asks for.
* `pendingOf` — the pending timers of one instance among those of all.

## Main results

* `Engine.perform_recover` — what recovery does to a host.
* `Engine.mem_rearmings_iff` — it asks for the armed timers of all active instances.
* `pendingOf_rearmings` — what is pending of an instance after recovery.
-/

namespace Perdure

/-! ### The pending timers of one instance -/

/-- The pending timers of one instance among those of all. -/
def pendingOf (pending : Table TimerKey Instant) (id : InstanceId) : Pending :=
  fun t => pending.get? ⟨id, t⟩

/-- An action is seen by the instance that it is about. -/
theorem pendingOf_onPending (pending : Table TimerKey Instant) (id : InstanceId) (a : Action) :
    pendingOf (a.onPending pending) id =
      (pendingOf pending id).after (a.effectFor? id).toList := by
  funext t
  cases a with
  | change c => rfl
  | registerTimer other c d | cancelTimer other c =>
    unfold Action.onPending Action.effectFor? pendingOf
    dsimp only
    by_cases hid : other = id
    · subst hid
      simp [Pending.after, Effect.onPending, Pending.set_apply]
    · have hne : ¬ id = other := fun he => hid he.symm
      simp [hid, hne]

/-- Of several actions an instance sees the effects that are its own. -/
theorem pendingOf_foldl (pending : Table TimerKey Instant) (id : InstanceId) (acts : List Action) :
    pendingOf (acts.foldl Action.onPending pending) id =
      (pendingOf pending id).after (acts.filterMap (Action.effectFor? id)) := by
  induction acts generalizing pending with
  | nil => rfl
  | cons a rest ih =>
    rw [List.foldl_cons, ih, pendingOf_onPending, List.filterMap_cons]
    cases a.effectFor? id with
    | none => rfl
    | some effect => rfl

/-- Where all that is asked for are timers of a table, what was asked for is pending as the table has
it, and all else as before. -/
theorem Pending.after_registerTimer {effects : List Effect} {timers : Channel → Option Instant}
    (h : ∀ effect ∈ effects, ∃ t d, effect = .registerTimer t d ∧ timers t = some d) (w : Pending)
    (q : Channel) : (∃ d, .registerTimer q d ∈ effects ∧ w.after effects q = some d) ∨
      (∀ d, .registerTimer q d ∉ effects) ∧ w.after effects q = w q := by
  induction effects generalizing w with
  | nil => exact .inr ⟨fun _ => List.not_mem_nil, rfl⟩
  | cons effect rest ih =>
    obtain ⟨t, d, rfl, hd⟩ := h effect List.mem_cons_self
    have hrest := ih (fun effect heffect => h effect (List.mem_cons_of_mem _ heffect)) (w.set t (some d))
    have hset : w.after (.registerTimer t d :: rest) = (w.set t (some d)).after rest := rfl
    rw [hset]
    rcases hrest with ⟨d', hd', hafter⟩ | ⟨hno, hafter⟩
    · exact .inl ⟨d', List.mem_cons_of_mem _ hd', hafter⟩
    · rw [hafter, Pending.set_apply]
      by_cases hq : q = t
      · subst hq
        exact .inl ⟨d, List.mem_cons_self, if_pos rfl⟩
      · refine .inr ⟨fun d' hd' => ?_, if_neg hq⟩
        rcases List.mem_cons.1 hd' with he | hd'
        · cases he
          exact hq rfl
        · exact hno d' hd'

namespace Engine

variable {e : Engine} {h : Host} {s : Store} {id : InstanceId}

theorem mem_remaps_iff {processId : String} {remap : RemapTable} :
    (processId, remap) ∈ e.remaps ↔
      ∃ d, e.processes.get? processId = some d ∧ d.remap = remap := by
  unfold remaps
  rw [List.mem_map]
  constructor
  · rintro ⟨⟨k, d⟩, he, heq⟩
    cases heq
    exact ⟨d, Table.mem_entries_iff.1 he, rfl⟩
  · rintro ⟨d, hd, rfl⟩
    exact ⟨(processId, d), Table.mem_entries_iff.2 hd, rfl⟩

/-- The state that a record has to run from is read back as a soup. -/
structure Loads (e : Engine) (r : Record) (d : Deployed) (soup : InstanceSoup) : Prop where
  deployed : e.processes.get? r.processId = some d
  read : ∃ bytes, r.pending? = some bytes ∧ Checkpoint.read d.remap bytes = .ok soup

/-- A state is read back in one way. -/
theorem Loads.unique {r : Record} {d d' : Deployed} {soup soup' : InstanceSoup}
    (hl : e.Loads r d soup) (hl' : e.Loads r d' soup') : d = d' ∧ soup = soup' := by
  obtain ⟨hd, bytes, hb, hread⟩ := hl
  obtain ⟨hd', bytes', hb', hread'⟩ := hl'
  rw [hd] at hd'
  cases hd'
  rw [hb] at hb'
  cases hb'
  rw [hread] at hread'
  cases hread'
  exact ⟨rfl, rfl⟩

/-! ### What recovery does -/

/-- The armed timers in the stored state of an instance, if it can be read. -/
def armedTimers (remap : RemapTable) (s : Store) (id : InstanceId) : List (Channel × Instant) :=
  match ((s.get? id).bind Record.state).map (Checkpoint.read remap) with
  | some (.ok soup) => soup.timers.entries
  | _ => []

/-- All that recovery asks for. -/
def rearmings (e : Engine) (s : Store) : List Action :=
  e.remaps.flatMap fun process => (s.active process.1).flatMap fun id =>
    (armedTimers process.2 s id).map fun t => .registerTimer id t.1 t.2

/-- For an instance that is stored, its armed timers are asked for. -/
theorem perform_recoverInstance_of_get? (hf : h.failing = []) {r : Record}
    (hr : h.store.get? id = some r) (remap : RemapTable) :
    ∃ n, (recoverInstance remap id).perform h = (.ok n, { h with
      journal := h.journal ++
        (armedTimers remap h.store id).map fun t => .registerTimer id t.1 t.2 }) := by
  have hstate := Access.perform_relabel_of_ok
    (Access.perform_state_of_get? (by simp [hf]) hr) EngineError.store
  unfold armedTimers
  rw [hr, Option.bind_some]
  cases hb : r.state with
  | none =>
    unfold recoverInstance
    rw [Access.perform_bind, hstate, hb]
    exact ⟨0, by simp⟩
  | some bytes =>
    cases hread : Checkpoint.read remap bytes with
    | ok soup =>
      rw [Option.map_some, hread]
      exact ⟨_, perform_recoverInstance hf hr hb hread⟩
    | error =>
      unfold recoverInstance
      rw [Access.perform_bind, hstate, hb]
      simp only [hread, Access.perform_pure, Option.map_some]
      exact ⟨0, by simp⟩

/-- Pieces of work that only write something down do so one after another. -/
theorem perform_total {α : Type} {count : α → Access EngineError Nat} {acts : α → List Action}
    {l : List α} (hcount : ∀ a ∈ l, ∀ g : Host, g.store = h.store → g.failing = h.failing →
      ∃ n, (count a).perform g = (.ok n, { g with journal := g.journal ++ acts a })) :
    ∃ n, (total count l).perform h = (.ok n, { h with
      journal := h.journal ++ l.flatMap acts }) := by
  induction l generalizing h with
  | nil => exact ⟨0, by simp [total]⟩
  | cons a rest ih =>
    obtain ⟨n, hfirst⟩ := hcount a List.mem_cons_self h rfl rfl
    obtain ⟨m, hrest⟩ := ih (h := { h with journal := h.journal ++ acts a })
      fun b hb => hcount b (List.mem_cons_of_mem a hb)
    refine ⟨n + m, ?_⟩
    unfold total
    rw [Access.perform_bind, hfirst]
    dsimp only
    rw [Access.perform_bind, hrest]
    simp

/-- Recovery changes nothing that is stored, and asks for timers. -/
theorem perform_recover (e : Engine) (hf : h.failing = []) :
    ∃ n, e.recover.perform h = (.ok n, { h with journal := h.journal ++ e.rearmings h.store }) := by
  apply perform_total
  intro process _ g hstore hfailing
  have hactive : ((Access.active process.1).relabel EngineError.store).perform g =
      (.ok (h.store.active process.1), g) := by
    rw [← hstore]
    exact Access.perform_relabel_of_ok (Access.perform_active (by simp [hfailing, hf]) _) _
  rw [Access.perform_bind, hactive]
  dsimp only
  apply perform_total
  intro id hid g' hstore' hfailing'
  obtain ⟨r, hr, -, -⟩ := Store.mem_active_iff.1 hid
  have hsame : g'.store = h.store := hstore'.trans hstore
  rw [← hsame] at hr ⊢
  exact perform_recoverInstance_of_get? (hfailing'.trans (hfailing.trans hf)) hr process.2

/-- Recovery asks for the armed timers of active instances, and for nothing else. -/
theorem mem_rearmings_iff {a : Action} : a ∈ e.rearmings s ↔
    ∃ id r d soup t deadline, s.get? id = some r ∧ e.Loads r d soup ∧
      soup.timers.get? t = some deadline ∧ a = .registerTimer id t deadline := by
  unfold rearmings armedTimers
  simp only [List.mem_flatMap, List.mem_map]
  constructor
  · rintro ⟨⟨processId, remap⟩, hremap, id, hid, ⟨t, deadline⟩, ht, rfl⟩
    obtain ⟨d, hd, rfl⟩ := mem_remaps_iff.1 hremap
    obtain ⟨r, hr, rfl, hactive⟩ := Store.mem_active_iff.1 hid
    rw [hr, Option.bind_some] at ht
    split at ht
    · next soup hsoup =>
      obtain ⟨bytes, hb, hread⟩ := Option.map_eq_some_iff.1 hsoup
      have hpending : r.pending? = some bytes := by
        unfold Record.pending?
        rw [hactive]
        exact hb
      exact ⟨id, r, d, soup, t, deadline, hr, ⟨hd, bytes, hpending, hread⟩,
        Table.mem_entries_iff.1 ht, rfl⟩
    · cases ht
  · rintro ⟨id, r, d, soup, t, deadline, hr, ⟨hd, bytes, hb, hread⟩, ht, rfl⟩
    obtain ⟨hactive, hstate⟩ := Record.active_of_pending? hb
    refine ⟨(r.processId, d.remap), mem_remaps_iff.2 ⟨d, hd, rfl⟩, id,
      Store.mem_active_iff.2 ⟨r, hr, rfl, hactive⟩, (t, deadline), ?_, rfl⟩
    rw [hr, Option.bind_some, hstate, Option.map_some, hread]
    exact Table.mem_entries_iff.2 ht

/-- After recovery the armed timers of an active instance are pending, beside those that were. -/
theorem pendingOf_rearmings (pending : Table TimerKey Instant) {r : Record} {d : Deployed}
    {soup : InstanceSoup} (hr : s.get? id = some r) (hl : e.Loads r d soup) :
    pendingOf ((e.rearmings s).foldl Action.onPending pending) id =
      fun t => (soup.timers.get? t).or (pendingOf pending id t) := by
  have hown {effect : Effect} (he : effect ∈ (e.rearmings s).filterMap (Action.effectFor? id)) :
      ∃ t d, effect = .registerTimer t d ∧ soup.timers.get? t = some d := by
    obtain ⟨a, ha, he⟩ := List.mem_filterMap.1 he
    obtain ⟨id', r', d', soup', t, deadline, hr', hl', ht, rfl⟩ := mem_rearmings_iff.1 ha
    by_cases hid : id' = id
    · subst hid
      rw [hr] at hr'
      cases hr'
      obtain ⟨-, rfl⟩ := hl.unique hl'
      have heffect : some (.registerTimer t deadline) = some effect := (if_pos rfl).symm.trans he
      exact ⟨t, deadline, (Option.some.inj heffect).symm, ht⟩
    · have hnone : none = some effect := (if_neg hid).symm.trans he
      cases hnone
  funext t
  rw [pendingOf_foldl]
  rcases Pending.after_registerTimer (fun _ he => hown he) (pendingOf pending id) t with
    ⟨d', hd', hafter⟩ | ⟨hno, hafter⟩
  · obtain ⟨_, _, he, ht⟩ := hown hd'
    cases he
    rw [hafter, ht]
    rfl
  · have hnone : soup.timers.get? t = none := by
      by_contra hne
      obtain ⟨deadline, ht⟩ := Option.ne_none_iff_exists'.1 hne
      exact hno deadline (List.mem_filterMap.2 ⟨.registerTimer id t deadline,
        mem_rearmings_iff.2 ⟨id, r, d, soup, t, deadline, hr, hl, ht, rfl⟩, if_pos rfl⟩)
    rw [hafter, hnone]
    rfl

/-- Nothing is asked for an instance without a state that can be read. -/
theorem pendingOf_rearmings_of_not_loads (pending : Table TimerKey Instant)
    (hno : ∀ r d soup, s.get? id = some r → ¬ e.Loads r d soup) :
    pendingOf ((e.rearmings s).foldl Action.onPending pending) id = pendingOf pending id := by
  have hnone : (e.rearmings s).filterMap (Action.effectFor? id) = [] := by
    rw [List.filterMap_eq_nil_iff]
    intro a ha
    obtain ⟨id', r, d, soup, t, deadline, hr, hl, -, rfl⟩ := mem_rearmings_iff.1 ha
    refine if_neg ?_
    rintro rfl
    exact hno r d soup hr hl
  rw [pendingOf_foldl, hnone, Pending.after_nil]

end Engine

end Perdure
