import Mathlib.Data.List.Nodup
import Perdure.Proofs.Instance.Yields

/-!
# A scope and its parts

A scope knows its body and its alarms by their links.  This module says what becomes of the links
that a scope waits for when one of them is done, which orders a scope gives, and which channels the
parts of a new scope get.

## Main definitions

* `ScopeRun.Sound` — what the data of a scope promise by themselves.

## Main results

* `ScopeRun.Sound.link_eq_body`, `ScopeRun.Sound.link_eq_alarm` — a report comes from the part that
  the scope takes it for.
* `AlarmRun.channels_freshAll` — the channels of new alarms are one range.
-/

namespace Perdure

/-- What the data of a scope promise: its body and alarms report on different channels, a fault
stops everything, and the scope is an activity of the definition. -/
structure ScopeRun.Sound (s : Script) (scope : ScopeRun) : Prop where
  distinct : (scope.body.toList.map (·.parent) ++ scope.handlers.map (·.parent)).Nodup
  stopped : scope.fault.isSome = true → scope.terminating = true
  known : ∃ a, s.activity scope.run.activity = .ok a

namespace ScopeRun

/-! ### Alarms that are done -/

/-- The first alarm that reports on the channel is marked, and only that one. -/
theorem markDone_eq_some {c : Channel} {links marked : List AlarmLink} {l : AlarmLink}
    (h : markDone c links = some (l, marked)) :
    ∃ pre post, links = pre ++ l :: post ∧ l.parent = c ∧
      marked = pre ++ { l with done := true } :: post := by
  induction links generalizing marked with
  | nil => cases h
  | cons a links ih =>
    unfold markDone at h
    split at h
    · next ha =>
      cases h
      exact ⟨[], links, rfl, ha, rfl⟩
    · obtain ⟨⟨b, rest⟩, hb, he⟩ := Option.map_eq_some_iff.1 h
      cases he
      obtain ⟨pre, post, rfl, hl, rfl⟩ := ih hb
      exact ⟨a :: pre, post, rfl, hl, rfl⟩

theorem parents_of_markDone {c : Channel} {links marked : List AlarmLink} {l : AlarmLink}
    (h : markDone c links = some (l, marked)) : marked.map (·.parent) = links.map (·.parent) := by
  obtain ⟨pre, post, rfl, -, rfl⟩ := markDone_eq_some h
  simp

/-- An alarm that a scope knows is found by the channel it reports on. -/
theorem exists_markDone {c : Channel} {links : List AlarmLink}
    (h : c ∈ links.map (·.parent)) : ∃ l marked, markDone c links = some (l, marked) := by
  induction links with
  | nil => cases h
  | cons a links ih =>
    unfold markDone
    by_cases ha : a.parent = c
    · exact ⟨a, { a with done := true } :: links, if_pos ha⟩
    · obtain ⟨l, marked, hl⟩ := ih ((List.mem_cons.1 h).resolve_left (Ne.symm ha))
      exact ⟨l, a :: marked, by rw [if_neg ha, hl]; rfl⟩

/-! ### Links that a scope waits for -/

/-- A report on a link that a scope awaits is that of its body or of one of its alarms. -/
theorem body_or_alarm {scope : ScopeRun} {u : Link} (hu : u ∈ scope.awaits) :
    (∃ body, scope.body = some body ∧ body.parent = u.parent) ∨
      scope.body.filter (·.parent == u.parent) = none ∧
        ∃ l marked, markDone u.parent scope.handlers = some (l, marked) := by
  cases hb : scope.body.filter (·.parent == u.parent) with
  | some body =>
    obtain ⟨hbody, hc⟩ := Option.filter_eq_some_iff.1 hb
    exact .inl ⟨body, hbody, beq_iff_eq.1 hc⟩
  | none =>
    refine .inr ⟨rfl, exists_markDone ?_⟩
    rcases List.mem_append.1 hu with hu | hu
    · obtain ⟨body, hbody, rfl⟩ := List.mem_map.1 hu
      rw [Option.mem_toList] at hbody
      simp [hbody, Option.filter, Run.link] at hb
    · obtain ⟨l, hl, rfl⟩ := List.mem_map.1 hu
      exact List.mem_map_of_mem (List.mem_filter.1 hl).1

/-- The pending alarms after one of them is done. -/
theorem pending_perm_of_markDone {c : Channel} {links marked : List AlarmLink} {l : AlarmLink}
    (h : markDone c links = some (l, marked)) (hl : l.done = false) :
    (links.filter (!·.done)).Perm (l :: marked.filter (!·.done)) := by
  obtain ⟨pre, post, rfl, -, rfl⟩ := markDone_eq_some h
  simp only [List.filter_append, List.filter_cons, hl]
  exact List.perm_middle

/-- The links that a scope waits for, its body first. -/
theorem awaits_of_body {scope : ScopeRun} {body : Run} (hb : scope.body = some body) :
    scope.awaits = body.link :: ({ scope with body := none }).awaits := by
  simp [awaits, pending, hb]

/-- The links that a scope waits for after one of its alarms is done. -/
theorem awaits_perm_of_markDone {scope : ScopeRun} {c : Channel} {marked : List AlarmLink}
    {l : AlarmLink} (h : markDone c scope.handlers = some (l, marked)) (hl : l.done = false) :
    scope.awaits.Perm (l.link :: ({ scope with handlers := marked }).awaits) := by
  have hp := (pending_perm_of_markDone h hl).map AlarmLink.link
  exact (hp.append_left _).trans List.perm_middle

/-- A report on the channel of the body comes from the body. -/
theorem Sound.link_eq_body {s : Script} {scope : ScopeRun} (h : scope.Sound s) {body : Run}
    (hb : scope.body = some body) {u : Link} (hu : u ∈ scope.awaits) (hc : body.parent = u.parent) :
    u = body.link := by
  unfold awaits at hu
  rw [hb, List.mem_append] at hu
  have hd := h.distinct
  rw [hb] at hd
  obtain hu | hu := hu
  · simpa using hu
  · obtain ⟨a, ha, rfl⟩ := List.mem_map.1 hu
    have hm : a.parent ∈ scope.handlers.map (·.parent) :=
      List.mem_map_of_mem (List.mem_filter.1 ha).1
    have hne := (List.nodup_cons.1 hd).1
    exact absurd hm (by rw [show a.parent = body.parent from hc.symm]; exact hne)

/-- A report on the channel of a pending alarm comes from the alarm that is marked. -/
theorem Sound.link_eq_alarm {s : Script} {scope : ScopeRun} (h : scope.Sound s) {u : Link}
    (hu : u ∈ scope.awaits) (hb : scope.body.filter (·.parent == u.parent) = none)
    {l : AlarmLink} {marked : List AlarmLink}
    (hl : markDone u.parent scope.handlers = some (l, marked)) : l.done = false ∧ u = l.link := by
  unfold awaits at hu
  obtain hu | hu := List.mem_append.1 hu
  · obtain ⟨b, hb', rfl⟩ := List.mem_map.1 hu
    rw [Option.mem_toList] at hb'
    simp [hb', Option.filter, Run.link] at hb
  · obtain ⟨a, ha, rfl⟩ := List.mem_map.1 hu
    obtain ⟨ha, hdone⟩ := List.mem_filter.1 ha
    obtain ⟨pre, post, hs, hc, -⟩ := markDone_eq_some hl
    have hd := (List.nodup_append.1 h.distinct).2.1
    have hm : l ∈ scope.handlers := by rw [hs]; simp
    have hal : a = l := List.inj_on_of_nodup_map hd ha hm hc.symm
    subst hal
    exact ⟨by simpa using hdone, rfl⟩

/-- A finished scope waits for nothing. -/
theorem awaits_eq_nil {scope : ScopeRun} (h : scope.isFinished = true) : scope.awaits = [] := by
  unfold isFinished at h
  unfold awaits pending
  simp_all

/-- A scope that waits for nothing is finished. -/
theorem isFinished_of_awaits {scope : ScopeRun} (h : scope.awaits = []) :
    scope.isFinished = true := by
  unfold awaits pending at h
  unfold isFinished
  simp_all [List.filter_eq_nil_iff]

/-! ### Orders -/

/-- Orders to stop at once go to the terminations of awaited links. -/
theorem mem_orders {scope : ScopeRun} {c : Channel} {m : Message}
    (h : (c, m) ∈ scope.orders) : ∃ u ∈ scope.awaits, c = u.termination ∧ m = .terminate := by
  unfold orders at h
  split at h
  · cases h
  · obtain ⟨u, hu, he⟩ := List.mem_map.1 h
    cases he
    exact ⟨u, hu, rfl, rfl⟩

/-- All that a scope waits for is told, unless it has been told before. -/
theorem orders_complete (scope : ScopeRun) (h : ¬ scope.terminating) {u : Link}
    (hu : u ∈ scope.awaits) : (u.termination, .terminate) ∈ scope.orders := by
  unfold orders
  rw [if_neg h]
  exact List.mem_map_of_mem hu

/-- A scope that has or gets a fault keeps one. -/
theorem faulty_absorb {scope : ScopeRun} {fault : Option Fault}
    (h : scope.fault.isSome = true ∨ fault.isSome = true) (cs : Compensations) :
    (scope.absorb fault cs).fault.isSome = true := by
  unfold absorb
  rcases h with h | h <;> simp [h]

/-- Orders to fire no more go to the controls of awaited links. -/
theorem mem_softOrders {scope : ScopeRun} {c : Channel} {m : Message}
    (h : (c, m) ∈ scope.softOrders) :
    ∃ u ∈ ({ scope with body := none }).awaits, u.control = some c ∧ m = .stop := by
  unfold softOrders at h
  split at h
  · cases h
  · obtain ⟨l, hl, he⟩ := List.mem_map.1 h
    cases he
    exact ⟨l.link, List.mem_append_right _ (List.mem_map_of_mem hl), rfl, rfl⟩

end ScopeRun

/-! ### New scopes -/

/-- The channels of alarms that start together are one range. -/
theorem AlarmRun.channels_freshAll (run : Run) (alarms channel : Nat) :
    ((AlarmRun.freshAll run alarms channel).map AlarmRun.link).flatMap Link.channels =
      List.range' (channel + 2) (3 * alarms) := by
  induction alarms with
  | zero => rfl
  | succ a ih =>
    unfold AlarmRun.freshAll at ih ⊢
    rw [List.range_succ, List.map_append, List.map_append, List.flatMap_append, ih, Nat.mul_succ,
      ← List.range'_append_1]
    rfl

/-- The channels on which alarms that start together report lie above those of the body. -/
theorem AlarmLink.parents_fresh_nodup (channel count : Nat) :
    ((List.range count).map fun i => (AlarmLink.fresh (alarmChannel channel i)).parent).Nodup := by
  refine List.Nodup.map ?_ List.nodup_range
  intro i j h
  have h : channel + 2 + 3 * i = channel + 2 + 3 * j := h
  omega

/-- A new scope is sound. -/
theorem ScopeRun.sound_fresh {s : Script} {run : Run} (hk : ∃ a, s.activity run.activity = .ok a)
    (body : ActivityId) (alarms number channel : Nat) :
    (ScopeRun.fresh run body alarms number channel).Sound s := by
  have hp : (ScopeRun.fresh run body alarms number channel).handlers.map (·.parent) =
      (List.range alarms).map fun i => (AlarmLink.fresh (alarmChannel channel i)).parent := by
    simp [ScopeRun.fresh]
  refine ⟨?_, fun h => (by cases h), hk⟩
  rw [hp]
  refine List.nodup_cons.2 ⟨?_, AlarmLink.parents_fresh_nodup channel alarms⟩
  intro hm
  obtain ⟨i, -, hi⟩ := List.mem_map.1 hm
  have hi : channel + 2 + 3 * i = channel + 1 := hi
  omega

end Perdure
