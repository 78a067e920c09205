import Mathlib.Data.List.Basic
import Mathlib.Logic.Function.Basic
import Perdure.Proofs.Engine.Jobs
import Perdure.Proofs.Engine.Solo
import Perdure.Store.Locks

/-!
# Many at one instance

Runs and renewals of one instance take its lock before they load and give it back after they have
stored.  A run that ends the instance lets the lock be forgotten while it still holds it and others
may wait for it; whoever comes then takes another lock.  Two can be inside at once from that time
on, but the instance is over: runs drop out, and renewals find a state only if the instance is
broken.  If they use one table, which does not lead back to the older shape of requests, all that
write store the same; otherwise they need not, and what is left behind may fit no order.

## Main definitions

* `Contest`, `Contest.run` — any number of jobs at one instance, in the order of a schedule.
* `Contest.Guarded`, `Contest.Undisturbed`, `Contest.Faithful`, `Contest.Serial` — what every move
  keeps.

## Main results

* `Contest.Guarded.eq_of_held` — while the instance is active, locks exclude.
* `Contest.exclusive_and_serial` — nobody interferes, and the records are those of the same jobs one
  after another, where renewals that may overlap agree.
* `Contest.records_ne_serial_farewell` — where they do not, the records may fit no order.
-/

namespace Perdure

/-- How far a job has come. -/
inductive Phase where
  | idle
  /-- It asked for the lock of the instance and was given this one. -/
  | waiting (lock : LockId)
  | holding (lock : LockId)
  | loaded (lock : LockId) (found : Found)
  /-- The end of the instance is stored, and its lock to be forgotten. -/
  | ended (lock : LockId)
  | leaving (lock : LockId)
  | gone

namespace Phase

/-- The lock that a job holds or waits for. -/
def lock? : Phase → Option LockId
  | idle | gone => none
  | waiting lock | holding lock | loaded lock _ | ended lock | leaving lock => some lock

/-- The lock that a job holds. -/
def held? : Phase → Option LockId
  | idle | gone | waiting _ => none
  | holding lock | loaded lock _ | ended lock | leaving lock => some lock

/-- What a job found, if it has loaded and not stored. -/
def found? : Phase → Option Found
  | loaded _ found => some found
  | _ => none

/-- Is the work of the job done? -/
def isDone : Phase → Bool
  | ended _ | leaving _ | gone => true
  | _ => false

theorem lock?_of_held? {p : Phase} {lock : LockId} (h : p.held? = some lock) :
    p.lock? = some lock := by
  cases p <;> first | exact h | cases h

theorem exists_held?_of_found? {p : Phase} {found : Found} (h : p.found? = some found) :
    ∃ lock, p.held? = some lock := by
  cases p <;> first | exact ⟨_, rfl⟩ | cases h

theorem isDone_of_found? {p : Phase} {found : Found} (h : p.found? = some found) :
    p.isDone = false := by
  cases p <;> first | rfl | cases h

end Phase

/-- What is remembered of a contest. -/
inductive Contest.Event (ι : Type) where
  | loaded (i : ι)
  /-- A job did its work: the store before and after it. -/
  | worked (i : ι) (before after : Store)

/-- Jobs at one instance. -/
structure Contest (ι : Type) where
  locks : Locks := {}
  store : Store
  phases : ι → Phase := fun _ => .idle
  /-- What happened, oldest first. -/
  log : List (Contest.Event ι) := []

namespace Contest

variable {ι : Type}

/-- Who did the work, if this is work. -/
def Event.worker? : Event ι → Option ι
  | loaded _ => none
  | worked i _ _ => some i

/-- The store after the work, if this is work. -/
def Event.result? : Event ι → Option Store
  | loaded _ => none
  | worked _ _ after => some after

/-- Those who did their work, in the order in which they did. -/
def order (c : Contest ι) : List ι := c.log.filterMap Event.worker?

/-- The stores that the jobs left behind, in the order in which they did. -/
def results (c : Contest ι) : List Store := c.log.filterMap Event.result?

section

variable [DecidableEq ι]

/-- One job is at a new point. -/
def enter (c : Contest ι) (i : ι) (p : Phase) : Contest ι :=
  { c with phases := Function.update c.phases i p }

/-- One job moves on, unless it waits for a lock that somebody holds. -/
def step (id : InstanceId) (jobs : ι → Job) (c : Contest ι) (i : ι) : Contest ι :=
  match c.phases i with
  | .idle =>
    let (lock, locks) := c.locks.ticket id
    { c with locks }.enter i (.waiting lock)
  | .waiting lock => match c.locks.acquire? lock with
    | none => c
    | some locks => { c with locks }.enter i (.holding lock)
  | .holding lock =>
    { c with log := c.log ++ [Event.loaded i] }.enter i (.loaded lock ((jobs i).load id c.store))
  | .loaded lock found =>
    let (store, forgets) := (jobs i).finish id found c.store
    { c with store, log := c.log ++ [Event.worked i c.store store] }.enter i
      (if forgets then .ended lock else .leaving lock)
  | .ended lock => { c with locks := c.locks.forget id }.enter i (.leaving lock)
  | .leaving lock => { c with locks := c.locks.release lock }.enter i .gone
  | .gone => c

/-- Jobs move on in the order of a schedule, from a store and with no lock given out. -/
def run (id : InstanceId) (jobs : ι → Job) (store : Store) (schedule : List ι) : Contest ι :=
  schedule.foldl (step id jobs) { store }

end

/-- The stores that jobs leave behind when they are done one after another. -/
def serial (id : InstanceId) (jobs : ι → Job) (store : Store) : List ι → List Store
  | [] => []
  | i :: rest => (jobs i).whole id store :: serial id jobs ((jobs i).whole id store) rest

/-- The store after jobs are done one after another. -/
def afterwards (id : InstanceId) (jobs : ι → Job) (store : Store) (order : List ι) : Store :=
  order.foldl (fun s i => (jobs i).whole id s) store

/-- The renewals agree on a table that leads from no new shape to an old one. -/
structure Agree (jobs : ι → Job) (remap : RemapTable) : Prop where
  uses : ∀ i, (jobs i).Uses remap
  onward : ¬ remap.Leads RequestState.managerShape RequestState.listShape

variable {id : InstanceId} {jobs : ι → Job} {store : Store} {remap : RemapTable} {c c' : Contest ι}
  {i j : ι}

theorem serial_concat (order : List ι) (i : ι) :
    serial id jobs store (order ++ [i]) =
      serial id jobs store order ++ [(jobs i).whole id (afterwards id jobs store order)] := by
  induction order generalizing store with
  | nil => rfl
  | cons j rest ih => exact congrArg (_ :: ·) ih

theorem afterwards_concat (order : List ι) (i : ι) :
    afterwards id jobs store (order ++ [i]) =
      (jobs i).whole id (afterwards id jobs store order) :=
  List.foldl_concat ..

/-! ### Locks -/

/-- What the locks are good for. -/
structure Guarded (id : InstanceId) (c : Contest ι) : Prop where
  held : ∀ i lock, (c.phases i).held? = some lock → c.locks.held.contains lock = true
  apart : ∀ i j lock, (c.phases i).held? = some lock → (c.phases j).held? = some lock → i = j
  /-- As long as the instance is active, all have asked for one lock. -/
  entry : c.store.Alive id →
    ∀ i lock, (c.phases i).lock? = some lock → c.locks.entries.get? id = some lock
  /-- The lock is not forgotten before the end is stored. -/
  ended : ∀ i lock, c.phases i = .ended lock → ¬ c.store.Alive id

/-- While the instance is active, one job at most holds a lock. -/
theorem Guarded.eq_of_held (hc : c.Guarded id) (halive : c.store.Alive id) {lock lock' : LockId}
    (hi : (c.phases i).held? = some lock) (hj : (c.phases j).held? = some lock') : i = j := by
  have hlock := hc.entry halive i lock (Phase.lock?_of_held? hi)
  rw [hc.entry halive j lock' (Phase.lock?_of_held? hj)] at hlock
  cases hlock
  exact hc.apart i j lock hi hj

/-- While the instance is active, one job at most has loaded and not stored. -/
theorem Guarded.eq_of_found (hc : c.Guarded id) (halive : c.store.Alive id) {found found' : Found}
    (hi : (c.phases i).found? = some found) (hj : (c.phases j).found? = some found') : i = j := by
  obtain ⟨lock, hlock⟩ := Phase.exists_held?_of_found? hi
  obtain ⟨lock', hlock'⟩ := Phase.exists_held?_of_found? hj
  exact hc.eq_of_held halive hlock hlock'

end Contest

namespace Locks

/-- The lock that is asked for is the lock of the instance then. -/
theorem get?_ticket (l : Locks) (id : InstanceId) :
    (l.ticket id).2.entries.get? id = some (l.ticket id).1 := by
  unfold ticket
  split
  · assumption
  · simp

theorem ticket_of_get? {l : Locks} {id : InstanceId} {lock : LockId}
    (h : l.entries.get? id = some lock) : l.ticket id = (lock, l) := by
  rw [ticket, h]

theorem held_ticket (l : Locks) (id : InstanceId) : (l.ticket id).2.held = l.held := by
  unfold ticket
  split <;> rfl

theorem eq_of_acquire? {l l' : Locks} {lock : LockId} (h : l.acquire? lock = some l') :
    l.held.contains lock = false ∧ l' = { l with held := l.held.add lock } := by
  unfold acquire? at h
  split at h
  · cases h
  · next hfree => exact ⟨Bool.eq_false_of_not_eq_true hfree, (Option.some.inj h).symm⟩

/-- Giving a lock back leaves the others held. -/
theorem contains_held_release {l : Locks} {lock other : LockId} (h : l.held.contains other = true)
    (hne : other ≠ lock) : (l.release lock).held.contains other = true := by
  rw [release, Table.contains, Table.get?_erase, if_neg hne]
  exact h

end Locks

namespace Contest

variable {ι : Type} [DecidableEq ι] {id : InstanceId} {jobs : ι → Job} {store : Store}
  {remap : RemapTable} {c c' : Contest ι} {i j : ι}

omit [DecidableEq ι] in
theorem guarded_start (id : InstanceId) (store : Store) :
    Guarded id ({ store } : Contest ι) where
  held _ _ h := by cases h
  apart _ _ _ h := by cases h
  entry _ _ _ h := by cases h
  ended _ _ h := by cases h

@[simp] theorem phases_enter (c : Contest ι) (i : ι) (p : Phase) (j : ι) :
    (c.enter i p).phases j = if j = i then p else c.phases j := Function.update_apply ..

/-- What a job has to see to that is at a new point: that others hold what they held and that it
holds only what nobody else did, and, as long as the instance is active, that the one lock stays. -/
theorem Guarded.enter (hc : c.Guarded id) {p : Phase} {locks : Locks} {store : Store}
    {log : List (Event ι)}
    (hothers : ∀ lock, c.locks.held.contains lock = true → (c.phases i).held? ≠ some lock →
      locks.held.contains lock = true)
    (hheld : ∀ lock, p.held? = some lock → locks.held.contains lock = true)
    (hown : ∀ lock, p.held? = some lock →
      (c.phases i).held? = some lock ∨ c.locks.held.contains lock = false)
    (halive : store.Alive id → c.store.Alive id)
    (hstays : store.Alive id → ∀ lock, c.locks.entries.get? id = some lock →
      locks.entries.get? id = some lock)
    (hentry : store.Alive id → ∀ lock, p.lock? = some lock → locks.entries.get? id = some lock)
    (hended : ∀ lock, p = .ended lock → ¬ store.Alive id) :
    Guarded id (({ c with locks, store, log } : Contest ι).enter i p) := by
  have hforeign (j : ι) (hj : j ≠ i) (lock : LockId) (h : (c.phases j).held? = some lock)
      (hp : p.held? = some lock) : False := by
    rcases hown lock hp with hi | hfree
    · exact hj (hc.apart j i lock h hi)
    · rw [hc.held j lock h] at hfree
      cases hfree
  refine ⟨fun j lock h => ?_, fun j k lock hj hk => ?_, fun ha j lock h => ?_,
    fun j lock h ha => ?_⟩
  · rw [phases_enter] at h
    split at h
    · exact hheld lock h
    · next hj => exact hothers lock (hc.held j lock h) fun hi => hj (hc.apart j i lock h hi)
  · rw [phases_enter] at hj hk
    split at hj <;> split at hk
    · next hji hki => rw [hji, hki]
    · next hki => exact (hforeign k hki lock hk hj).elim
    · next hji _ => exact (hforeign j hji lock hj hk).elim
    · exact hc.apart j k lock hj hk
  · rw [phases_enter] at h
    split at h
    · exact hentry ha lock h
    · exact hstays ha lock (hc.entry (halive ha) j lock h)
  · rw [phases_enter] at h
    split at h
    · exact hended lock h ha
    · exact hc.ended j lock h (halive ha)

/-- A job that goes on holding its lock sees to it, if it makes no instance active. -/
theorem Guarded.enter_held (hc : c.Guarded id) {p q : Phase} {lock : LockId} {store : Store}
    {log : List (Event ι)} (hp : c.phases i = q) (hheld : q.held? = some lock)
    (hstill : p.held? = some lock) (halive : store.Alive id → c.store.Alive id)
    (hended : ∀ other, p = .ended other → ¬ store.Alive id) :
    Guarded id (({ c with store, log } : Contest ι).enter i p) := by
  rw [← hp] at hheld
  have hown (other : LockId) (h : p.held? = some other) : (c.phases i).held? = some other := by
    rw [hheld, ← hstill, h]
  refine hc.enter (fun _ h _ => h) (fun other h => hc.held i other (hown other h))
    (fun other h => .inl (hown other h)) halive (fun _ _ h => h) (fun ha other h => ?_) hended
  have hlock := Phase.lock?_of_held? hstill
  rw [hlock] at h
  cases h
  exact hc.entry (halive ha) i lock (Phase.lock?_of_held? hheld)

theorem guarded_step (hc : c.Guarded id) (i : ι) : (c.step id jobs i).Guarded id := by
  unfold step
  split
  · change Guarded id (({ c with locks := (c.locks.ticket id).2 } : Contest ι).enter i _)
    refine hc.enter (fun lock h _ => ?_) nofun nofun (fun ha => ha) (fun _ lock h => ?_)
      (fun _ lock h => ?_) nofun
    · rw [Locks.held_ticket]
      exact h
    · rw [Locks.ticket_of_get? h]
      exact h
    · cases h
      exact Locks.get?_ticket c.locks id
  · next lock hp =>
    split
    · exact hc
    · next hacquire =>
      obtain ⟨hfree, rfl⟩ := Locks.eq_of_acquire? hacquire
      refine hc.enter (fun other h _ => ?_) (fun other h => ?_) (fun other h => ?_) (fun ha => ha)
        (fun _ _ h => h) (fun ha other h => hc.entry ha i other (by rw [hp]; exact h)) nofun
      · rw [KeySet.contains_add, h, Bool.or_true]
      · cases h
        rw [KeySet.contains_add, decide_eq_true rfl, Bool.true_or]
      · cases h
        exact .inr hfree
  · next lock hp => exact hc.enter_held hp rfl rfl (fun ha => ha) nofun
  · next lock found hp =>
    have halive := @Job.alive_of_finish id (jobs i) found c.store
    have hover := @Job.not_alive_of_finish id (jobs i) found c.store
    dsimp only
    split
    · next hforgets => exact hc.enter_held hp rfl rfl halive fun _ _ => hover hforgets
    · exact hc.enter_held hp rfl rfl halive nofun
  · next lock hp =>
    -- the end is stored, so that it does not matter which lock the next one takes
    have hover := hc.ended i lock hp
    refine hc.enter (fun _ h _ => h) (fun other h => hc.held i other (by rw [hp]; exact h))
      (fun other h => .inl (by rw [hp]; exact h)) (fun ha => ha) (fun ha => absurd ha hover)
      (fun ha => absurd ha hover) nofun
  · next lock hp =>
    refine hc.enter (fun other h hne => ?_) nofun nofun (fun ha => ha) (fun _ _ h => h) nofun nofun
    exact Locks.contains_held_release h fun he => hne (by rw [hp, he]; rfl)
  · exact hc

/-- What holds at first and is kept by every move holds after every schedule. -/
theorem run_induction {P : Contest ι → Prop} (hstart : P { store })
    (hstep : ∀ past i, P (run id jobs store past) → P ((run id jobs store past).step id jobs i))
    (schedule : List ι) : P (run id jobs store schedule) := by
  induction schedule using List.reverseRecOn with
  | nil => exact hstart
  | append_singleton past i ih =>
    rw [run, List.foldl_concat]
    exact hstep past i ih

theorem guarded_run (id : InstanceId) (jobs : ι → Job) (store : Store) (schedule : List ι) :
    (run id jobs store schedule).Guarded id :=
  run_induction (guarded_start id store) (fun _ i h => guarded_step h i) schedule

/-! ### Loading and storing -/

/-- Nothing is loaded and nothing stored. -/
structure Quiet (c c' : Contest ι) : Prop where
  store : c'.store = c.store
  log : c'.log = c.log
  found : ∀ j, (c'.phases j).found? = (c.phases j).found?
  done : ∀ j, (c'.phases j).isDone = (c.phases j).isDone

/-- A job loads. -/
structure Loads (id : InstanceId) (jobs : ι → Job) (i : ι) (c c' : Contest ι) : Prop where
  store : c'.store = c.store
  log : c'.log = c.log ++ [Event.loaded i]
  unloaded : (c.phases i).found? = none
  undone : (c.phases i).isDone = false
  found : ∀ j, (c'.phases j).found? =
    if j = i then some ((jobs i).load id c.store) else (c.phases j).found?
  done : ∀ j, (c'.phases j).isDone = (c.phases j).isDone

/-- A job does its work. -/
structure Works (id : InstanceId) (jobs : ι → Job) (i : ι) (found : Found) (c c' : Contest ι) :
    Prop where
  store : c'.store = ((jobs i).finish id found c.store).1
  log : c'.log = c.log ++ [Event.worked i c.store c'.store]
  loaded : (c.phases i).found? = some found
  found : ∀ j, (c'.phases j).found? = if j = i then none else (c.phases j).found?
  done : ∀ j, (c'.phases j).isDone = (decide (j = i) || (c.phases j).isDone)

theorem quiet_enter {p : Phase} (locks : Locks) (hfound : p.found? = (c.phases i).found?)
    (hdone : p.isDone = (c.phases i).isDone) : Quiet c ({ c with locks }.enter i p) where
  store := rfl
  log := rfl
  found j := by
    rw [phases_enter]
    split
    · next hj => rw [hfound, hj]
    · rfl
  done j := by
    rw [phases_enter]
    split
    · next hj => rw [hdone, hj]
    · rfl

/-- What a move can be, as far as the store goes. -/
theorem step_cases (id : InstanceId) (jobs : ι → Job) (c : Contest ι) (i : ι) :
    Quiet c (c.step id jobs i) ∨ Loads id jobs i c (c.step id jobs i) ∨
      ∃ found, Works id jobs i found c (c.step id jobs i) := by
  have hstays : Quiet c c := ⟨rfl, rfl, fun _ => rfl, fun _ => rfl⟩
  unfold step
  split
  · next hp => exact .inl (quiet_enter _ (by rw [hp]; rfl) (by rw [hp]; rfl))
  · next hp =>
    split
    · exact .inl hstays
    · exact .inl (quiet_enter _ (by rw [hp]; rfl) (by rw [hp]; rfl))
  · next hp =>
    refine .inr (.inl ⟨rfl, rfl, by rw [hp]; rfl, by rw [hp]; rfl, fun j => ?_, fun j => ?_⟩) <;>
      grind [phases_enter, Phase.found?, Phase.isDone]
  · next hp =>
    refine .inr (.inr ⟨_, rfl, rfl, by rw [hp]; rfl, fun j => ?_, fun j => ?_⟩) <;>
      grind [phases_enter, Phase.found?, Phase.isDone]
  · next hp => exact .inl (quiet_enter _ (by rw [hp]; rfl) (by rw [hp]; rfl))
  · next hp => exact .inl (quiet_enter _ (by rw [hp]; rfl) (by rw [hp]; rfl))
  · exact .inl hstays

/-! ### Loads that are stale -/

/-- Of two lists with a last entry the one is part of the other if its last entry is used there or
not. -/
theorem concat_sublist_concat {α : Type} {l l' : List α} {a b : α} :
    (l ++ [a]).Sublist (l' ++ [b]) ↔ (l ++ [a]).Sublist l' ∨ a = b ∧ l.Sublist l' := by
  constructor
  · intro h
    have hreverse : (a :: l.reverse).Sublist (b :: l'.reverse) := by simpa using h.reverse
    cases hreverse with
    | cons _ h => exact .inl (by simpa using h.reverse)
    | cons_cons _ h => exact .inr ⟨rfl, by simpa using h.reverse⟩
  · rintro (h | ⟨rfl, h⟩)
    · exact h.trans (List.sublist_append_left ..)
    · exact h.append_right [a]

theorem pair_sublist_concat {α : Type} {l : List α} {a b d : α} :
    [a, b].Sublist (l ++ [d]) ↔ [a, b].Sublist l ∨ b = d ∧ [a].Sublist l :=
  concat_sublist_concat (l := [a])

theorem triple_sublist_concat {α : Type} {l : List α} {a b b' d : α} :
    [a, b, b'].Sublist (l ++ [d]) ↔ [a, b, b'].Sublist l ∨ b' = d ∧ [a, b].Sublist l :=
  concat_sublist_concat (l := [a, b])

/-- Nobody has done work at the active instance between a load and the work that goes with it. -/
structure Undisturbed (id : InstanceId) (c : Contest ι) : Prop where
  unloaded : ∀ i, (c.phases i).found? = none → (c.phases i).isDone = false → Event.loaded i ∉ c.log
  fresh : ∀ i j before after, i ≠ j → before.Alive id → ((c.phases i).found?).isSome →
    ¬ [Event.loaded i, .worked j before after].Sublist c.log
  kept : ∀ i j before after before' after', i ≠ j → before.Alive id →
    ¬ [Event.loaded i, .worked j before after, .worked i before' after'].Sublist c.log

omit [DecidableEq ι] in
theorem undisturbed_start (id : InstanceId) (store : Store) :
    Undisturbed id ({ store } : Contest ι) where
  unloaded _ _ _ := List.not_mem_nil
  fresh _ _ _ _ _ _ h := by cases h
  kept _ _ _ _ _ _ _ _ h := by cases h

theorem Undisturbed.loads (hc : c.Undisturbed id) (hl : Loads id jobs i c c') :
    c'.Undisturbed id where
  unloaded k hfound hdone hmem := by
    rw [hl.found] at hfound
    rw [hl.done] at hdone
    rw [hl.log, List.mem_append, List.mem_singleton] at hmem
    split at hfound
    · cases hfound
    · next hk =>
      rcases hmem with hmem | he
      · exact hc.unloaded k hfound hdone hmem
      · cases he
        exact hk rfl
  fresh k j before after hne halive hfound hpair := by
    rw [hl.log, pair_sublist_concat] at hpair
    rcases hpair with hpair | ⟨he, -⟩
    · rw [hl.found] at hfound
      split at hfound
      · next hk =>
        subst hk
        exact hc.unloaded k hl.unloaded hl.undone (hpair.subset List.mem_cons_self)
      · exact hc.fresh k j before after hne halive hfound hpair
    · cases he
  kept k j before after before' after' hne halive htriple := by
    rw [hl.log, triple_sublist_concat] at htriple
    rcases htriple with htriple | ⟨he, -⟩
    · exact hc.kept k j before after before' after' hne halive htriple
    · cases he

theorem Undisturbed.works {found : Found} (hg : c.Guarded id) (hc : c.Undisturbed id)
    (hw : Works id jobs i found c c') : c'.Undisturbed id where
  unloaded k hfound hdone hmem := by
    rw [hw.done, Bool.or_eq_false_iff, decide_eq_false_iff_not] at hdone
    rw [hw.found, if_neg hdone.1] at hfound
    rw [hw.log, List.mem_append, List.mem_singleton] at hmem
    rcases hmem with hmem | he
    · exact hc.unloaded k hfound hdone.2 hmem
    · cases he
  fresh k j before after hne halive hfound hpair := by
    rw [hw.log, pair_sublist_concat] at hpair
    rw [hw.found] at hfound
    split at hfound
    · cases hfound
    · rcases hpair with hpair | ⟨he, -⟩
      · exact hc.fresh k j before after hne halive hfound hpair
      · -- both have loaded and not stored
        cases he
        obtain ⟨found', hfound⟩ := Option.isSome_iff_exists.1 hfound
        exact hne (hg.eq_of_found halive hfound hw.loaded)
  kept k j before after before' after' hne halive htriple := by
    rw [hw.log, triple_sublist_concat] at htriple
    rcases htriple with htriple | ⟨he, hpair⟩
    · exact hc.kept k j before after before' after' hne halive htriple
    · cases he
      exact hc.fresh i j before after hne halive (by rw [hw.loaded]; rfl) hpair

theorem undisturbed_step (hg : c.Guarded id) (hc : c.Undisturbed id) (i : ι) :
    (c.step id jobs i).Undisturbed id := by
  rcases step_cases id jobs c i with hq | hl | ⟨found, hw⟩
  · exact ⟨fun k => by rw [hq.found, hq.done, hq.log]; exact hc.unloaded k,
      fun k => by rw [hq.found, hq.log]; exact hc.fresh k, by rw [hq.log]; exact hc.kept⟩
  · exact hc.loads hl
  · exact hc.works hg hw

/-- Whoever has loaded has loaded what stands there, or the instance was over by then; and all work
that was done at the active instance is that of the whole job. -/
structure Faithful (id : InstanceId) (jobs : ι → Job) (c : Contest ι) : Prop where
  current : ∀ i found, (c.phases i).found? = some found →
    ∃ s, found = (jobs i).load id s ∧ (s = c.store ∨ ¬ s.Alive id ∧ ¬ c.store.Alive id)
  whole : ∀ i before after, .worked i before after ∈ c.log → before.Alive id →
    after = (jobs i).whole id before

theorem faithful_step (hg : c.Guarded id) (hc : c.Faithful id jobs) (i : ι) :
    (c.step id jobs i).Faithful id jobs := by
  rcases step_cases id jobs c i with hq | hl | ⟨found, hw⟩
  · exact ⟨fun k => by rw [hq.found, hq.store]; exact hc.current k, by rw [hq.log]; exact hc.whole⟩
  · refine ⟨fun k found hfound => ?_, fun k before after hmem => ?_⟩
    · rw [hl.store]
      rw [hl.found] at hfound
      split at hfound
      · next hk =>
        cases hfound
        exact ⟨c.store, by rw [hk], .inl rfl⟩
      · exact hc.current k found hfound
    · rw [hl.log, List.mem_append, List.mem_singleton] at hmem
      exact hc.whole k before after (hmem.resolve_right nofun)
  · refine ⟨fun k found' hfound => ?_, fun k before after hmem halive => ?_⟩
    · rw [hw.found] at hfound
      split at hfound
      · cases hfound
      · next hk =>
        -- two have loaded, so the instance is over
        have hover : ¬ c.store.Alive id := fun halive => hk (hg.eq_of_found halive hfound hw.loaded)
        have hover' : ¬ (c.step id jobs i).store.Alive id := fun halive =>
          hover (Job.alive_of_finish (hw.store ▸ halive))
        obtain ⟨s, hload, rfl | ⟨hs, -⟩⟩ := hc.current k found' hfound
        · exact ⟨c.store, hload, .inr ⟨hover, hover'⟩⟩
        · exact ⟨s, hload, .inr ⟨hs, hover'⟩⟩
    · rw [hw.log, List.mem_append, List.mem_singleton] at hmem
      rcases hmem with hmem | he
      · exact hc.whole k before after hmem halive
      · cases he
        obtain ⟨s, rfl, rfl | ⟨-, hover⟩⟩ := hc.current i found hw.loaded
        · rw [hw.store, Job.finish_load]
        · exact absurd halive hover

/-- Work at an instance that is over changes nothing, or a state is there afterwards. -/
theorem Faithful.eq_or_lingers_works (hc : c.Faithful id jobs) {found : Found}
    (hw : Works id jobs i found c c') (hover : ¬ c.store.Alive id) :
    c'.store = c.store ∨ c'.store.Lingers id := by
  rw [hw.store]
  obtain ⟨s, rfl, rfl | ⟨hs, -⟩⟩ := hc.current i found hw.loaded
  · exact Job.eq_or_lingers_finish hover hover
  · exact Job.eq_or_lingers_finish hs hover

/-- The state of an instance that is over is not taken away. -/
theorem Faithful.lingers_step (hc : c.Faithful id jobs) (h : c.store.Lingers id) (i : ι) :
    (c.step id jobs i).store.Lingers id := by
  rcases step_cases id jobs c i with hq | hl | ⟨found, hw⟩
  · exact hq.store ▸ h
  · exact hl.store ▸ h
  · rcases hc.eq_or_lingers_works hw h.not_alive with hsame | hlingers
    · exact hsame ▸ h
    · exact hlingers

/-! ### One after another -/

/-- Those who did their work are remembered once each. -/
structure Ordered (c : Contest ι) : Prop where
  nodup : c.order.Nodup
  mem_iff : ∀ i, i ∈ c.order ↔ (c.phases i).isDone = true

/-- What was stored is what the jobs store one after another, and whoever has loaded will store what
it would if it had loaded now. -/
structure Serial (id : InstanceId) (jobs : ι → Job) (remap : RemapTable) (start : Store)
    (c : Contest ι) : Prop where
  store : c.store = afterwards id jobs start c.order
  results : c.results = serial id jobs start c.order
  current : ∀ i found, (c.phases i).found? = some found →
    ∃ s, found = (jobs i).load id s ∧ (s = c.store ∨ Agree jobs remap ∧ s.Renewed remap id c.store)

theorem order_loads (hl : Loads id jobs i c c') : c'.order = c.order := by
  rw [order, hl.log, List.filterMap_append]
  exact List.append_nil _

theorem results_loads (hl : Loads id jobs i c c') : c'.results = c.results := by
  rw [results, hl.log, List.filterMap_append]
  exact List.append_nil _

theorem order_works {found : Found} (hw : Works id jobs i found c c') :
    c'.order = c.order ++ [i] := by
  rw [order, hw.log, List.filterMap_append]
  rfl

theorem results_works {found : Found} (hw : Works id jobs i found c c') :
    c'.results = c.results ++ [c'.store] := by
  rw [results, hw.log, List.filterMap_append]
  rfl

theorem ordered_step (hc : c.Ordered) (i : ι) : (c.step id jobs i).Ordered := by
  obtain ⟨nodup, mem_iff⟩ := hc
  rcases step_cases id jobs c i with hq | hl | ⟨found, hw⟩
  · exact ⟨by rw [order, hq.log]; exact nodup,
      fun j => by rw [order, hq.log, hq.done]; exact mem_iff j⟩
  · exact ⟨by rw [order_loads hl]; exact nodup,
      fun j => by rw [order_loads hl, hl.done]; exact mem_iff j⟩
  · have hnew : i ∉ c.order := fun hi => by
      rw [mem_iff, Phase.isDone_of_found? hw.loaded] at hi
      cases hi
    refine ⟨?_, fun j => ?_⟩
    · rw [order_works hw]
      exact List.nodup_append.2 ⟨nodup, List.nodup_singleton i, fun j hj k hk =>
        List.mem_singleton.1 hk ▸ fun he => hnew (he ▸ hj)⟩
    · rw [order_works hw, hw.done, List.mem_append, List.mem_singleton, mem_iff, Bool.or_eq_true,
        decide_eq_true_iff, or_comm]

omit [DecidableEq ι] in
/-- Whoever has loaded will store what the whole job would now. -/
theorem Serial.finish_eq (hc : c.Serial id jobs remap store) {found : Found}
    (hi : (c.phases i).found? = some found) :
    ((jobs i).finish id found c.store).1 = (jobs i).whole id c.store := by
  obtain ⟨s, rfl, rfl | ⟨hagree, hrenewed⟩⟩ := hc.current i found hi
  · exact Job.finish_load ..
  · exact Job.finish_of_renewed hagree.onward (hagree.uses i) hrenewed

/-- A load stays current when another job does its work.  At an active instance there is no such
load; at one that is over the work renews at most, and only if there is a state. -/
theorem Serial.current_works (hg : c.Guarded id) (hf : c.Faithful id jobs)
    (hc : c.Serial id jobs remap store) {found : Found} (hw : Works id jobs i found c c')
    (h : c'.store.Lingers id → Agree jobs remap) {found' : Found}
    (hj : (c'.phases j).found? = some found') :
    ∃ s, found' = (jobs j).load id s ∧
      (s = c'.store ∨ Agree jobs remap ∧ s.Renewed remap id c'.store) := by
  rw [hw.found] at hj
  split at hj
  · cases hj
  · next hne =>
    have hover : ¬ c.store.Alive id := fun halive => hne (hg.eq_of_found halive hj hw.loaded)
    rcases hf.eq_or_lingers_works hw hover with hsame | hlingers
    · rw [hsame]
      exact hc.current j found' hj
    · have hagree := h hlingers
      have hwork : c.store.Renewed remap id c'.store := by
        rw [hw.store, hc.finish_eq hw.loaded]
        exact Job.renewed_whole (hagree.uses i) hover
      obtain ⟨s, hfound, rfl | ⟨-, hrenewed⟩⟩ := hc.current j found' hj
      · exact ⟨c.store, hfound, .inr ⟨hagree, hwork⟩⟩
      · exact ⟨s, hfound, .inr ⟨hagree, hrenewed.trans hagree.onward hwork⟩⟩

theorem serial_step (hg : c.Guarded id) (hf : c.Faithful id jobs)
    (hc : c.Serial id jobs remap store) {i : ι}
    (h : (c.step id jobs i).store.Lingers id → Agree jobs remap) :
    (c.step id jobs i).Serial id jobs remap store := by
  rcases step_cases id jobs c i with hq | hl | ⟨found, hw⟩
  · exact ⟨by rw [order, hq.log, hq.store]; exact hc.store,
      by rw [results, order, hq.log]; exact hc.results,
      fun j found => by rw [hq.found, hq.store]; exact hc.current j found⟩
  · refine ⟨by rw [order_loads hl, hl.store]; exact hc.store,
      by rw [results_loads hl, order_loads hl]; exact hc.results, fun j found hj => ?_⟩
    rw [hl.found] at hj
    rw [hl.store]
    split at hj
    · next he =>
      cases hj
      exact ⟨c.store, by rw [he], .inl rfl⟩
    · exact hc.current j found hj
  · have hwhole := hw.store.trans (hc.finish_eq hw.loaded)
    rw [hc.store] at hwhole
    refine ⟨?_, ?_, fun j found' => hc.current_works hg hf hw h⟩
    · rw [order_works hw, afterwards_concat]
      exact hwhole
    · rw [order_works hw, results_works hw, serial_concat, hc.results, hwhole]

/-! ### Runs -/

theorem undisturbed_run (id : InstanceId) (jobs : ι → Job) (store : Store) (schedule : List ι) :
    (run id jobs store schedule).Undisturbed id :=
  run_induction (undisturbed_start id store)
    (fun past i h => undisturbed_step (guarded_run id jobs store past) h i) schedule

theorem faithful_run (id : InstanceId) (jobs : ι → Job) (store : Store) (schedule : List ι) :
    (run id jobs store schedule).Faithful id jobs :=
  run_induction ⟨nofun, fun _ _ _ h => absurd h List.not_mem_nil⟩
    (fun past i h => faithful_step (guarded_run id jobs store past) h i) schedule

theorem ordered_run (id : InstanceId) (jobs : ι → Job) (store : Store) (schedule : List ι) :
    (run id jobs store schedule).Ordered :=
  run_induction ⟨List.nodup_nil, fun _ => ⟨nofun, nofun⟩⟩ (fun _ i h => ordered_step h i) schedule

theorem serial_run (id : InstanceId) (jobs : ι → Job) (remap : RemapTable) (store : Store)
    (schedule : List ι) :
    ((run id jobs store schedule).store.Lingers id → Agree jobs remap) →
      (run id jobs store schedule).Serial id jobs remap store := by
  refine run_induction (P := fun c => (c.store.Lingers id → Agree jobs remap) →
    c.Serial id jobs remap store) (fun _ => ⟨rfl, rfl, nofun⟩) (fun past i ih h => ?_) schedule
  have hfaithful := faithful_run id jobs store past
  exact serial_step (guarded_run id jobs store past) hfaithful
    (ih fun hlingers => h (hfaithful.lingers_step hlingers i)) h

/-- **Whatever the order in which runs and renewals of one instance move on**, no two of them have
loaded and not stored while the instance is active; none does its work from what it loaded before
another did its own at the active instance; what is done at the active instance is what the whole
job would do there; and the stores that they leave behind are those of the same jobs done one after
another, each once, provided that the renewals agree where they may overlap.  They may once the
instance is over and its lock forgotten, and if it is broken they find a state there. -/
theorem exclusive_and_serial (id : InstanceId) (jobs : ι → Job) (store : Store)
    (schedule : List ι) :
    let c := run id jobs store schedule
    (c.store.Alive id → ∀ i j, ((c.phases i).found?).isSome → ((c.phases j).found?).isSome → i = j) ∧
      (∀ i j before after before' after', i ≠ j → before.Alive id →
        ¬ [Event.loaded i, .worked j before after, .worked i before' after'].Sublist c.log) ∧
      (∀ i before after, .worked i before after ∈ c.log → before.Alive id →
        after = (jobs i).whole id before) ∧
      c.order.Nodup ∧ (∀ i, i ∈ c.order ↔ (c.phases i).isDone = true) ∧
      ∀ remap, (c.store.Lingers id → Agree jobs remap) →
        c.results = serial id jobs store c.order ∧ c.store = afterwards id jobs store c.order := by
  intro c
  have hordered := ordered_run id jobs store schedule
  refine ⟨fun halive i j hi hj => ?_, (undisturbed_run id jobs store schedule).kept,
    (faithful_run id jobs store schedule).whole, hordered.nodup, hordered.mem_iff,
    fun remap h => ?_⟩
  · obtain ⟨found, hi⟩ := Option.isSome_iff_exists.1 hi
    obtain ⟨found', hj⟩ := Option.isSome_iff_exists.1 hj
    exact (guarded_run id jobs store schedule).eq_of_found halive hi hj
  · have hserial := serial_run id jobs remap store schedule h
    exact ⟨hserial.results, hserial.store⟩

/-! ### A lock that is forgotten while somebody waits for it -/

/-- The run ends the instance while job 1 waits.  Job 2 comes after the lock is forgotten and takes
another one; both load before either of them stores. -/
def overlap : List (Fin 3) := [0, 1, 0, 0, 0, 0, 2, 2, 2, 0, 1, 1, 2, 1]

omit [DecidableEq ι] in
theorem length_serial (id : InstanceId) (jobs : ι → Job) (store : Store) (order : List ι) :
    (serial id jobs store order).length = order.length := by
  induction order generalizing store with
  | nil => rfl
  | cons i rest ih => exact congrArg (· + 1) (ih _)

/-- What three jobs do in this order if the first lets the lock be forgotten: the others make what
they store of what it left. -/
theorem log_overlap {jobs : Fin 3 → Job} {ended : Store}
    (h : (jobs 0).finish id ((jobs 0).load id store) store = (ended, true)) :
    let second := (jobs 2).whole id ended
    (run id jobs store overlap).log = [.loaded 0, .worked 0 store ended, .loaded 2, .loaded 1,
      .worked 2 ended second,
      .worked 1 second ((jobs 1).finish id ((jobs 1).load id ended) second).1] := by
  have hentries : (∅ : Table InstanceId LockId).get? id = none := rfl
  have hheld (lock : LockId) : (∅ : KeySet LockId).get? lock = none := rfl
  rw [← Job.finish_load]
  simp [run, overlap, step, enter, h, hentries, hheld, Locks.ticket, Locks.acquire?, Locks.forget,
    Locks.release, Table.contains, KeySet.add]

/-- A soup in which nobody listens, with a message left over. -/
def leftover (m : Message) (requests : RequestState) : InstanceSoup :=
  { global := { requests }, messages := Table.ofList [(9, [m])] }

variable {t u : RemapTable}

theorem leftover_fits {m : Message} (hm : m.Fits) {requests : RequestState}
    (hr : requests.Fits) : Soup.Fits Instant.Valid (leftover m requests) where
  global := { root := nofun, requests := hr }
  nextChannel := Nat.one_lt_two_pow (by decide)
  nextMonotonic := Nat.one_lt_two_pow (by decide)
  runnables := nofun
  choices := nofun
  messages e he := by
    cases List.mem_singleton.1 he
    exact ⟨show 9 < 2 ^ 64 by decide, fun q hq => List.mem_singleton.1 hq ▸ hm⟩
  closed := nofun
  timers := nofun

/-- Different soups of this kind have different states. -/
theorem leftover_inj {m n : Message} {q r : RequestState}
    (hm : Soup.Fits Instant.Valid (leftover m q)) (hn : Soup.Fits Instant.Valid (leftover n r))
    (h : Checkpoint.write (leftover m q) = Checkpoint.write (leftover n r)) : m = n ∧ q = r := by
  have hread := Checkpoint.read_write hm
  rw [h, Checkpoint.read_write hn] at hread
  injection hread with hsoup
  injection hsoup with hglobal _ _ _ _ hmessages
  cases hmessages
  cases hglobal
  exact ⟨rfl, rfl⟩

/-- The state of an instance of this kind that keeps its requests in a list. -/
def strandedState : List UInt8 :=
  Checkpoint.write (leftover .timeout (.list Migration.vigilRequests))

theorem stranded_fits :
    Soup.Fits Instant.Valid (leftover .timeout (.list Migration.vigilRequests)) :=
  leftover_fits (m := .timeout) trivial
    (show ∀ r ∈ Migration.vigilRequests, r.channel < 2 ^ 64 by decide)

/-- An instance in which nobody listens. -/
def stranded : Store := Store.empty.insert (Migration.vigilRecord 1 strandedState)

/-- The record of the instance once it is found out. -/
def brokenRecord (state : List UInt8) : Record :=
  { Migration.vigilRecord 1 state with status := .broken, fault := some Engine.strandedReason }

theorem brokenRecord_inj {a b : List UInt8} (h : brokenRecord a = brokenRecord b) : a = b :=
  Option.some.inj (congrArg Record.state h)

/-- A run and two renewals with these tables. -/
def farewell (t u : RemapTable) : Fin 3 → Job
  | 0 => { errand := .run vigils (fun _ => ⟨0, 0⟩) .start }
  | 1 => { errand := .renew t }
  | 2 => { errand := .renew u }

/-- The run finds out that nobody listens, and ends the instance. -/
theorem finish_stranded : (farewell t u 0).finish 1 ((farewell t u 0).load 1 stranded) stranded =
    (stranded.insert (brokenRecord strandedState), true) := by
  have hr : stranded.get? 1 = some (Migration.vigilRecord 1 strandedState) := rfl
  have hd : vigils.processes.get? "vigil" =
      some ⟨Script.vigil, Table.ofList [("wait", "wait-activity")]⟩ := by rfl
  have hread := Checkpoint.read_write_of_spares (vigils_fits.remap hd) stranded_fits
  have hsettle : (Engine.settle ⟨0, 0⟩ 1 ⟨leftover .timeout (.list Migration.vigilRequests), 0⟩).perform
      { store := stranded } = _ := Engine.perform_settle rfl hr _ rfl rfl
  have hreduce : (vigils.reduceBy (fun _ => ⟨0, 0⟩) 1 .start).perform { store := stranded } = _ :=
    Engine.perform_reduce rfl hr rfl hd hread .start
  refine (Job.finish_load_run hr).trans ?_
  rw [hreduce.trans hsettle]
  rfl

/-- What a renewal makes of a state, whether or not it stores it. -/
def renewal (t : RemapTable) (b : List UInt8) : List UInt8 :=
  match Migration.renewed? t b with
  | .ok (some new) => new
  | _ => b

theorem ofRecord_brokenRecord (t : RemapTable) (b : List UInt8) :
    (Migration.ofRecord t (brokenRecord b)).2 = brokenRecord (renewal t b) := by
  unfold Migration.ofRecord renewal
  rw [show (brokenRecord b).state = some b from rfl, Option.map_some]
  rcases Migration.renewed? t b with _ | _ | _ <;> rfl

theorem renewal_of_renewed {b x : List UInt8} (h : Migration.renewed? t b = .ok (some x)) :
    renewal t b = x := by
  rw [renewal, h]

/-- A renewal as a whole renews the state of the instance. -/
theorem get?_whole_broken {s : Store} {b : List UInt8} (hs : s.get? 1 = some (brokenRecord b))
    (t : RemapTable) : (Job.whole 1 { errand := .renew t } s).get? 1 =
      some (brokenRecord (renewal t b)) := by
  rw [Job.get?_whole_renew hs, ofRecord_brokenRecord]

/-- The records that are left behind in this order. -/
theorem records_overlap {x y : List UInt8}
    (ht : Migration.renewed? t strandedState = .ok (some x))
    (hu : Migration.renewed? u strandedState = .ok (some y)) :
    (run 1 (farewell t u) stranded overlap).results.map (·.get? 1) =
      [some (brokenRecord strandedState), some (brokenRecord y), some (brokenRecord x)] := by
  have hended : (stranded.insert (brokenRecord strandedState)).get? 1 =
      some (brokenRecord strandedState) := rfl
  have hsecond := get?_whole_broken hended u
  rw [renewal_of_renewed hu] at hsecond
  have hthird := Job.finish_renew hended rfl ht hsecond
  rw [results, log_overlap finish_stranded]
  refine congrArg₂ List.cons hended (congrArg₂ List.cons hsecond (congrArg (fun a => [a]) ?_))
  exact (congrArg (·.get? 1) hthird).trans (Store.get?_insert_self _ rfl)

/-- The records that are left behind when the run comes first and then one renewal after the
other. -/
theorem records_serial {j k : Fin 3} {t' u' : RemapTable}
    (hj : farewell t u j = { errand := .renew t' }) (hk : farewell t u k = { errand := .renew u' }) :
    (serial 1 (farewell t u) stranded [0, j, k]).map (·.get? 1) =
      [some (brokenRecord strandedState), some (brokenRecord (renewal t' strandedState)),
        some (brokenRecord (renewal u' (renewal t' strandedState)))] := by
  have hwhole : (farewell t u 0).whole 1 stranded = stranded.insert (brokenRecord strandedState) := by
    rw [← Job.finish_load, finish_stranded]
  have hended : (stranded.insert (brokenRecord strandedState)).get? 1 =
      some (brokenRecord strandedState) := rfl
  have hsecond := get?_whole_broken hended t'
  simp only [serial, List.map_cons, List.map_nil, hwhole, hj, hk]
  rw [hended, hsecond, get?_whole_broken hsecond]

/-- The three jobs leave behind in this order what they do in no order one after another, if a
renewal that came second would have found something else to store. -/
theorem records_ne_serial {x y : List UInt8}
    (ht : Migration.renewed? t strandedState = .ok (some x))
    (hu : Migration.renewed? u strandedState = .ok (some y))
    (htu : x = y → renewal u x ≠ x) (hut : renewal t y ≠ x) {order : List (Fin 3)}
    (horder : order.Nodup) :
    (run 1 (farewell t u) stranded overlap).results.map (·.get? 1) ≠
      (serial 1 (farewell t u) stranded order).map (·.get? 1) := by
  intro he
  rw [records_overlap ht hu] at he
  have hlength := congrArg List.length he
  rw [List.length_map, length_serial] at hlength
  obtain ⟨i, j, k, rfl⟩ := List.length_eq_three.1 hlength.symm
  have hfirst : i = 0 := by
    -- a renewal that comes first leaves the instance active
    have hactive (t' : RemapTable) : (Job.whole 1 { errand := .renew t' } stranded).get? 1 ≠
        some (brokenRecord strandedState) := by
      have hr : stranded.get? 1 = some (Migration.vigilRecord 1 strandedState) := rfl
      obtain ⟨state, hstate⟩ := Migration.exists_ofRecord t' (Migration.vigilRecord 1 strandedState)
      rw [Job.get?_whole_renew hr, hstate]
      exact fun h => nomatch congrArg Record.status (Option.some.inj h)
    have hhead := (List.cons.inj he).1.symm
    match i with
    | 0 => rfl
    | 1 => exact absurd hhead (hactive t)
    | 2 => exact absurd hhead (hactive u)
  subst hfirst
  have hothers : ∀ j k : Fin 3, [0, j, k].Nodup → j = 1 ∧ k = 2 ∨ j = 2 ∧ k = 1 := by decide
  rcases hothers j k horder with ⟨rfl, rfl⟩ | ⟨rfl, rfl⟩
  · rw [records_serial rfl rfl, renewal_of_renewed ht] at he
    simp only [List.cons.injEq, Option.some.injEq, true_and, and_true] at he
    exact htu (brokenRecord_inj he.1).symm (brokenRecord_inj he.2).symm
  · rw [records_serial rfl rfl, renewal_of_renewed hu] at he
    simp only [List.cons.injEq, Option.some.injEq, true_and, and_true] at he
    exact hut (brokenRecord_inj he).symm

/-- The renewal of the instance, as a table reads it. -/
theorem renewed?_leftover {b : List UInt8} {m : Message} {requests : List Request}
    {manager : RequestManager} (hm : RequestManager.ofList requests = .ok manager)
    (hread : Checkpoint.read t b = .ok (leftover m (.list requests))) :
    Migration.renewed? t b = .ok (some (Checkpoint.write (leftover m (.manager manager)))) := by
  unfold Migration.renewed?
  rw [hread]
  simp only [Except.mapError, bind, Except.bind, leftover, RequestState.isCurrent,
    RequestState.convert, hm]
  rfl

theorem exclusive_and_serial_stranded : Agree (farewell ∅ ∅) ∅ ∧
    (run 1 (farewell ∅ ∅) stranded overlap).order = [0, 2, 1] ∧
    (run 1 (farewell ∅ ∅) stranded overlap).results =
      serial 1 (farewell ∅ ∅) stranded [0, 2, 1] := by
  have hagree : Agree (farewell ∅ ∅) ∅ :=
    { uses := fun i t ht => by
        match i with
        | 0 => cases ht
        | 1 | 2 => cases ht; rfl
      onward := by
        rw [← RemapTable.resolve_eq_ok_iff]
        decide }
  have horder : (run 1 (farewell ∅ ∅) stranded overlap).order = [0, 2, 1] := by
    rw [order, log_overlap finish_stranded]
    rfl
  have h := ((exclusive_and_serial 1 (farewell ∅ ∅) stranded overlap).2.2.2.2.2 ∅ fun _ => hagree).1
  rw [horder] at h
  exact ⟨hagree, horder, h⟩

/-- A table that renames the message that is left over. -/
def stopTable : RemapTable := Table.ofList [("timeout", "stop")]

/-- A table that leads from the newer shape of requests back to the older one. -/
def backTable : RemapTable := Table.ofList [(RequestState.managerShape, RequestState.listShape)]

/-- What a table reads of the instance. -/
theorem read_stranded {m : Message} (h : ((t.apply (InstanceSoup.toJson
      (leftover .timeout (.list Migration.vigilRequests))).collapse).toOption.bind
        InstanceSoup.ofJson?) = some (leftover m (.list Migration.vigilRequests))) :
    Checkpoint.read t strandedState = .ok (leftover m (.list Migration.vigilRequests)) :=
  toOption_eq_some_iff.1 ((Checkpoint.toOption_read_write stranded_fits.sized t).trans h)

section

variable {manager : RequestManager}
  (hm : RequestManager.ofList Migration.vigilRequests = .ok manager)

include hm

theorem leftover_fits_manager {m : Message} (hfits : m.Fits) :
    Soup.Fits Instant.Valid (leftover m (.manager manager)) := by
  have hlist := stranded_fits.global.requests
  exact leftover_fits hfits (hlist.convert (congrArg (·.map RequestState.manager) hm))

/-- What one renewal wrote, one with the empty table leaves. -/
theorem renewal_empty {m : Message} (hfits : m.Fits) :
    renewal ∅ (Checkpoint.write (leftover m (.manager manager))) =
      Checkpoint.write (leftover m (.manager manager)) := by
  rw [renewal, Migration.renewed?_of_manager
    (Checkpoint.read_write (leftover_fits_manager hm hfits)) rfl]

/-- Where a table leads back to the older shape, a second renewal loses the requests. -/
theorem renewal_back {idle : RequestManager} (hidle : RequestManager.ofList [] = .ok idle) :
    renewal backTable (Checkpoint.write (leftover .timeout (.manager manager))) =
      Checkpoint.write (leftover .timeout (.manager idle)) := by
  refine renewal_of_renewed (renewed?_leftover hidle ?_)
  have hdocument : (RequestManager.ofList Migration.vigilRequests).toOption.bind (fun manager =>
      (backTable.apply (InstanceSoup.toJson
        (leftover .timeout (.manager manager))).collapse).toOption.bind
          InstanceSoup.ofJson?) = some (leftover .timeout (.list [])) := by decide +kernel
  rw [hm] at hdocument
  have hsized := (leftover_fits_manager hm (m := .timeout) trivial).sized
  exact toOption_eq_some_iff.1 ((Checkpoint.toOption_read_write hsized backTable).trans hdocument)

end

/-- **Renewals that overlap at the end of an instance may leave behind what no order of the jobs
does**: where their tables differ, each stores what it makes of the same state; and where a table
leads back to the older shape, the second of two renewals in a row would find a list without
requests. -/
theorem records_ne_serial_farewell :
    (∀ order : List (Fin 3), order.Nodup →
      (run 1 (farewell ∅ stopTable) stranded overlap).results.map (·.get? 1) ≠
        (serial 1 (farewell ∅ stopTable) stranded order).map (·.get? 1)) ∧
    ∀ order : List (Fin 3), order.Nodup →
      (run 1 (farewell backTable backTable) stranded overlap).results.map (·.get? 1) ≠
        (serial 1 (farewell backTable backTable) stranded order).map (·.get? 1) := by
  obtain ⟨manager, hm, hperm⟩ := RequestManager.exists_ofList
    (show (Migration.vigilRequests.map Request.key).Nodup by decide)
  obtain ⟨idle, hidle, hnone⟩ := RequestManager.exists_ofList
    (show (([] : List Request).map Request.key).Nodup by decide)
  constructor
  · have hstop : Checkpoint.write (leftover .stop (.manager manager)) ≠
        Checkpoint.write (leftover .timeout (.manager manager)) := fun h =>
      nomatch (leftover_inj (leftover_fits_manager hm (m := .stop) trivial)
        (leftover_fits_manager hm (m := .timeout) trivial) h).1
    have hfirst := renewed?_leftover hm (Checkpoint.read_write stranded_fits)
    have hsecond := renewed?_leftover hm
      (read_stranded (t := stopTable) (m := .stop) (by decide +kernel))
    intro order horder
    refine records_ne_serial hfirst hsecond (fun h => absurd h.symm hstop) ?_ horder
    rwa [renewal_empty hm (m := .stop) trivial]
  · have hlost : renewal backTable (Checkpoint.write (leftover .timeout (.manager manager))) ≠
        Checkpoint.write (leftover .timeout (.manager manager)) := by
      intro h
      rw [renewal_back hm hidle] at h
      have hfits : Soup.Fits Instant.Valid (leftover .timeout (.manager idle)) :=
        leftover_fits (m := .timeout) trivial fun q hq =>
          absurd (hnone.mem_iff.1 hq) List.not_mem_nil
      have hmanager := (leftover_inj hfits (leftover_fits_manager hm (m := .timeout) trivial) h).2
      cases hmanager
      cases (hnone.symm.trans hperm).length_eq
    have hrenewed := renewed?_leftover hm
      (read_stranded (t := backTable) (m := .timeout) (by decide +kernel))
    exact fun order => records_ne_serial hrenewed hrenewed (fun _ => hlost) hlost

end Contest

end Perdure
