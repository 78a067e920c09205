import Perdure.Proofs.Engine.Lifecycle
import Perdure.Proofs.Engine.Migration
import Perdure.Proofs.Instance.Decoded

/-!
# Migrating twice

What a migration writes is read back with any table that renames no shape of a soup, and is up to
date then.  So a second migration finds nothing to do but what the first one could not do either.

## Main definitions

* `Migration.Settled` — a record that no further migration changes.

## Main results

* `Migration.settled_of_renewable` — a renewed record is settled.
* `Migration.run_idempotent` — a second migration leaves all records and says the same.
-/

namespace Perdure

namespace Migration

/-! ### Renewed records -/

/-- Whatever table spares the shapes of soups, the record is up to date with it. -/
def Settled (r : Record) : Prop :=
  ∀ remap : RemapTable, remap.Spares InstanceSoup.shapes → ofRecord remap r = (true, r)

section

variable {remap : RemapTable} {r : Record} {bytes : List UInt8}

/-- The requests that are read fit, and so does their manager. -/
theorem Renewable.fits_withRequests {soup : InstanceSoup} {requests : List Request}
    (h : Renewable remap bytes soup requests) {m : RequestManager} (hm : m.entries.Perm requests) :
    Soup.Fits Instant.Valid (soup.withRequests (.manager m)) := by
  have hfits := (Checkpoint.fits_of_read h.read).1
  refine hfits.withRequests (hfits.global.requests.convert ?_)
  rw [h.listed, RequestState.convert, RequestManager.ofList_eq_ok_iff.2 ⟨h.nodup, hm⟩]
  rfl

/-- What is written for a record with a list of requests is read back with a manager. -/
theorem settled_of_renewable {soup : InstanceSoup} {requests : List Request}
    (hstate : r.state = some bytes) (h : Renewable remap bytes soup requests) :
    (ofRecord remap r).1 = true ∧ Settled (ofRecord remap r).2 := by
  obtain ⟨m, hperm, he⟩ := ofRecord_of_renewable hstate h
  rw [he]
  refine ⟨rfl, fun other hspares => ?_⟩
  have hread := Checkpoint.read_write_of_spares hspares (h.fits_withRequests hperm)
  rw [ofRecord, Option.map_some, renewed?_of_manager hread rfl]

/-- A renewal leaves a record as it is, or settles it. -/
theorem ofRecord_eq_or_settled (remap : RemapTable) (r : Record) :
    (ofRecord remap r).2 = r ∨ ((ofRecord remap r).1 = true ∧ Settled (ofRecord remap r).2) := by
  by_cases h : ∃ bytes soup requests, r.state = some bytes ∧ Renewable remap bytes soup requests
  · obtain ⟨bytes, soup, requests, hstate, hrenew⟩ := h
    exact .inr (settled_of_renewable hstate hrenew)
  · exact .inl (ofRecord_snd_eq_self fun bytes hstate soup requests hrenew =>
      h ⟨bytes, soup, requests, hstate, hrenew⟩)

end

/-! ### Several processes -/

/-- All tables spare the shapes of soups. -/
def AllSpare (processes : List (String × RemapTable)) : Prop :=
  ∀ process ∈ processes, process.2.Spares InstanceSoup.shapes

/-- A process that is listed several times has the same table each time. -/
def Agree (processes : List (String × RemapTable)) : Prop :=
  ∀ p ∈ processes, ∀ q ∈ processes, p.1 = q.1 → p.2 = q.2

section

variable {processes : List (String × RemapTable)} {r : Record}

/-- Settled records stay as they are. -/
theorem Settled.fate_eq (h : Settled r) (hspare : AllSpare processes) :
    fate ofRecordIn processes r = (true, r) := by
  refine fate_of_still fun process hp => ?_
  unfold ofRecordIn
  split
  · exact h process.2 (hspare process hp)
  · rfl

/-- The migration of one process leaves a record as it is, or settles it. -/
theorem ofRecordIn_eq_or_settled (process : String × RemapTable) (r : Record) :
    (ofRecordIn process r).2 = r ∨
      ((ofRecordIn process r).1 = true ∧ Settled (ofRecordIn process r).2) := by
  unfold ofRecordIn
  split
  · exact ofRecord_eq_or_settled process.2 r
  · exact .inl rfl

/-- With one table for each process, what one entry leaves as it is, all others leave. -/
theorem fate_snd_eq_self {process : String × RemapTable} (ha : r.isActiveOf process.1 = true)
    (hr : (ofRecordIn process r).2 = r) (hagree : ∀ q ∈ processes, process.1 = q.1 → process.2 = q.2) :
    (fate ofRecordIn processes r).2 = r := by
  induction processes with
  | nil => rfl
  | cons q rest ih =>
    have hq : (ofRecordIn q r).2 = r := by
      by_cases hq : r.isActiveOf q.1 = true
      · have hname : process.1 = q.1 := by
          simp only [Record.isActiveOf, Bool.and_eq_true, decide_eq_true_eq] at ha hq
          exact ha.1.symm.trans hq.1
        have htable := hagree q List.mem_cons_self hname
        rwa [show q = process from Prod.ext hname.symm htable.symm]
      · rw [ofRecordIn, if_neg hq]
    show (fate ofRecordIn rest (ofRecordIn q r).2).2 = r
    rw [hq]
    exact ih fun p hp => hagree p (List.mem_cons_of_mem q hp)

/-- A migration leaves a record as it is, or settles it. -/
theorem fate_eq_or_settled (hspare : AllSpare processes) (r : Record) :
    (fate ofRecordIn processes r).2 = r ∨
      (Settled (fate ofRecordIn processes r).2 ∧
        (Agree processes → (fate ofRecordIn processes r).1 = true)) := by
  induction processes with
  | nil => exact .inl rfl
  | cons p rest ih =>
    have hrest : AllSpare rest := fun q hq => hspare q (List.mem_cons_of_mem p hq)
    simp only [fate, Bool.and_eq_true]
    rcases ofRecordIn_eq_or_settled p r with hsame | ⟨hgood, hsettled⟩
    · rw [hsame]
      rcases ih hrest with hrests | ⟨hsettled, hgood⟩
      · exact .inl hrests
      refine .inr ⟨hsettled, fun hagree => ⟨?_, ?_⟩⟩
      · -- what the first entry leaves although it is active, the others leave as well, so that it
        -- was settled from the start
        by_cases ha : r.isActiveOf p.1 = true
        · rw [fate_snd_eq_self ha hsame fun q hq =>
            hagree p List.mem_cons_self q (List.mem_cons_of_mem p hq)] at hsettled
          rw [ofRecordIn, if_pos ha, hsettled p.2 (hspare p List.mem_cons_self)]
        · rw [ofRecordIn, if_neg ha]
      · exact hgood fun q hq q' hq' =>
          hagree q (List.mem_cons_of_mem p hq) q' (List.mem_cons_of_mem p hq')
    · rw [hsettled.fate_eq hrest]
      exact .inr ⟨hsettled, fun _ => ⟨hgood, rfl⟩⟩

/-- What becomes of a record in a second migration. -/
theorem fate_fate (hspare : AllSpare processes) (r : Record) :
    (fate ofRecordIn processes (fate ofRecordIn processes r).2).2 =
        (fate ofRecordIn processes r).2 ∧
      (Agree processes → (fate ofRecordIn processes (fate ofRecordIn processes r).2).1 =
        (fate ofRecordIn processes r).1) := by
  rcases fate_eq_or_settled hspare r with hsame | ⟨hsettled, hgood⟩
  · rw [hsame]
    exact ⟨hsame, fun _ => rfl⟩
  · rw [hsettled.fate_eq hspare]
    exact ⟨rfl, fun hagree => (hgood hagree).symm⟩

end

/-! ### Two runs -/

section

variable {h : Host}

/-- On a store that does not answer, a migration changes nothing. -/
theorem run_of_not_served (hs : ¬ Served h) (processes : List (String × RemapTable)) :
    (run processes h).2 = h := by
  refine each_induction (P := fun g => g = h) (fun process _ g hg => ?_) rfl
  subst hg
  unfold ofProcess
  by_cases hactive : CallKind.active ∈ g.failing
  · rw [Access.active, Access.perform_calling_of_failing hactive]
  · rw [Access.perform_active hactive]
    refine each_induction (P := fun g' => g' = g) (fun id _ g' hg' => ?_) rfl
    subst hg'
    rw [succeeds_snd]
    rcases perform_ofInstance_cases process.2 id g' with hsame | ⟨r, bytes, hstate, hset, -, -⟩
    · exact hsame
    · refine absurd (fun kind hkind => ?_) hs
      simp only [List.mem_cons, List.not_mem_nil, or_false] at hkind
      rcases hkind with rfl | rfl | rfl
      · exact hactive
      · exact hstate
      · exact hset

/-- **A second migration has nothing left to do.**  Where no table renames a shape of a soup, a
migration that follows another one leaves all records as they are.  Where a process that is listed
several times has the same table each time, it also says the same, whether all went well or not. -/
theorem run_idempotent {processes : List (String × RemapTable)} (hspare : AllSpare processes)
    (h : Host) :
    (run processes (run processes h).2).2.store = (run processes h).2.store ∧
    (Agree processes → (run processes (run processes h).2).1 = (run processes h).1) := by
  by_cases hs : Served h
  · have hfirst := amounts_run hs processes
    have hsecond := amounts_run (hs.of_failing hfirst.failing) processes
    constructor
    · refine Store.eq_of_get? fun id => ?_
      rw [hsecond.get?_eq, hfirst.get?_eq, Option.map_map]
      exact Option.map_congr fun r _ => (fate_fate hspare r).1
    · intro hagree
      refine Bool.eq_iff_iff.2 ?_
      rw [hsecond.good_iff, hfirst.good_iff]
      refine forall_congr' fun id => ?_
      rw [hfirst.get?_eq]
      cases h.store.get? id with
      | none => simp
      | some r => simp [(fate_fate hspare r).2 hagree]
  · have hsame := run_of_not_served hs processes
    rw [hsame]
    exact ⟨congrArg Host.store hsame, fun _ => rfl⟩

end

/-- Vigils, listed twice, were written under another name for one of their shapes once. -/
def vigilsTwice : List (String × RemapTable) :=
  [("vigil", Table.ofList [("wait", "wait-activity")]),
    ("vigil", Table.ofList [("wait", "wait-activity")])]

/-- Where a vigil that can be renewed stands beside one whose state is lost, a second migration fails
as the first one did, and leaves what that wrote. -/
theorem run_idempotent_oldVigils : AllSpare vigilsTwice ∧ Agree vigilsTwice ∧
    (run vigilsTwice (run vigilsTwice oldVigils).2).2.store =
      (run vigilsTwice oldVigils).2.store ∧
    (run vigilsTwice oldVigils).1 = false ∧
    (run vigilsTwice (run vigilsTwice oldVigils).2).1 = false := by
  have hspare : AllSpare vigilsTwice := by
    unfold AllSpare RemapTable.Spares
    decide +kernel
  have hagree : Agree vigilsTwice := by
    unfold Agree
    decide +kernel
  obtain ⟨hstore, hgood⟩ := run_idempotent hspare oldVigils
  have hlost : (fate ofRecordIn vigilsTwice (vigilRecord 2 [])).1 = false := by decide +kernel
  have hfails : (run vigilsTwice oldVigils).1 = false := by
    rw [← Bool.not_eq_true, (amounts_run (fun _ _ => List.not_mem_nil) vigilsTwice).good_iff]
    intro hall
    exact absurd (hall 2 (vigilRecord 2 []) rfl) (by rw [hlost]; exact Bool.false_ne_true)
  exact ⟨hspare, hagree, hstore, hfails, (hgood hagree).trans hfails⟩

end Migration

end Perdure
