import Perdure.Proofs.Engine.Commuting

/-!
# Processes that are listed more than once

A migration goes through pairs of a process and a table, and a process may stand in several of them.
Then its instances are read several times: with each of the tables, and each time as the pairs
before have left them.  What comes of that is the same as with one table if all of the tables read a
state alike and none of them renames what is written anew.

## Main definitions

* `Migration.Ready` — a state is read to a soup whose requests can be renewed.
* `Migration.Alone` — a process is listed once.
* `Migration.Accord` — the tables that are listed for a record agree on it.

## Main results

* `Migration.not_stuck_iff` — a state is stuck or ready.
* `Migration.accord_of_spares` — tables agree if they rename nothing that is still written.
* `Migration.fate_of_accord` — where tables agree on a record that is ready, it is brought up to
  date.
* `Migration.fate_good_iff` — all goes well with a record if and only if it is ready.
* `Migration.fate_of_stuck` — where one table does not get on with a record, not all goes well,
  whatever the others make of it.
-/

namespace Perdure

/-- Renewed requests are kept by a manager, and stay as they are when they are renewed again. -/
theorem RequestState.convert_of_convert {old new : RequestState} (h : old.convert = .ok new) :
    new.isCurrent = true ∧ new.convert = .ok new := by
  cases old with
  | manager m =>
    cases h
    exact ⟨rfl, rfl⟩
  | list rs => cases hm : RequestManager.ofList rs with
    | error e =>
      rw [convert, hm] at h
      cases h
    | ok m =>
      rw [convert, hm] at h
      cases h
      exact ⟨rfl, rfl⟩

namespace Migration

/-! ### Work that repeats -/

section

variable {α κ : Type} {each : α → Record → Bool × Record} {l : List α} {r r' : Record}

/-- Of work that settles a record, it makes no difference how often it is done. -/
theorem fate_of_settling (hsettles : ∀ a ∈ l, each a r = (true, r) ∨ each a r = (true, r'))
    (hstill : ∀ a ∈ l, each a r' = (true, r')) (hsome : ∃ a ∈ l, each a r = (true, r')) :
    fate each l r = (true, r') := by
  induction l with
  | nil =>
    obtain ⟨a, ha, -⟩ := hsome
    cases ha
  | cons b rest ih =>
    have hrest : fate each rest r' = (true, r') :=
      fate_of_still fun a ha => hstill a (List.mem_cons_of_mem b ha)
    rcases hsettles b List.mem_cons_self with hb | hb
    · have hfate : fate each rest r = (true, r') := by
        obtain ⟨a, ha, he⟩ := hsome
        rcases List.mem_cons.1 ha with rfl | ha
        · -- the work that settles the record is done here already, and leaves it as it was
          obtain rfl : r = r' := congrArg Prod.snd (hb.symm.trans he)
          exact hrest
        · exact ih (fun a ha => hsettles a (List.mem_cons_of_mem b ha))
            (fun a ha => hstill a (List.mem_cons_of_mem b ha)) ⟨a, ha, he⟩
      simp only [fate, hb, hfate, Bool.and_self]
    · simp only [fate, hb, hrest, Bool.and_self]

/-- Of work that leaves a record as it is, all goes well if each piece goes well. -/
theorem fate_of_inert (h : ∀ a ∈ l, (each a r).2 = r) :
    (fate each l r).2 = r ∧ ((fate each l r).1 = true ↔ ∀ a ∈ l, (each a r).1 = true) := by
  induction l with
  | nil => exact ⟨rfl, by simp [fate]⟩
  | cons b rest ih =>
    obtain ⟨hsame, hgood⟩ := ih fun a ha => h a (List.mem_cons_of_mem b ha)
    have hb := h b List.mem_cons_self
    simp only [fate, hb, Bool.and_eq_true, List.forall_mem_cons]
    exact ⟨hsame, and_congr_right fun _ => hgood⟩

/-- Where one piece of work fails on a record that those before it leave as it is, not all goes
well. -/
theorem fate_fst_of_failing {before after : List α} {a : α} (hbefore : ∀ b ∈ before, (each b r).2 = r)
    (hfails : (each a r).1 = false) : (fate each (before ++ a :: after) r).1 = false := by
  induction before with
  | nil => simp [fate, hfails]
  | cons b rest ih =>
    have hb := hbefore b List.mem_cons_self
    have hrest := ih fun c hc => hbefore c (List.mem_cons_of_mem b hc)
    simp only [List.cons_append, fate, hb, hrest, Bool.and_false]

/-- Where one piece of work only is about a record, this one decides what becomes of it. -/
theorem fate_of_count [DecidableEq κ] {key : α → κ} {keyOf : Record → κ}
    (hkeyed : Keyed each key keyOf) (hcount : (l.map key).count (keyOf r) = 1) {a : α} (ha : a ∈ l)
    (hk : keyOf r = key a) : fate each l r = each a r := by
  induction l with
  | nil => cases ha
  | cons b rest ih =>
    rw [List.map_cons, List.count_cons] at hcount
    by_cases hb : key b = keyOf r
    · rw [if_pos (beq_iff_eq.2 hb)] at hcount
      have hnone : ∀ c ∈ rest, keyOf r ≠ key c := fun c hc he =>
        List.count_eq_zero.1 (Nat.succ.inj hcount) (he ▸ List.mem_map_of_mem hc)
      obtain rfl : a = b := (List.mem_cons.1 ha).resolve_right fun ha => hnone a ha hk
      have hrest : fate each rest (each a r).2 = (true, (each a r).2) :=
        fate_of_still fun c hc => hkeyed.other c _ (by rw [hkeyed.keep]; exact hnone c hc)
      simp only [fate, hrest, Bool.and_true]
    · rw [if_neg (fun he => hb (beq_iff_eq.1 he)), Nat.add_zero] at hcount
      have ha := (List.mem_cons.1 ha).resolve_left fun he => hb (he ▸ hk.symm)
      simp only [fate, hkeyed.other b r (Ne.symm hb), ih hcount ha, Bool.true_and]

end

/-! ### States that are ready -/

/-- With a table, bytes are read to a soup whose requests can be renewed. -/
structure Ready (remap : RemapTable) (bytes : List UInt8) (soup : InstanceSoup)
    (requests : RequestState) : Prop where
  read : Checkpoint.read remap bytes = .ok soup
  converts : soup.global.requests.convert = .ok requests

section

variable {remap : RemapTable} {bytes : List UInt8}

/-- A state is stuck or ready. -/
theorem not_stuck_iff : ¬ Stuck remap bytes ↔ ∃ soup requests, Ready remap bytes soup requests := by
  constructor
  · intro hstuck
    cases hread : Checkpoint.read remap bytes with
    | error e => exact absurd (.unreadable hread) hstuck
    | ok soup => cases hrequests : soup.global.requests with
      | manager m => exact ⟨soup, .manager m, hread, by rw [hrequests]; rfl⟩
      | list requests =>
        by_cases hnodup : (requests.map Request.key).Nodup
        · obtain ⟨m, hm, -⟩ := RequestManager.exists_ofList hnodup
          refine ⟨soup, .manager m, hread, ?_⟩
          rw [hrequests, RequestState.convert, hm]
          rfl
        · exact absurd (.conflicting hread hrequests hnodup) hstuck
  · rintro ⟨soup, requests, hread, hconverts⟩ hstuck
    cases hstuck with
    | unreadable hfail => cases hread.symm.trans hfail
    | conflicting hread' hlisted hconflict =>
      cases hread.symm.trans hread'
      rw [hlisted, RequestState.convert] at hconverts
      cases hm : RequestManager.ofList _ with
      | ok m => exact hconflict (RequestManager.ofList_eq_ok_iff.1 hm).1
      | error e =>
        rw [hm] at hconverts
        cases hconverts

/-- A stuck record stays as it is and is reported. -/
theorem ofRecord_of_stuck {r : Record} (hstate : r.state = some bytes)
    (hstuck : Stuck remap bytes) : ofRecord remap r = (false, r) := by
  obtain ⟨e, he⟩ := hstuck.renewed?_eq
  rw [ofRecord, hstate, Option.map_some, he]

end

/-! ### Tables that agree -/

/-- A process is listed once. -/
def Alone (processes : List (String × RemapTable)) (processId : String) : Prop :=
  (processes.map Prod.fst).count processId = 1

/-- The tables that are listed for a record agree on it: they read its state to the same soup, or
none of them reads it, and none renames a shape of what is written anew. -/
structure Accord (processes : List (String × RemapTable)) (r : Record) : Prop where
  alike {remap remap' : RemapTable} {bytes : List UInt8} (h : Due processes r remap bytes)
    (h' : Due processes r remap' bytes) :
    (Checkpoint.read remap bytes).toOption = (Checkpoint.read remap' bytes).toOption
  keeps {remap : RemapTable} {bytes : List UInt8} {soup : InstanceSoup} {requests : RequestState}
    (h : Due processes r remap bytes) (hready : Ready remap bytes soup requests)
    (hold : soup.global.requests.isCurrent = false) :
    remap.Keeps (InstanceSoup.toJson (soup.withRequests requests))

section

variable {processes : List (String × RemapTable)} {r : Record} {remap remap' : RemapTable}
  {bytes : List UInt8} {soup : InstanceSoup} {requests : RequestState}

theorem Ready.of_toOption_eq (h : Ready remap bytes soup requests)
    (he : (Checkpoint.read remap bytes).toOption = (Checkpoint.read remap' bytes).toOption) :
    Ready remap' bytes soup requests := by
  have hread := toOption_eq_some_iff.2 h.read
  rw [he] at hread
  exact ⟨toOption_eq_some_iff.1 hread, h.converts⟩

/-- Tables that rename nothing that is still written agree on a state that was written lately. -/
theorem accord_of_spares (hspare : AllSpare processes) (hfits : Soup.Fits Instant.Valid soup)
    (hstate : r.state = some (Checkpoint.write soup)) : Accord processes r where
  alike {remap remap' bytes} h h' := by
    cases hstate.symm.trans h.state
    rw [Checkpoint.read_write_of_spares (hspare _ h.listed) hfits,
      Checkpoint.read_write_of_spares (hspare _ h'.listed) hfits]
  keeps h _ _ := (hspare _ h.listed).keeps (Json.Shaped.instanceSoup _)

theorem Due.isActiveOf (h : Due processes r remap bytes) : r.isActiveOf r.processId = true := by
  simp [Record.isActiveOf, h.active]

/-- What becomes of a record that is due in the hands of its process. -/
theorem Due.ofRecordIn_eq (h : Due processes r remap bytes) :
    ofRecordIn (r.processId, remap) r = ofRecord remap r := if_pos h.isActiveOf

/-- A process that is listed leaves a record that is due, or the record is due with its table. -/
theorem Due.ofRecordIn_cases (h : Due processes r remap bytes) {process : String × RemapTable}
    (hlisted : process ∈ processes) : ofRecordIn process r = (true, r) ∨
      Due processes r process.2 bytes ∧ ofRecordIn process r = ofRecord process.2 r := by
  by_cases hp : r.processId = process.1
  · have hdue : Due processes r process.2 bytes := ⟨h.active, hp ▸ hlisted, h.state⟩
    exact .inr ⟨hdue, if_pos (hp ▸ hdue.isActiveOf)⟩
  · exact .inl (keyed_ofRecordIn.other process r hp)

/-- What becomes of a record that is due if its process is listed once. -/
theorem fate_of_alone (h : Alone processes r.processId) (hdue : Due processes r remap bytes) :
    fate ofRecordIn processes r = ofRecord remap r := by
  rw [fate_of_count keyed_ofRecordIn h hdue.listed rfl, hdue.ofRecordIn_eq]

/-- **Where tables agree on a record that is ready, it is brought up to date**, and each of them
reads the same soup afterwards, with renewed requests. -/
theorem fate_of_accord (ha : Accord processes r) (hdue : Due processes r remap bytes)
    (hready : Ready remap bytes soup requests) :
    fate ofRecordIn processes r =
        (true, { r with state := some (upToDate soup requests bytes) }) ∧
      Checkpoint.read remap (upToDate soup requests bytes) = .ok (soup.withRequests requests) := by
  have hread {remap' : RemapTable} (hdue' : Due processes r remap' bytes) :
      Checkpoint.read remap' (upToDate soup requests bytes) =
        .ok (soup.withRequests requests) := by
    have hready' := hready.of_toOption_eq (ha.alike hdue hdue')
    exact read_upToDate (ha.keeps hdue' hready') hready'.read hready'.converts
  have hafter : Due processes { r with state := some (upToDate soup requests bytes) } remap
      (upToDate soup requests bytes) := ⟨hdue.active, hdue.listed, rfl⟩
  -- what was brought up to date is so, and is not written again
  obtain ⟨hcurrent, hagain⟩ := RequestState.convert_of_convert hready.converts
  have hsame : upToDate (soup.withRequests requests) requests (upToDate soup requests bytes) =
      upToDate soup requests bytes := if_pos hcurrent
  refine ⟨fate_of_settling (fun process hlisted => ?_) (fun process hlisted => ?_)
    ⟨_, hdue.listed, ?_⟩, hread hdue⟩
  · rcases hdue.ofRecordIn_cases hlisted with hother | ⟨hdue', hown⟩
    · exact .inl hother
    · have hready' := hready.of_toOption_eq (ha.alike hdue hdue')
      rw [hown]
      exact .inr (ofRecord_eq_upToDate hdue.state hready'.read hready'.converts)
  · rcases hafter.ofRecordIn_cases hlisted with hother | ⟨hdue', hown⟩
    · exact hother
    · have hread' := hread ⟨hdue.active, hdue'.listed, hdue.state⟩
      rw [hown, ofRecord_eq_upToDate rfl hread' hagain, hsame]
  · rw [hdue.ofRecordIn_eq]
    exact ofRecord_eq_upToDate hdue.state hready.read hready.converts

/-- **All goes well with a record if and only if it is ready**, where its process is listed once or
the tables agree on it. -/
theorem fate_good_iff (h : Alone processes r.processId ∨ Accord processes r)
    (hdue : Due processes r remap bytes) : (fate ofRecordIn processes r).1 = true ↔
      ∃ soup requests, Ready remap bytes soup requests := by
  rcases h with halone | ha
  · rw [fate_of_alone halone hdue, ofRecord_fst_eq_true_iff, ← not_stuck_iff]
    refine ⟨fun hall => hall bytes hdue.state, fun hstuck bytes' hstate => ?_⟩
    cases hdue.state.symm.trans hstate
    exact hstuck
  · constructor
    · intro hgood
      by_contra hnone
      -- where one table does not get on, none does, and the record stays as it is throughout
      have hstuck {remap' : RemapTable} (hdue' : Due processes r remap' bytes) :
          ofRecord remap' r = (false, r) := by
        refine ofRecord_of_stuck hdue.state (Classical.not_not.1 fun hready => hnone ?_)
        obtain ⟨soup, requests, hready⟩ := not_stuck_iff.1 hready
        exact ⟨soup, requests, hready.of_toOption_eq (ha.alike hdue' hdue)⟩
      have hinert : ∀ process ∈ processes, (ofRecordIn process r).2 = r := by
        intro process hlisted
        rcases hdue.ofRecordIn_cases hlisted with hother | ⟨hdue', hown⟩
        · rw [hother]
        · rw [hown, hstuck hdue']
      have hfirst := (fate_of_inert hinert).2.1 hgood _ hdue.listed
      rw [hdue.ofRecordIn_eq, hstuck hdue] at hfirst
      cases hfirst
    · rintro ⟨soup, requests, hready⟩
      rw [(fate_of_accord ha hdue hready).1]

/-- **Where one table is stuck on a record that those before it leave as it is, not all goes well**,
whatever comes after. -/
theorem fate_of_stuck {before after : List (String × RemapTable)}
    (hprocesses : processes = before ++ (r.processId, remap) :: after)
    (hbefore : ∀ process ∈ before, (ofRecordIn process r).2 = r) (hactive : r.status = .active)
    (hstate : r.state = some bytes) (hstuck : Stuck remap bytes) :
    (fate ofRecordIn processes r).1 = false := by
  have hdue : Due processes r remap bytes := ⟨hactive, by simp [hprocesses], hstate⟩
  have hfails : (ofRecordIn (r.processId, remap) r).1 = false := by
    rw [hdue.ofRecordIn_eq, ofRecord_of_stuck hstate hstuck]
  rw [hprocesses]
  exact fate_fst_of_failing hbefore hfails

/-- A record that is not due stays as it is. -/
theorem fate_of_not_due (h : ∀ remap bytes, ¬ Due processes r remap bytes) :
    fate ofRecordIn processes r = (true, r) := by
  refine fate_of_still fun ⟨processId, remap⟩ hlisted => ?_
  unfold ofRecordIn
  split
  · next hactive =>
    rw [Record.isActiveOf, Bool.and_eq_true, decide_eq_true_eq, decide_eq_true_eq] at hactive
    obtain ⟨rfl, hstatus⟩ := hactive
    cases hstate : r.state with
    | none =>
      rw [ofRecord, hstate]
      rfl
    | some bytes => exact absurd ⟨hstatus, hlisted, hstate⟩ (h remap bytes)
  · rfl

/-- A migration changes nothing of a record but its state. -/
theorem exists_fate (processes : List (String × RemapTable)) (r : Record) :
    ∃ state, (fate ofRecordIn processes r).2 = { r with state } := by
  induction processes generalizing r with
  | nil => exact ⟨r.state, rfl⟩
  | cons process rest ih =>
    have hstep : ∃ state, (ofRecordIn process r).2 = { r with state } := by
      unfold ofRecordIn
      split
      · exact exists_ofRecord process.2 r
      · exact ⟨r.state, rfl⟩
    obtain ⟨state, hstate⟩ := hstep
    obtain ⟨state', hstate'⟩ := ih { r with state }
    refine ⟨state', ?_⟩
    simp only [fate, hstate, hstate']

end

end Migration

end Perdure
