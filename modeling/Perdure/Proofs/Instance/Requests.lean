import Perdure.Instance.Requests
import Perdure.Proofs.Failure
import Perdure.Proofs.Table

/-!
# Managers of requests

A list of requests is taken over by a manager if and only if no conversation repeats, and the
manager then holds exactly the requests of the list.

## Main results

* `RequestManager.ofList_eq_ok_iff` — which lists are taken over, and by which manager.
* `RequestManager.ofList_entries` — a manager takes over its own requests.
-/

namespace Perdure

namespace RequestManager

theorem register_of_not_mem {m : RequestManager} {r : Request}
    (h : r.key ∉ m.table.entries.map Prod.fst) :
    ∃ m', m.register r = .ok m' ∧ m'.table = m.table.insert r.key r := by
  have hnone : m.table.contains r.key = false := by
    rw [Table.contains, Table.get?, Table.find_eq_none h]
    rfl
  unfold register
  simp only [hnone, Bool.false_eq_true, if_false]
  exact ⟨_, rfl, rfl⟩

/-- Requests of new conversations, no two of them the same, are all added. -/
theorem exists_foldlM_register {rs : List Request} {m : RequestManager}
    (hrs : (rs.map Request.key).Nodup)
    (h : ∀ k ∈ rs.map Request.key, k ∉ m.table.entries.map Prod.fst) :
    ∃ m', rs.foldlM register m = .ok m' ∧
      m'.table = (rs.map fun r => (r.key, r)).foldl (fun t e => t.insert e.1 e.2) m.table := by
  induction rs generalizing m with
  | nil => exact ⟨m, rfl, rfl⟩
  | cons r rs ih =>
    rw [List.map_cons, List.nodup_cons] at hrs
    obtain ⟨m₁, hm₁, htable₁⟩ := register_of_not_mem (h r.key (by simp))
    obtain ⟨m', hm', htable⟩ := ih (m := m₁) hrs.2 fun k hk hmem => by
      obtain ⟨e, he, rfl⟩ := List.mem_map.1 hmem
      rw [htable₁] at he
      rcases Table.mem_place he with rfl | he
      · exact hrs.1 hk
      · exact h e.1 (List.mem_cons_of_mem _ hk) (List.mem_map_of_mem he)
    refine ⟨m', ?_, ?_⟩
    · rw [List.foldlM_cons, hm₁]
      exact hm'
    · rw [htable, htable₁]
      rfl

/-- A manager keeps each request under its conversation. -/
theorem map_entries (m : RequestManager) :
    m.entries.map (fun r => (r.key, r)) = m.table.entries := by
  rw [entries, Table.values, List.map_map]
  refine (List.map_congr_left fun e he => ?_).trans (List.map_id m.table.entries)
  show (e.2.key, e.2) = e
  rw [← m.keyed e he]

/-- Where all requests are added, they are of new conversations, no two of them the same. -/
theorem nodup_of_foldlM_register {rs : List Request} {m m' : RequestManager}
    (h : rs.foldlM register m = .ok m') :
    (rs.map Request.key).Nodup ∧ ∀ k ∈ rs.map Request.key, k ∉ m.table.entries.map Prod.fst := by
  induction rs generalizing m with
  | nil => exact ⟨List.nodup_nil, fun _ hk => nomatch hk⟩
  | cons r rs ih =>
    rw [List.foldlM_cons] at h
    obtain ⟨m₁, hm₁, h⟩ := exists_of_bind_eq_ok h
    obtain ⟨hnodup, hnew⟩ := ih h
    have hr : r.key ∉ m.table.entries.map Prod.fst := fun hmem => by
      unfold register at hm₁
      rw [if_pos (show m.table.contains r.key = true from Table.isSome_find_iff.2 hmem)] at hm₁
      cases hm₁
    -- the conversations after the first request are those before, and its own
    have hkeys : (m₁.table.entries.map Prod.fst).Perm (r.key :: m.table.entries.map Prod.fst) := by
      obtain ⟨m₂, hm₂, htable⟩ := register_of_not_mem hr
      rw [hm₁] at hm₂
      cases hm₂
      rw [htable]
      exact (Table.perm_place hr r).map Prod.fst
    rw [List.map_cons, List.nodup_cons]
    refine ⟨⟨fun hmem => hnew _ hmem (hkeys.mem_iff.2 List.mem_cons_self), hnodup⟩, ?_⟩
    exact List.forall_mem_cons.2 ⟨hr, fun k hk hmem =>
      hnew k hk (hkeys.mem_iff.2 (List.mem_cons_of_mem _ hmem))⟩

/-- Lists without a repeated conversation are taken over, and the manager holds their requests. -/
theorem exists_ofList {rs : List Request} (h : (rs.map Request.key).Nodup) :
    ∃ m, ofList rs = .ok m ∧ m.entries.Perm rs := by
  obtain ⟨m, hm, htable⟩ := exists_foldlM_register (m := empty) h fun _ _ => List.not_mem_nil
  refine ⟨m, hm, ?_⟩
  have hkeys : ((rs.map fun r => (r.key, r)).map Prod.fst).Nodup := by
    rw [List.map_map]
    exact h
  have hplaced := Table.perm_foldl_place [] hkeys fun _ _ => List.not_mem_nil
  rw [List.append_nil] at hplaced
  have hentries : m.table.entries.Perm (rs.map fun r => (r.key, r)) := by
    rw [htable, Table.entries_foldl_insert]
    exact hplaced
  have hvalues := hentries.map Prod.snd
  rw [List.map_map] at hvalues
  exact hvalues.trans (.of_eq (List.map_id rs))

/-- **Which lists are taken over.**  A manager takes over a list if and only if no conversation
repeats in it, and it is the manager of exactly these requests. -/
theorem ofList_eq_ok_iff {rs : List Request} {m : RequestManager} :
    ofList rs = .ok m ↔ (rs.map Request.key).Nodup ∧ m.entries.Perm rs := by
  constructor
  · intro h
    have hnodup := (nodup_of_foldlM_register h).1
    obtain ⟨m', hm', hperm⟩ := exists_ofList hnodup
    rw [h] at hm'
    cases hm'
    exact ⟨hnodup, hperm⟩
  · rintro ⟨hnodup, hperm⟩
    obtain ⟨m', hm', hperm'⟩ := exists_ofList hnodup
    have hsame := (hperm'.trans hperm.symm).map fun r => (r.key, r)
    rw [map_entries, map_entries] at hsame
    obtain ⟨table, keyed⟩ := m
    obtain ⟨table', keyed'⟩ := m'
    obtain rfl : table' = table := Table.eq_of_perm hsame
    exact hm'

/-- The manager of its own requests. -/
theorem ofList_entries (m : RequestManager) : ofList m.entries = .ok m := by
  refine ofList_eq_ok_iff.2 ⟨?_, .refl _⟩
  have hkeys : m.entries.map Request.key = m.table.entries.map Prod.fst := by
    rw [← map_entries, List.map_map]
    rfl
  exact hkeys ▸ Table.nodup_keys m.table.ordered

end RequestManager

end Perdure
