import Perdure.Proofs.Instance.Decoded
import Perdure.Proofs.Store.Basic
import Perdure.Proofs.Text.Hexadecimal
import Perdure.Store.Archive

/-!
# Archives are read back

A store whose instants are valid is read back from its archive, with the names of its instances and
the bytes of their states.  What is read from an archive is such a store, so that a store goes on
from one program to the next.

## Main definitions

* `Store.Valid` — the times of all records are valid instants.

## Main results

* `InstanceId.ofText?_text` — the name of an instance is read back.
* `Store.ofBytes?_toBytes` — a store is read back from its archive.
* `Store.valid_of_ofBytes?` — what is read from an archive can be read back.
-/

namespace Perdure

open Json (Codec Decodes Slot)

/-! ### Names of instances -/

namespace InstanceId

/-- A name has 32 digits, which make up its bits. -/
theorem exists_digits (id : InstanceId) : ∃ ds : List Nat, (∀ d ∈ ds, d < 16) ∧
    id.digits = ds.map Nat.digitChar ∧ ds.length = 32 ∧
    ds.foldl (fun n d => 16 * n + d) 0 = id.toNat := by
  obtain ⟨ds, hds, hdigits, hvalue⟩ := Text.exists_toDigits_sixteen id.toNat
  have hlength : ds.length ≤ 32 := by
    have hle := (Nat.length_toDigits_le_iff (b := 16) (n := id.toNat) (k := 32) (by decide)
      (by decide)).2 (Nat.lt_of_lt_of_eq id.isLt (by decide))
    rwa [hdigits, List.length_map] at hle
  have hzeros (k : Nat) : (List.replicate k 0).foldl (fun n d => 16 * n + d) 0 = 0 := by
    induction k with
    | zero => rfl
    | succ k ih => rw [List.replicate_succ, List.foldl_cons, ih]
  refine ⟨List.replicate (32 - ds.length) 0 ++ ds, ?_, ?_, ?_, ?_⟩
  · intro d hd
    rcases List.mem_append.1 hd with hd | hd
    · rw [(List.mem_replicate.1 hd).2]
      decide
    · exact hds d hd
  · rw [digits, hdigits, List.length_map, List.map_append, List.map_replicate]
    rfl
  · rw [List.length_append, List.length_replicate]
    omega
  · rw [List.foldl_append, hzeros, hvalue]

/-- Hyphens that were put in are taken out again. -/
theorem unhyphenated?_hyphenated {lengths : List Nat} {cs : List Char}
    (h : lengths.sum ≤ cs.length) : unhyphenated? lengths (hyphenated lengths cs) = some cs := by
  induction lengths generalizing cs with
  | nil => rfl
  | cons n rest ih =>
    rw [List.sum_cons] at h
    have htake : (cs.take n).length = n := by
      rw [List.length_take]
      omega
    have hdrop : (cs.take n ++ '-' :: hyphenated rest (cs.drop n)).drop n =
        '-' :: hyphenated rest (cs.drop n) := List.drop_left' htake
    have hrest : rest.sum ≤ (cs.drop n).length := by
      rw [List.length_drop]
      omega
    rw [hyphenated, unhyphenated?, hdrop]
    simp only [ih hrest, Option.map_some, List.take_left' htake, List.take_append_drop]

/-- No digit is the first letter of a resource name, or a brace. -/
theorem digitChar_ne {d : Nat} (h : d < 16) :
    (Nat.digitChar d).toLower ≠ 'u' ∧ Nat.digitChar d ≠ '\x7b' := by
  decide +revert

/-- A name is read back. -/
theorem ofText?_text (id : InstanceId) : ofText? id.text = some id := by
  obtain ⟨ds, hds, hdigits, hlength, hvalue⟩ := exists_digits id
  have hlong : id.digits.length = 32 := by rw [hdigits, List.length_map, hlength]
  have hgroups : ofGroups? (hyphenated groups id.digits) = some id := by
    have hread : ofDigits? id.digits = some id := by
      rw [ofDigits?, if_neg (fun hne => hne hlong), hdigits, Text.mapM_hexDigit? hds]
      show some (BitVec.ofNat 128 (ds.foldl _ 0)) = some id
      rw [hvalue, BitVec.ofNat_toNat, BitVec.setWidth_eq]
    rw [ofGroups?, unhyphenated?_hyphenated (by rw [hlong]; decide)]
    exact hread
  -- the text begins with a digit, and is longer than the digits alone
  obtain ⟨d, rest, rfl⟩ := List.exists_cons_of_length_eq_add_one hlength
  obtain ⟨cs, hcs⟩ : ∃ cs, hyphenated groups id.digits = Nat.digitChar d :: cs := by
    rw [hdigits]
    exact ⟨_, rfl⟩
  obtain ⟨hresource, hbrace⟩ := digitChar_ne (hds d List.mem_cons_self)
  have hgrouped : (hyphenated groups id.digits).length = 36 := by
    simp only [groups, hyphenated, List.length_append, List.length_take, List.length_cons,
      List.length_drop, hlong]
    decide
  have htext : id.text.toList = hyphenated groups id.digits := String.toList_ofList
  rw [← hgroups]
  unfold ofText?
  rw [htext, List.splitAt_eq]
  dsimp only
  rw [if_neg, hcs]
  · split
    · next he => exact absurd (List.cons.inj he).1 hbrace
    · rw [← hcs, if_neg (by rw [hgrouped]; decide)]
  · rw [hcs]
    exact fun he => hresource (List.cons.inj he).1

end InstanceId

/-! ### Records -/

theorem InstanceId.codec (d : Nat) : Codec .collapse (fun _ => True) d
    (fun id : InstanceId => .str id.text) (fun v => v.string?.bind InstanceId.ofText?) where
  writable {id} _ := .str d id.text
  readBack {id} _ := by
    show (some id.text).bind InstanceId.ofText? = some id
    rw [Option.bind_some, ofText?_text]

theorem Status.codec (d : Nat) :
    Codec .collapse (fun _ => True) d Status.toJson Status.ofJson? where
  writable {s} _ := .str d s.text
  readBack {s} _ := by cases s <;> rfl

theorem Text.hexCodec (d : Nat) : Codec .collapse (fun _ => True) d (fun bytes => .str (hex bytes))
    (fun v => do ofHex? (← v.string?).toList) where
  writable {bytes} _ := .str d (hex bytes)
  readBack {bytes} _ := ofHex?_hex bytes

namespace Record

/-- A record is read back without its state. -/
theorem codec (d : Nat) :
    Codec .collapse (fun r : Record => r.Valid ∧ r.state = none) (d + 1) toJson ofJson? := by
  refine .ofRecord ["instance_id", "process_id", "status", "fault", "created_at", "completed_at"] _
    (by decide) (by decide) (fun _ => rfl) ?_
  intro r h
  obtain ⟨h, hstate⟩ := h
  have hinstance := (InstanceId.codec d).field "instance_id" (a := r.instanceId) trivial
  have hprocess := (Codec.str .collapse d).field "process_id" (a := r.processId) trivial
  have hstatus := (Status.codec d).field "status" (a := r.status) trivial
  have hfault := (Codec.str .collapse d).nullable "fault" (fun _ => nofun)
    fun s (_ : s ∈ r.fault) => trivial
  have hcreated := (Instant.codec d).field "created_at" h.created
  have hcompleted := (Instant.codec d).nullable "completed_at" (fun _ => nofun) h.completed
  refine ⟨.cons hinstance.fielded (.cons hprocess.fielded (.cons hstatus.fielded
    (.cons hfault.fielded (.cons hcreated.fielded (.cons hcompleted.fielded .nil))))), ?_⟩
  intro v hv
  rw [ofJson?, hv]
  simp [hinstance.readBack, hprocess.readBack, hstatus.readBack, hfault.readBack,
    hcreated.readBack, hcompleted.readBack, ← hstate]

/-- A record is read back with its state. -/
theorem archiveCodec (d : Nat) : Codec .collapse Valid (d + 2) archived ofArchived? := by
  refine .ofRecord ["record", "state"] _ (by decide) (by decide) (fun _ => rfl) ?_
  intro r h
  have hvalid : Valid { r with state := none } := ⟨h.created, h.completed⟩
  have hrecord := (codec d).field "record" ⟨hvalid, rfl⟩
  have hstate := (Text.hexCodec (d + 1)).nullable "state" (fun _ => nofun)
    fun bytes (_ : bytes ∈ r.state) => trivial
  refine ⟨.cons hrecord.fielded (.cons hstate.fielded .nil), ?_⟩
  intro v hv
  rw [ofArchived?, hv]
  have hread : (Slot.ofField .collapse (Json.field "record" r.toJson)).required ofJson? =
    some { r with state := none } := hrecord.readBack
  have hbytes := hstate.readBack
  simp only [Option.bind_eq_bind] at hbytes
  simp [hread, hbytes]

/-- What is read is valid. -/
theorem decodes : Decodes Valid ofJson? := by
  intro v r h
  unfold ofJson? at h
  obtain ⟨slots, -, h⟩ := Option.bind_eq_some_iff.1 h
  split at h
  · simp only [Option.bind_eq_bind, Option.pure_def, Option.bind_eq_some_iff,
      Option.some.injEq] at h
    obtain ⟨instanceId, -, processId, -, status, -, fault, -, createdAt, hcreated, completedAt,
      hcompleted, rfl⟩ := h
    exact ⟨Instant.decodes.required hcreated, Instant.decodes.optional hcompleted⟩
  · cases h

theorem decodes_archived : Decodes Valid ofArchived? := by
  intro v r h
  unfold ofArchived? at h
  obtain ⟨slots, -, h⟩ := Option.bind_eq_some_iff.1 h
  split at h
  · obtain ⟨r', hr, h⟩ := Option.bind_eq_some_iff.1 h
    obtain ⟨state, -, h⟩ := Option.bind_eq_some_iff.1 h
    cases h
    have hvalid := decodes.required hr
    exact ⟨hvalid.created, hvalid.completed⟩
  · cases h

end Record

/-! ### Stores -/

namespace Store

/-- A store with records whose times are valid instants. -/
def Valid (s : Store) : Prop := ∀ id r, s.get? id = some r → r.Valid

theorem valid_empty : Valid ∅ := fun _ _ => nofun

theorem Valid.insert {s : Store} {r : Record} (h : s.Valid) (hr : r.Valid) :
    (s.insert r).Valid := by
  intro id q hq
  rw [get?_insert] at hq
  split at hq
  · cases hq
    exact hr
  · exact h id q hq

/-- A store is made of its records again. -/
theorem foldl_insert_toList (s : Store) : s.toList.foldl insert ∅ = s := by
  have hrecords (l : List Record) (t : Store) : (l.foldl insert t).records =
      (l.map fun r => (r.instanceId, r)).foldl (fun t e => t.insert e.1 e.2) t.records := by
    induction l generalizing t with
    | nil => rfl
    | cons r rest ih => exact ih (t.insert r)
  have hentries : (s.toList.map fun r => (r.instanceId, r)) = s.records.entries := by
    rw [toList, Table.values, List.map_map]
    conv_rhs => rw [← List.map_id s.records.entries]
    exact List.map_congr_left fun e he => Prod.ext (s.keyed e he) rfl
  have htable : (s.toList.foldl insert ∅).records = s.records := by
    rw [hrecords, hentries]
    exact Table.ofList_of_perm (.refl _)
  exact eq_of_get? fun id => congrArg (·.get? id) htable

theorem length_signature : signature.length = 9 := by
  rw [signature, Text.toList_toUTF8]
  rfl

/-- **A store is read back from its archive.** -/
theorem ofBytes?_toBytes {s : Store} (h : s.Valid) : ofBytes? s.toBytes = some s := by
  have hvalid : ∀ r ∈ s.toList, r.Valid := fun r hr => h r.instanceId r (mem_toList_iff.1 hr)
  have hcodec := (Record.archiveCodec 0).list
  have hwritable := (hcodec.writable hvalid).mono (by decide : 3 ≤ Json.depthLimit)
  have hdocument := Json.readDocument_render hwritable fun _ => nofun
  have hlong : ¬ s.toBytes.length ≤ 1 := by
    rw [toBytes, List.length_append, length_signature]
    omega
  have hbegins : signature.isPrefixOf s.toBytes = true :=
    List.isPrefixOf_iff_prefix.2 (List.prefix_append _ _)
  unfold ofBytes?
  rw [if_neg hlong, hbegins, toBytes, List.drop_left, hdocument]
  show ((Json.list? _ _).bind fun records => some (records.foldl insert ∅)) = some s
  rw [hcodec.readBack hvalid, Option.bind_some, foldl_insert_toList]

/-- What is read from an archive can be read back. -/
theorem valid_of_ofBytes? {bytes : List UInt8} {s : Store} (h : ofBytes? bytes = some s) :
    s.Valid := by
  unfold ofBytes? at h
  split at h
  · cases h
    exact valid_empty
  · split at h
    · cases h
    · obtain ⟨v, -, h⟩ := Option.bind_eq_some_iff.1 h
      obtain ⟨records, hrecords, h⟩ := Option.bind_eq_some_iff.1 h
      cases h
      have hvalid := Record.decodes_archived.list v records hrecords
      exact List.foldlRecOn records insert valid_empty fun s hs r hr => hs.insert (hvalid r hr)

end Store

end Perdure
