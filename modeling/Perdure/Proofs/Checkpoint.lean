import Mathlib.Data.List.Nodup
import Perdure.Checkpoint
import Perdure.Proofs.Instance.Codec
import Perdure.Proofs.Instance.Shapes

/-!
# Checkpoints are read back

A soup whose numbers are words can be written.  If its instants are valid as well, it is read back
from its checkpoint, but for the effects not yet handed over, and writing it again gives the same
bytes.  If they are proper only, it is read back with its instants as they are shown, which have the
same written form.  Tables that rename none of its shapes make no difference.

## Main definitions

* `Soup.Fits` — all numbers of a soup are words, and all its instants have a given property.
* `Soup.Sized` — all numbers of a soup are words.
* `Soup.shown` — a soup with its instants as they are shown.

## Main results

* `Channel.tableCodec` — a table of channels is read back, in whatever order its keys were sorted.
* `Checkpoint.document_write` — the document of a soup whose numbers are words is found in its
  checkpoint.
* `Checkpoint.read_write_of_keeps`, `Checkpoint.read_write_of_spares`, `Checkpoint.read_write` — a
  soup that fits is read back from its checkpoint.
* `Checkpoint.read_write_of_proper`, `Checkpoint.write_restored` — a soup whose instants are proper
  is read back as it is shown, which is written alike.
-/

namespace Perdure

open Json (Codec Slot)

/-! ### Tables of channels -/

/-- The written number of a channel is read back. -/
theorem Channel.ofKey?_toString {c : Nat} (h : c < 2 ^ 64) :
    Channel.ofKey? (toString c) = some c := by
  have hcs : (toString c).toList = Nat.toDigits 10 c := Nat.toList_repr
  have hall := Text.all_isDigit_toDigits c
  have hvalue := Text.ofDigits_toDigits c
  have hne : (Nat.toDigits 10 c).isEmpty = false := by
    simp [Nat.toDigits_ne_nil]
  have hzero : (decide ((Nat.toDigits 10 c).head? = some '0') &&
      decide ((Nat.toDigits 10 c).length ≠ 1)) = false := by
    rcases Text.toDigits_cases c with hd | ⟨d, ds, hd, hd0, -⟩
    · rw [hd]
      rfl
    · rw [hd, List.head?_cons, decide_eq_false (by simpa using hd0), Bool.false_and]
  unfold Channel.ofKey?
  simp only [hcs, hall, hne, hzero, hvalue]
  rw [if_neg (by simp), if_pos (show c < UInt64.size from h)]

/-- No channel is written twice in a table. -/
theorem Channel.nodup_keys_tableJson {ν α : Type} (value : ν → α) (t : Table Channel ν) :
    ((t.entries.map fun e => (toString e.1, value e.2)).map Prod.fst).Nodup := by
  have hinj : Function.Injective (fun c : Channel => toString c) := fun a b he => by
    have hcs : Nat.toDigits 10 a = Nat.toDigits 10 b := by
      simpa using congrArg String.toList he
    rw [← Text.ofDigits_toDigits a, hcs, Text.ofDigits_toDigits]
  have hmap : (t.entries.map fun e => (toString e.1, value e.2)).map Prod.fst =
      (t.entries.map Prod.fst).map fun c => toString c := by
    rw [List.map_map, List.map_map]
    rfl
  rw [hmap]
  exact List.Nodup.map hinj (Table.nodup_keys t.ordered)

/-- The members of a written table, as a finite map sees them. -/
theorem Channel.perm_collapse {ν : Type} (write : ν → Json) (t : Table Channel ν) :
    ∃ members, (Channel.tableJson write t).collapse = .obj members ∧
      members.Perm (t.entries.map fun e => (toString e.1, (write e.2).collapse)) := by
  have hperm := Json.perm_collapseMembers (Channel.nodup_keys_tableJson write t)
  rw [List.map_map] at hperm
  exact ⟨_, rfl, hperm⟩

/-- A table of channels can be written if its keys are words and its values can be written. -/
theorem Channel.writable_tableJson {ν : Type} {d : Nat} {write : ν → Json} {t : Table Channel ν}
    (h : ∀ e ∈ t.entries, e.1 < 2 ^ 64 ∧ (write e.2).Writable d) :
    (Channel.tableJson write t).Writable (d + 1) := by
  refine .obj ?_ (Channel.nodup_keys_tableJson write t) ?_
  · intro he
    obtain ⟨m, hm, hkey⟩ := Option.map_eq_some_iff.1 he
    obtain ⟨e, hmem, rfl⟩ := List.mem_map.1 (List.mem_of_head? hm)
    have hread := Channel.ofKey?_toString (h e hmem).1
    have hnone : Channel.ofKey? Json.embeddedKey = none := by decide
    change toString e.1 = Json.embeddedKey at hkey
    rw [hkey, hnone] at hread
    cases hread
  · intro m hm
    obtain ⟨e, he, rfl⟩ := List.mem_map.1 hm
    exact (h e he).2

/-- A table of channels is read back, in whatever order its keys were sorted. -/
theorem Channel.tableCodec {ν : Type} {fits : ν → Prop} {d : Nat} {write : ν → Json}
    {read : Json → Option ν} (h : Codec .collapse fits d write read) :
    Codec .collapse (fun t : Table Channel ν => ∀ e ∈ t.entries, e.1 < 2 ^ 64 ∧ fits e.2) (d + 1)
      (Channel.tableJson write) (Channel.table? read) where
  writable ht := Channel.writable_tableJson fun e he => ⟨(ht e he).1, h.writable (ht e he).2⟩
  readBack {t} ht := by
    obtain ⟨members, hcollapse, hperm⟩ := Channel.perm_collapse write t
    let asEntry (m : String × Json) : Option (Channel × ν) := do
      pure (← Channel.ofKey? m.1, ← read m.2)
    have hentry (e : Channel × ν) (he : e ∈ t.entries) :
        asEntry (toString e.1, (write e.2).collapse) = some e := by
      simp only [asEntry, Channel.ofKey?_toString (ht e he).1, h.readBack (ht e he).2]
      rfl
    -- every member is an entry again, so the members are the entries in another order
    have hread : members.mapM asEntry = some (members.filterMap asEntry) := by
      apply Json.mapM_eq_some_filterMap
      intro m hm
      obtain ⟨e, he, rfl⟩ := List.mem_map.1 (hperm.mem_iff.1 hm)
      rw [hentry e he]
      rfl
    have hentries : (members.filterMap asEntry).Perm t.entries := by
      refine (hperm.filterMap asEntry).trans ?_
      rw [List.filterMap_map]
      exact .of_eq (Json.filterMap_eq_self hentry)
    rw [hcollapse]
    show (members.mapM asEntry).bind (fun entries => some (Table.ofList entries)) = some t
    rw [hread, Option.bind_some, Table.ofList_of_perm hentries]

/-! ### Soups -/

/-- All numbers of a soup are words, and all its instants have a property. -/
structure Soup.Fits (T : Instant → Prop) (s : InstanceSoup) : Prop where
  global : s.global.Fits
  nextChannel : s.nextChannel < 2 ^ 64
  nextMonotonic : s.nextMonotonic < 2 ^ 64
  runnables : ∀ t ∈ s.runnables, t.Fits T
  choices : ∀ c ∈ s.choices, ∀ a ∈ c.arms, a.channel < 2 ^ 64 ∧ a.handler.Fits
  messages : ∀ e ∈ s.messages.entries, e.1 < 2 ^ 64 ∧ ∀ m ∈ e.2, m.Fits
  closed : ∀ c ∈ s.closed.keys, c < 2 ^ 64
  timers : ∀ e ∈ s.timers.entries, e.1 < 2 ^ 64 ∧ T e.2

/-- All numbers of a soup are words. -/
def Soup.Sized : InstanceSoup → Prop := Soup.Fits fun _ => True

section

variable {T T' : Instant → Prop} {s : InstanceSoup}

theorem Soup.Fits.mono (hT : ∀ t, T t → T' t) (h : Soup.Fits T s) : Soup.Fits T' s :=
  { h with
    runnables := fun t ht => (h.runnables t ht).mono hT
    timers := fun e he => ⟨(h.timers e he).1, hT e.2 (h.timers e he).2⟩ }

theorem Soup.Fits.sized (h : Soup.Fits T s) : Soup.Sized s := h.mono fun _ _ => trivial

/-- Effects are not looked at. -/
theorem Soup.Fits.drained (h : Soup.Fits T s) : Soup.Fits T { s with outbox := [] } :=
  { h with }

end

theorem Arm.codec (d : Nat) :
    Codec .collapse (fun a : Arm Receiver => a.channel < 2 ^ 64 ∧ a.handler.Fits) (d + 5) Arm.toJson
      Arm.ofJson? := by
  refine .ofRecord ["channel", "handler"] _ (by decide) (by decide) (fun _ => rfl) ?_
  intro a h
  have hchannel := (Channel.codec (d + 4)).field "channel" h.1
  have hhandler := (Receiver.codec d).field "handler" h.2
  refine ⟨.cons hchannel.fielded (.cons hhandler.fielded .nil), ?_⟩
  intro v hv
  rw [Arm.ofJson?, hv]
  simp [hchannel.readBack, hhandler.readBack]

theorem Choice.codec (d : Nat) : Codec .collapse
    (fun c : Choice Receiver => ∀ a ∈ c.arms, a.channel < 2 ^ 64 ∧ a.handler.Fits) (d + 7)
    Choice.toJson Choice.ofJson? := by
  refine .ofRecord ["arms"] _ (by decide) (by decide) (fun _ => rfl) ?_
  intro c h
  have harms := (Arm.codec d).list.field "arms" h
  refine ⟨.cons harms.fielded .nil, ?_⟩
  intro v hv
  rw [Choice.ofJson?, hv]
  simp [harms.readBack]

/-- A soup that has handed over its effects is read back. -/
theorem InstanceSoup.codec : Codec .collapse
    (fun s : InstanceSoup => Soup.Fits Instant.Valid s ∧ s.outbox = []) 9
    InstanceSoup.toJson InstanceSoup.ofJson? := by
  refine .ofRecord ["global", "next_channel", "next_monotonic", "runnables", "choices", "messages",
    "closed", "timers"] _ (by decide) (by decide) (fun _ => rfl) ?_
  intro s h
  obtain ⟨h, houtbox⟩ := h
  have hglobal := (Shared.codec 4).field "global" h.global
  have hchannel := (Codec.word64 .collapse 8).field "next_channel" h.nextChannel
  have hmonotonic := (Codec.word64 .collapse 8).field "next_monotonic" h.nextMonotonic
  have hrunnables := (Task.codec 3).list.field "runnables" h.runnables
  have hchoices := (Choice.codec 0).list.field "choices" h.choices
  have hmessages := (Channel.tableCodec (Message.codec 3).list).field "messages" h.messages
  have hclosed := (Channel.codec 7).keySet.field "closed" h.closed
  have htimers := (Channel.tableCodec (Instant.codec 7)).field "timers" h.timers
  refine ⟨.cons hglobal.fielded (.cons hchannel.fielded (.cons hmonotonic.fielded
    (.cons hrunnables.fielded (.cons hchoices.fielded (.cons hmessages.fielded
    (.cons hclosed.fielded (.cons htimers.fielded .nil))))))), ?_⟩
  intro v hv
  rw [InstanceSoup.ofJson?, hv]
  simp [hglobal.readBack, hchannel.readBack, hmonotonic.readBack, hrunnables.readBack,
    hchoices.readBack, hmessages.readBack, hclosed.readBack, htimers.readBack, ← houtbox]

/-- A soup whose numbers are words can be written. -/
theorem InstanceSoup.writable {s : InstanceSoup} (h : Soup.Sized s) :
    (InstanceSoup.toJson s).Writable 9 := by
  have hrunnables : (Json.arr (s.runnables.map Task.toJson)).Writable 8 := by
    refine .arr fun v hv => ?_
    obtain ⟨t, ht, rfl⟩ := List.mem_map.1 hv
    exact Task.writable (h.runnables t ht) 3
  have htimers : (Channel.tableJson Instant.toJson s.timers).Writable 8 :=
    Channel.writable_tableJson fun e he => ⟨(h.timers e he).1, .str 7 e.2.text⟩
  have hglobal := (Shared.codec 4).writable h.global
  have hchoices := (Choice.codec 0).list.writable h.choices
  have hmessages := (Channel.tableCodec (Message.codec 3).list).writable h.messages
  have hclosed := (Channel.codec 7).keySet.writable h.closed
  have hfields : List.Forall₂ (Json.Fielded 8) ["global", "next_channel", "next_monotonic",
      "runnables", "choices", "messages", "closed", "timers"] _ :=
    .cons (Json.fielded_field _ hglobal) (.cons (Json.fielded_field _ (.nat 8 h.nextChannel))
      (.cons (Json.fielded_field _ (.nat 8 h.nextMonotonic))
      (.cons (Json.fielded_field _ hrunnables) (.cons (Json.fielded_field _ hchoices)
      (.cons (Json.fielded_field _ hmessages) (.cons (Json.fielded_field _ hclosed)
      (.cons (Json.fielded_field _ htimers) .nil)))))))
  exact Json.writable_record hfields (by decide) (by decide)

/-! ### Soups as they are shown -/

/-- A soup with its instants as they are shown. -/
def Soup.shown (s : InstanceSoup) : InstanceSoup :=
  { s with runnables := s.runnables.map Task.shown, timers := s.timers.mapValues Instant.shown }

section

variable {s : InstanceSoup}

/-- A soup has the written form of what it is shown as. -/
theorem Soup.toJson_shown (h : Soup.Fits Instant.Proper s) :
    InstanceSoup.toJson (Soup.shown s) = InstanceSoup.toJson s := by
  have hrunnables : (s.runnables.map Task.shown).map Task.toJson = s.runnables.map Task.toJson := by
    rw [List.map_map]
    exact List.map_congr_left fun t ht => Task.toJson_shown (h.runnables t ht)
  have htimers : Channel.tableJson Instant.toJson (s.timers.mapValues Instant.shown) =
      Channel.tableJson Instant.toJson s.timers := by
    unfold Channel.tableJson Table.mapValues
    rw [List.map_map]
    refine congrArg Json.obj (List.map_congr_left fun e he => ?_)
    have htext : e.2.shown.text = e.2.text := Instant.text_shown (h.timers e he).2.nanos
    simp only [Function.comp, Instant.toJson, htext]
  simp only [InstanceSoup.toJson, shown, hrunnables, htimers]

/-- A soup is shown as one that is read back. -/
theorem Soup.Fits.shown (h : Soup.Fits Instant.Proper s) : Soup.Fits Instant.Valid s.shown :=
  { h with
    runnables := fun t ht => by
      obtain ⟨u, hu, rfl⟩ := List.mem_map.1 ht
      exact (h.runnables u hu).shown
    timers := fun e he => by
      obtain ⟨a, ha, rfl⟩ := List.mem_map.1 he
      exact ⟨(h.timers a ha).1, (h.timers a ha).2.valid_shown⟩ }

/-- A soup whose instants are valid is shown as it is. -/
theorem Soup.Fits.shown_eq (h : Soup.Fits Instant.Valid s) : s.shown = s := by
  have hrunnables : s.runnables.map Task.shown = s.runnables :=
    (List.map_congr_left fun t ht => (h.runnables t ht).shown_eq).trans (List.map_id _)
  have htimers : s.timers.mapValues Instant.shown = s.timers := by
    refine Table.ext ((List.map_congr_left fun e he => ?_).trans (List.map_id _))
    rw [(h.timers e he).2.shown_eq]
    rfl
  rw [Soup.shown, hrunnables, htimers]

end

/-! ### Checkpoints -/

namespace Checkpoint

/-- The effects not yet handed over are not part of a checkpoint. -/
theorem write_drained (s : InstanceSoup) : write { s with outbox := [] } = write s := rfl

theorem length_magic : magic.length = 6 := by
  rw [magic, Text.toList_toUTF8]
  rfl

theorem length_header (version : Nat) : (header version).length = 8 := by
  rw [header, List.length_append, length_magic]
  rfl

/-- What is stored behind a header is read as a document; where it ends too early, so do the bytes
as a whole. -/
theorem document_header (bytes : List UInt8) : document (header version ++ bytes) =
    match Json.readDocument bytes with
    | .ok v => .ok v
    | .error .early => .error (.truncated (header version ++ bytes).length)
    | .error .malformed => .error .malformed := by
  have hheader : header version = magic ++ [0, 1] := rfl
  have htake : (header version ++ bytes).take magic.length = magic := by
    rw [hheader, List.append_assoc, List.take_left]
  have hdrop : (header version ++ bytes).drop magic.length = 0 :: 1 :: bytes := by
    rw [hheader, List.append_assoc, List.drop_left]
    rfl
  have hbody : (header version ++ bytes).drop (magic.length + 2) = bytes := by
    rw [← List.drop_drop, hdrop]
    rfl
  have hlong : ¬ (header version ++ bytes).length < magic.length + 2 := by
    rw [List.length_append, length_header, length_magic]
    omega
  unfold document
  rw [if_neg hlong, if_neg (by rw [htake]; exact fun hne => hne rfl), hdrop, hbody]
  rfl

/-- What stored bytes hold is the soup of what a table makes of their document. -/
theorem read_of_document {t : RemapTable} {bytes : List UInt8} {v w : Json} {s : InstanceSoup}
    (hv : document bytes = .ok v) (ht : t.apply v = .ok w) (hs : InstanceSoup.ofJson? w = some s) :
    read t bytes = .ok s := by
  unfold read
  simp only [hv, bind, Except.bind, ht, Except.mapError, hs]
  rfl

/-- A soup whose numbers are words can be written. -/
theorem writable_toJson {s : InstanceSoup} (h : Soup.Sized s) :
    (InstanceSoup.toJson s).Writable Json.depthLimit :=
  (InstanceSoup.writable h).mono (by decide)

/-- A soup that fits is read back from its document, but for the effects not yet handed over. -/
theorem ofJson?_toJson {s : InstanceSoup} (h : Soup.Fits Instant.Valid s) :
    InstanceSoup.ofJson? (InstanceSoup.toJson s).collapse = some { s with outbox := [] } :=
  InstanceSoup.codec.readBack ⟨h.drained, rfl⟩

/-- The document of a soup whose numbers are words is found in its checkpoint. -/
theorem document_write {s : InstanceSoup} (h : Soup.Sized s) :
    document (write s) = .ok (InstanceSoup.toJson s).collapse := by
  have hbody : Json.readDocument (body s).toUTF8.toList = .ok (InstanceSoup.toJson s).collapse :=
    Json.readDocument_render (writable_toJson h) fun _ => nofun
  rw [write, document_header, hbody]

/-- What is read of a checkpoint is what a table makes of its document. -/
theorem toOption_read {bytes : List UInt8} {v : Json} (hd : document bytes = .ok v)
    (t : RemapTable) : (read t bytes).toOption = (t.apply v).toOption.bind InstanceSoup.ofJson? := by
  unfold read
  rw [hd]
  cases happly : t.apply v with
  | error e =>
    simp only [bind, Except.bind, happly]
    rfl
  | ok w =>
    simp only [bind, Except.bind, happly, Except.mapError]
    cases hw : InstanceSoup.ofJson? w <;> simp only [hw, Except.toOption, Option.bind] <;> rfl

theorem toOption_read_write {s : InstanceSoup} (h : Soup.Sized s) (t : RemapTable) :
    (read t (write s)).toOption =
      (t.apply (InstanceSoup.toJson s).collapse).toOption.bind InstanceSoup.ofJson? :=
  toOption_read (document_write h) t

/-- A soup that fits is read back from its checkpoint, but for the effects not yet handed over, with
any table that keeps its document. -/
theorem read_write_of_keeps {t : RemapTable} {s : InstanceSoup}
    (ht : t.Keeps (InstanceSoup.toJson s)) (h : Soup.Fits Instant.Valid s) :
    read t (write s) = .ok { s with outbox := [] } := by
  have hkeeps : t.Keeps (InstanceSoup.toJson s).collapse := Json.Shaped.collapse ht
  exact read_of_document (document_write h.sized) hkeeps.apply_eq_ok (ofJson?_toJson h)

/-- A soup that fits is read back with any table that spares its shapes. -/
theorem read_write_of_spares {t : RemapTable} (ht : t.Spares InstanceSoup.shapes)
    {s : InstanceSoup} (h : Soup.Fits Instant.Valid s) :
    read t (write s) = .ok { s with outbox := [] } :=
  read_write_of_keeps (ht.keeps (Json.Shaped.instanceSoup s)) h

/-- A soup that fits is read back from its checkpoint, but for the effects not yet handed over. -/
theorem read_write {s : InstanceSoup} (h : Soup.Fits Instant.Valid s) :
    read ∅ (write s) = .ok { s with outbox := [] } :=
  read_write_of_spares (RemapTable.spares_empty _) h

/-- A soup and what it is shown as have the same checkpoint. -/
theorem write_shown {s : InstanceSoup} (h : Soup.Fits Instant.Proper s) :
    write s.shown = write s := by
  rw [write, write, body, body, Soup.toJson_shown h]

/-- With any table that spares its shapes, a soup whose instants are proper is read back as it is
shown, but for the effects not yet handed over. -/
theorem read_write_of_proper {t : RemapTable} (ht : t.Spares InstanceSoup.shapes)
    {s : InstanceSoup} (h : Soup.Fits Instant.Proper s) :
    read t (write s) = .ok { s.shown with outbox := [] } := by
  rw [← write_shown h, read_write_of_spares ht h.shown]

/-- What is read back has the checkpoint that it was read from. -/
theorem write_restored {s : InstanceSoup} (h : Soup.Fits Instant.Proper s) :
    write { s.shown with outbox := [] } = write s := by
  rw [write_drained, write_shown h]

end Checkpoint

end Perdure
