import Perdure.Definition.Json
import Perdure.Proofs.Json.Codec

/-!
# Definitions are read back

A definition can be written when its references are words of 32 bits.  It is then read back from its
text: the fields of an activity and those of its kind, which stand beside each other in one object,
are told apart by their names.

## Main definitions

* `Definition.Writable` — all references of a definition are words.

## Main results

* `ActivityKind.written` — the fields of a kind are read back.
* `Activity.codec`, `Definition.codec` — activities and definitions are read back.
* `Definition.readText?_text` — a definition is read back from its text.
-/

namespace Perdure

open Json (Codec Fielded Slot View Written)

/-! ### Parts -/

section

variable (view : Json → Json) [View view]

theorem ActivityId.codec (d : Nat) : Codec view (· < 2 ^ 32) d .nat ActivityId.ofJson? :=
  .word32 view d

/-- An object with one member is seen with this member. -/
theorem view_singleton (name text : String) :
    view (.obj [(name, .str text)]) = .obj [(name, .str text)] := by
  obtain ⟨members, hview, hp⟩ := @View.obj view _ [(name, .str text)] (List.pairwise_singleton _ _)
  rw [hview, List.perm_singleton.1 hp]
  exact congrArg (fun v => Json.obj [(name, v)]) (View.str text)

theorem Deadline.codec (d : Nat) :
    Codec view (fun _ => True) (d + 1) Deadline.toJson Deadline.ofJson? where
  writable {a} _ := by
    have hmember (name text : String) (hk : name ≠ Json.embeddedKey) :
        (Json.obj [(name, .str text)]).Writable (d + 1) :=
      .obj (fun he => hk (Option.some.inj he)) (List.pairwise_singleton _ _) fun m hm => by
        rw [List.mem_singleton.1 hm]
        exact .str d text
    cases a with
    | delay duration => exact hmember "for" duration (by decide)
    | instant timestamp => exact hmember "until" timestamp (by decide)
  readBack {a} _ := by
    cases a <;> rw [toJson, view_singleton view] <;> rfl

/-- The reference of an alarm is a word. -/
def Alarm.Fits (a : Alarm) : Prop := a.activity < 2 ^ 32

theorem Alarm.codec (d : Nat) : Codec view Alarm.Fits (d + 1) Alarm.toJson Alarm.ofJson? := by
  refine .ofRecord ["for", "until", "repeat", "activity"] _ (by decide) (by decide)
    (fun _ => rfl) ?_
  intro a h
  have hdelay := (Codec.str view d).fieldOf "for" (fun _ => nofun)
    fun s (_ : s ∈ a.delay) => trivial
  have hinstant := (Codec.str view d).fieldOf "until" (fun _ => nofun)
    fun s (_ : s ∈ a.instant) => trivial
  have hrepetition := (Codec.str view d).fieldOf "repeat" (fun _ => nofun)
    fun s (_ : s ∈ a.repetition) => trivial
  have hactivity := (ActivityId.codec view d).field "activity" h
  refine ⟨.cons hdelay.fielded (.cons hinstant.fielded (.cons hrepetition.fielded
    (.cons hactivity.fielded .nil))), ?_⟩
  intro v hv
  rw [Alarm.ofJson?, hv]
  simp [hdelay.readBack, hinstant.readBack, hrepetition.readBack, hactivity.readBack]

/-- The nested activities of an agent are words. -/
def Agent.Fits (a : Agent) : Prop := ∀ id ∈ a.nested.keys, id < 2 ^ 32

theorem KeySet.eq_empty_of_isEmpty {κ : Type} [Ord κ] {s : KeySet κ}
    (h : (!Table.isEmpty s) = false) : s = ∅ := by
  rw [Bool.not_eq_false', Table.isEmpty, List.isEmpty_iff] at h
  exact Table.ext h

theorem Agent.namesCodec (d : Nat) :
    Codec view (fun _ => True) (d + 1) Agent.namesJson Agent.names? where
  writable _ := (Codec.str view d).keySet.writable fun _ _ => trivial
  readBack _ := (Codec.str view d).keySet.readBack fun _ _ => trivial

theorem Agent.codec (d : Nat) : Codec view Agent.Fits (d + 2) Agent.toJson Agent.ofJson? := by
  refine .ofRecord ["incoming_links", "outgoing_links", "variables_read", "variables_written",
    "nested"] _ (by decide) (by decide) (fun _ => rfl) ?_
  intro a h
  have hnames (name : String) (s : KeySet String) :=
    (Agent.namesCodec view d).fieldIf name (a := s) trivial ∅ (!s.isEmpty)
      KeySet.eq_empty_of_isEmpty
  have hincoming := hnames "incoming_links" a.incomingLinks
  have houtgoing := hnames "outgoing_links" a.outgoingLinks
  have hread := hnames "variables_read" a.variablesRead
  have hwritten := hnames "variables_written" a.variablesWritten
  have hnested := (ActivityId.codec view d).keySet.fieldIf "nested" h ∅ (!a.nested.isEmpty)
    KeySet.eq_empty_of_isEmpty
  refine ⟨.cons hincoming.fielded (.cons houtgoing.fielded (.cons hread.fielded
    (.cons hwritten.fielded (.cons hnested.fielded .nil)))), ?_⟩
  intro v hv
  rw [Agent.ofJson?, hv]
  simp [hincoming.readBack, houtgoing.readBack, hread.readBack, hwritten.readBack,
    hnested.readBack]

/-! ### Activities -/

/-- The references of a kind are words. -/
def ActivityKind.Fits (k : ActivityKind) : Prop := ∀ id ∈ k.references, id < 2 ^ 32

/-- The written fields of a kind: its name, and fields of other names than those of an activity,
from which the kind is read back. -/
inductive ActivityKind.WrittenKind (d : Nat) (k : ActivityKind) : Prop
  | intro (shape : String) (names : List String) {fields : List (Option (String × Json))}
      (hw : k.fields = Json.field "type" (.str shape) :: fields)
      (hn : (Activity.ownFields ++ "type" :: names).Nodup)
      (hk : Json.embeddedKey ∉ Activity.ownFields ++ "type" :: names)
      (h : List.Forall₂ (Fielded d) names fields)
      (hr : ∀ v, v.slots? names = some (fields.map (Slot.ofField view)) →
        ActivityKind.ofFields? shape v = some k)

/-- The fields of a kind are read back. -/
theorem ActivityKind.written (d : Nat) {k : ActivityKind} (h : k.Fits) :
    k.WrittenKind view (d + 2) := by
  cases k with
  | empty =>
    refine .intro "empty" [] rfl (by decide) (by decide) .nil fun v hv => ?_
    rw [ofFields?, hv]
    rfl
  | throw fault =>
    have hfault := (Codec.str view (d + 2)).field "fault" (a := fault) trivial
    refine .intro "throw" ["fault"] rfl (by decide) (by decide) (.cons hfault.fielded .nil)
      fun v hv => ?_
    rw [ofFields?, hv]
    simp [hfault.readBack]
  | wait deadline =>
    have hdeadline := (Deadline.codec view (d + 1)).field "deadline" (a := deadline) trivial
    refine .intro "wait" ["deadline"] rfl (by decide) (by decide) (.cons hdeadline.fielded .nil)
      fun v hv => ?_
    rw [ofFields?, hv]
    simp [hdeadline.readBack]
  | sequence children =>
    have hchildren := (ActivityId.codec view (d + 1)).list.field "children" (a := children) h
    refine .intro "sequence" ["children"] rfl (by decide) (by decide) (.cons hchildren.fielded .nil)
      fun v hv => ?_
    rw [ofFields?, hv]
    simp [hchildren.readBack]
  | scope body alarms compensation =>
    have hall : ∀ id ∈ body :: (alarms.map (·.activity) ++ compensation.toList), id < 2 ^ 32 := h
    have hbody := (ActivityId.codec view (d + 2)).field "body" (hall _ List.mem_cons_self)
    have halarms := (Alarm.codec view d).list.fieldIf "alarms" (a := alarms)
      (fun a ha => hall _ (List.mem_cons_of_mem _ (List.mem_append_left _
        (List.mem_map_of_mem ha)))) [] (!alarms.isEmpty) (fun he => by simpa using he)
    have hcompensation := (ActivityId.codec view (d + 2)).fieldOf "compensation" (fun _ => nofun)
      (o := compensation) fun id hid => hall _ (List.mem_cons_of_mem _ (List.mem_append_right _
        (Option.mem_toList.2 hid)))
    refine .intro "scope" ["body", "alarms", "compensation"] rfl (by decide) (by decide)
      (.cons hbody.fielded (.cons halarms.fielded (.cons hcompensation.fielded .nil)))
      fun v hv => ?_
    rw [ofFields?, hv]
    simp [hbody.readBack, halarms.readBack, hcompensation.readBack]

end

/-- A kind that is named, not numbered, keeps its name. -/
theorem ActivityKind.nameNumbered_eq {m : String × Json} (h : m.1 = "type" → ∃ s, m.2 = .str s) :
    nameNumbered m = m := by
  unfold nameNumbered
  split
  · next n =>
    obtain ⟨s, hs⟩ := h rfl
    cases hs
  · rfl

/-- A kind is read from the members that it is written as. -/
theorem ActivityKind.ofMembers?_fields {k : ActivityKind} (h : k.Fits) :
    ofMembers? (Json.seen .asWritten k.fields) = some k := by
  obtain @⟨shape, names, fields, hw, hn, -, hf, hr⟩ := k.written .asWritten 0 h
  have hnames : ("type" :: names).Nodup := (List.nodup_append.1 hn).2.1
  rw [hw]
  have hnamed (m : String × Json)
      (hm : m ∈ Json.seen .asWritten (Json.field "type" (.str shape) :: fields)) :
      nameNumbered m = m := by
    refine nameNumbered_eq fun he => ?_
    rcases List.mem_cons.1 hm with rfl | hm
    · exact ⟨shape, rfl⟩
    · obtain ⟨n, hn, rfl⟩ := List.mem_map.1 hm
      exact absurd (he ▸ (Json.mem_names_of_fielded hf hn).1) (List.nodup_cons.1 hnames).1
  obtain ⟨v, htag, hslots⟩ := Json.exists_tagged?_of_perm hf hnames
    (.refl (Json.seen .asWritten (Json.field "type" (.str shape) :: fields)))
  rw [ofMembers?, List.map_congr_left hnamed, List.map_id', htag]
  exact hr v hslots

/-- The references of an activity are words. -/
structure Activity.Fits (a : Activity) : Prop where
  id : a.id < 2 ^ 32
  agent : a.agent.Fits
  kind : a.kind.Fits

namespace Activity

/-- The written fields of an activity that do not belong to its kind. -/
def writtenFields (a : Activity) : List (Option (String × Json)) :=
  [Json.field "id" (.nat a.id), Json.fieldOf "name" .str a.name,
   Json.fieldIf "agent" (!a.agent.isEmpty) a.agent.toJson]

theorem toJson_eq (a : Activity) :
    a.toJson = .obj (Json.seen .asWritten (a.writtenFields ++ a.kind.fields)) :=
  Json.record_eq _

theorem agent_eq_of_isEmpty {a : Agent} (h : (!a.isEmpty) = false) : a = {} := by
  obtain ⟨incoming, outgoing, read, written, nested⟩ := a
  rw [Bool.not_eq_false'] at h
  simp only [Agent.isEmpty, Bool.and_eq_true] at h
  obtain ⟨⟨⟨⟨hincoming, houtgoing⟩, hread⟩, hwritten⟩, hnested⟩ := h
  have hempty {κ : Type} [Ord κ] {s : KeySet κ} (hs : Table.isEmpty s = true) : s = ∅ :=
    KeySet.eq_empty_of_isEmpty (by rw [hs]; rfl)
  rw [hempty hincoming, hempty houtgoing, hempty hread, hempty hwritten, hempty hnested]

/-- An activity is read back below so many lists and objects that there is room for it. -/
theorem codec (d above : Nat) (hd : d + 3 + above ≤ Json.depthLimit) :
    Codec .asWritten Fits (d + 3) toJson (ofJson? above) := by
  have hid {a : Activity} (h : a.Fits) := (ActivityId.codec .asWritten (d + 2)).field "id" h.id
  have hname (a : Activity) := (Codec.str .asWritten (d + 2)).fieldOf "name" (fun _ => nofun)
    fun s (_ : s ∈ a.name) => trivial
  have hagent {a : Activity} (h : a.Fits) := (Agent.codec .asWritten d).fieldIf "agent" h.agent {}
    (!a.agent.isEmpty) agent_eq_of_isEmpty
  have hown {a : Activity} (h : a.Fits) :
      List.Forall₂ (Fielded (d + 2)) ownFields a.writtenFields :=
    .cons (hid h).fielded (.cons (hname a).fielded (.cons (hagent h).fielded .nil))
  have hkind {a : Activity} (h : a.Fits) : ∃ names, (ownFields ++ names).Nodup ∧
      Json.embeddedKey ∉ ownFields ++ names ∧
      List.Forall₂ (Fielded (d + 2)) names a.kind.fields := by
    obtain @⟨shape, names, fields, hw, hn, hk, hf, -⟩ := a.kind.written .asWritten d h.kind
    exact ⟨"type" :: names, hn, hk, hw ▸ .cons (Json.fielded_tag _ _ _) hf⟩
  constructor
  · intro a h
    obtain ⟨names, hn, hk, hf⟩ := hkind h
    exact Json.writable_record (List.rel_append (hown h) hf) hn hk
  · intro a h
    obtain ⟨names, hn, -, hf⟩ := hkind h
    have hothers := Json.filter_seen_append .asWritten (hown h) hf hn
    have hsound : (Json.seen .asWritten a.kind.fields).all (fun m => m.2.sound (above + 1)) =
        true := by
      refine List.all_eq_true.2 fun m hm => ?_
      obtain ⟨n, hn, rfl⟩ := List.mem_map.1 hm
      exact (Json.mem_names_of_fielded hf hn).2.sound_of_le (by omega)
    have hslots := Json.slots?_of_perm_append (hown h) hf hn
      (.refl (Json.seen .asWritten (a.writtenFields ++ a.kind.fields)))
    show ofJson? above a.toJson = some a
    rw [toJson_eq, ofJson?]
    simp only [hothers, hsound, hslots]
    simp [writtenFields, Slot.optional_ofField, (hid h).readBack, (hname a).readBack,
      (hagent h).readBack, a.kind.ofMembers?_fields h.kind]

end Activity

/-! ### Definitions -/

namespace Definition

/-- All references of a definition are words. -/
structure Writable (d : Definition) : Prop where
  root : d.root < 2 ^ 32
  activities : ∀ a ∈ d.activities, a.Fits

/-- A definition is read back. -/
theorem codec : Codec .asWritten Writable 5 toJson ofJson? := by
  refine .ofRecord ["process_id", "name", "root", "activities"] _ (by decide) (by decide)
    (fun _ => rfl) ?_
  intro d h
  have hprocess := (Codec.str .asWritten 4).field "process_id" (a := d.processId) trivial
  have hname := (Codec.str .asWritten 4).field "name" (a := d.name) trivial
  have hroot := (ActivityId.codec .asWritten 4).field "root" h.root
  have hactivities := (Activity.codec 0 2 (by decide)).list.field "activities" h.activities
  refine ⟨.cons hprocess.fielded (.cons hname.fielded (.cons hroot.fielded
    (.cons hactivities.fielded .nil))), ?_⟩
  intro v hv
  rw [ofJson?, hv]
  simp [hprocess.readBack, hname.readBack, hroot.readBack, hactivities.readBack]

/-- A definition is read back from its text. -/
theorem readText?_text {d : Definition} (h : d.Writable) :
    (Json.readText? d.text).bind ofJson? = some d := by
  have hwritable := (codec.writable h).mono (e := Json.depthLimit) (by decide)
  rw [Json.readText?, text, Json.read_render hwritable nofun]
  exact codec.readBack h

end Definition

end Perdure
