import Perdure.Instance.Json
import Perdure.Proofs.Definition.Codec
import Perdure.Proofs.Instance.Requests
import Perdure.Proofs.Time.Stored

/-!
# The state of an instance is read back

A state fits when its numbers are words, of 64 bits for channels and counters and of 32 bits for
the places in a definition.  Whatever fits can be written, and is read back if its instants are
valid: every kind of task and receiver, every message and request.

## Main definitions

* `Run.Fits`, …, `Receiver.Fits`, `Shared.Fits` — the numbers are words.
* `Task.Fits` — the numbers of a task are words, and its deadline has a given property.
* `Task.shown` — a task with its deadline as it is shown.

## Main results

* `Task.codec`, `Receiver.codec`, `Message.codec`, `Shared.codec` — what fits is read back.
* `Task.writable` — a task can be written whatever its deadline.
-/

namespace Perdure

open Json (Codec Slot)

/-! ### Scalars -/

theorem Channel.codec (d : Nat) : Codec .collapse (· < 2 ^ 64) d .nat Channel.ofJson? :=
  .word64 _ d

theorem Instant.codec (d : Nat) :
    Codec .collapse Instant.Valid d Instant.toJson Instant.ofJson? where
  writable {t} _ := .str d t.text
  readBack {t} h := by
    show (some t.text).bind Instant.ofStored? = some t
    rw [Option.bind_some, Instant.ofStored?_text h]

/-! ### Faults and compensations -/

theorem Fault.codec (d : Nat) :
    Codec .collapse (fun _ => True) (d + 1) Fault.toJson Fault.ofJson? := by
  refine .ofRecord ["name", "explanation"] _ (by decide) (by decide) (fun _ => rfl) ?_
  intro f _
  have hname := (Codec.str .collapse d).field "name" (a := f.name) trivial
  have hexplanation := (Codec.str .collapse d).fieldOf "explanation" (fun _ => nofun)
    fun s (_ : s ∈ f.explanation) => trivial
  refine ⟨.cons hname.fielded (.cons hexplanation.fielded .nil), ?_⟩
  intro v hv
  rw [Fault.ofJson?, hv]
  simp [hname.readBack, hexplanation.readBack]

/-- The numbers of a handler are words. -/
structure Compensation.Fits (c : Compensation) : Prop where
  scopeInstance : c.scopeInstance < 2 ^ 64
  scope : c.scope < 2 ^ 32
  activity : c.activity < 2 ^ 32

theorem Compensation.codec (d : Nat) :
    Codec .collapse Compensation.Fits (d + 1) Compensation.toJson Compensation.ofJson? := by
  refine .ofRecord ["scope_instance", "scope", "activity"] _ (by decide) (by decide)
    (fun _ => rfl) ?_
  intro c h
  have hinstance := (Codec.word64 .collapse d).field "scope_instance" h.scopeInstance
  have hscope := (ActivityId.codec .collapse d).field "scope" h.scope
  have hactivity := (ActivityId.codec .collapse d).field "activity" h.activity
  refine ⟨.cons hinstance.fielded (.cons hscope.fielded (.cons hactivity.fielded .nil)), ?_⟩
  intro v hv
  rw [Compensation.ofJson?, hv]
  simp [hinstance.readBack, hscope.readBack, hactivity.readBack]

/-- The numbers of all handlers are words. -/
def Compensations.Fits (cs : Compensations) : Prop := ∀ c ∈ cs.keys, c.Fits

theorem Compensations.codec (d : Nat) :
    Codec .collapse Compensations.Fits (d + 2) Compensations.toJson Compensations.ofJson? :=
  (Compensation.codec d).keySet

/-! ### Messages -/

/-- The numbers of a message are words. -/
def Message.Fits : Message → Prop
  | .completed _ compensations => Compensations.Fits compensations
  | .compensate scope reply => scope < 2 ^ 32 ∧ reply < 2 ^ 64
  | _ => True

/-- A message of which nothing but its case is written. -/
theorem Message.writtenCase_bare {d : Nat} {m : Message} (hw : m.toJson = variant m.shape [])
    (hr : ∀ w v, Json.tagged? shapeTag w = some (m.shape, v) →
      Message.ofJson? w = (Json.slots? [] v).map fun _ => m) :
    Json.WrittenCase .collapse d shapeTag Message.ofJson? m m.toJson := by
  refine .intro m.shape [] hw (by decide) (by decide) .nil ?_
  intro w v hw hv
  rw [hr w v hw, hv]
  rfl

theorem Message.codec (d : Nat) :
    Codec .collapse Message.Fits (d + 3) Message.toJson Message.ofJson? := by
  refine .ofCases shapeTag ?_
  intro m h
  cases m with
  | completed fault compensations =>
    have hfault := (Fault.codec (d + 1)).fieldOf "fault" (fun _ => nofun) fun a (_ : a ∈ fault) =>
      trivial
    have hcs := (Compensations.codec d).fieldIf "compensations" h ∅ (!compensations.isEmpty)
      fun he => by
        rw [Bool.not_eq_false'] at he
        exact Table.ext (List.isEmpty_iff.1 he)
    refine .intro "completed" ["fault", "compensations"] rfl (by decide) (by decide)
      (.cons hfault.fielded (.cons hcs.fielded .nil)) ?_
    intro w v hw hv
    rw [Message.ofJson?, hw]
    simp [hv, hfault.readBack, hcs.readBack]
  | failure reason =>
    have hreason := (Codec.str .collapse (d + 2)).field "reason" (a := reason) trivial
    refine .intro "failure" ["reason"] rfl (by decide) (by decide) (.cons hreason.fielded .nil) ?_
    intro w v hw hv
    rw [Message.ofJson?, hw]
    simp [hv, hreason.readBack]
  | compensate scope reply =>
    have hscope := (ActivityId.codec .collapse (d + 2)).field "scope" h.1
    have hreply := (Channel.codec (d + 2)).field "reply" h.2
    refine .intro "compensate" ["scope", "reply"] rfl (by decide) (by decide)
      (.cons hscope.fielded (.cons hreply.fielded .nil)) ?_
    intro w v hw hv
    rw [Message.ofJson?, hw]
    simp [hv, hscope.readBack, hreply.readBack]
  | stop => exact Message.writtenCase_bare rfl fun w v hw => by rw [Message.ofJson?, hw]; rfl
  | terminate => exact Message.writtenCase_bare rfl fun w v hw => by rw [Message.ofJson?, hw]; rfl
  | timeout => exact Message.writtenCase_bare rfl fun w v hw => by rw [Message.ofJson?, hw]; rfl
  | timerCancelled =>
    exact Message.writtenCase_bare rfl fun w v hw => by rw [Message.ofJson?, hw]; rfl
  | cancelled => exact Message.writtenCase_bare rfl fun w v hw => by rw [Message.ofJson?, hw]; rfl

/-! ### Activities under way -/

/-- The numbers of a run are words. -/
structure Run.Fits (r : Run) : Prop where
  id : r.id < 2 ^ 64
  activity : r.activity < 2 ^ 32
  termination : r.termination < 2 ^ 64
  parent : r.parent < 2 ^ 64

theorem Run.codec (d : Nat) : Codec .collapse Run.Fits (d + 1) Run.toJson Run.ofJson? := by
  refine .ofRecord ["id", "activity", "termination", "parent"] _ (by decide) (by decide)
    (fun _ => rfl) ?_
  intro r h
  have hid := (Codec.word64 .collapse d).field "id" h.id
  have hactivity := (ActivityId.codec .collapse d).field "activity" h.activity
  have htermination := (Channel.codec d).field "termination" h.termination
  have hparent := (Channel.codec d).field "parent" h.parent
  refine ⟨.cons hid.fielded (.cons hactivity.fielded (.cons htermination.fielded
    (.cons hparent.fielded .nil))), ?_⟩
  intro v hv
  rw [Run.ofJson?, hv]
  simp [hid.readBack, hactivity.readBack, htermination.readBack, hparent.readBack]

/-- The numbers of a sequence are words. -/
structure SequenceRun.Fits (s : SequenceRun) : Prop where
  run : s.run.Fits
  position : s.position < 2 ^ 64
  compensations : Compensations.Fits s.compensations

theorem SequenceRun.codec (d : Nat) :
    Codec .collapse SequenceRun.Fits (d + 3) SequenceRun.toJson SequenceRun.ofJson? := by
  refine .ofRecord ["info", "position", "compensations", "terminated"] _ (by decide) (by decide)
    (fun _ => rfl) ?_
  intro s h
  have hrun := (Run.codec (d + 1)).field "info" h.run
  have hposition := (Codec.word64 .collapse (d + 2)).field "position" h.position
  have hcs := (Compensations.codec d).fieldFor "compensations" h.compensations ∅
  have hterminated :=
    (Codec.bool .collapse (d + 2)).fieldFor "terminated" (a := s.terminated) trivial false
  refine ⟨.cons hrun.fielded (.cons hposition.fielded (.cons hcs.fielded
    (.cons hterminated.fielded .nil))), ?_⟩
  intro v hv
  rw [SequenceRun.ofJson?, hv]
  simp [hrun.readBack, hposition.readBack, hcs.readBack, hterminated.readBack]

/-- The channels of a link are words. -/
structure AlarmLink.Fits (l : AlarmLink) : Prop where
  parent : l.parent < 2 ^ 64
  termination : l.termination < 2 ^ 64
  control : l.control < 2 ^ 64

theorem AlarmLink.codec (d : Nat) :
    Codec .collapse AlarmLink.Fits (d + 1) AlarmLink.toJson AlarmLink.ofJson? := by
  refine .ofRecord ["parent", "termination", "control", "done"] _ (by decide) (by decide)
    (fun _ => rfl) ?_
  intro l h
  have hparent := (Channel.codec d).field "parent" h.parent
  have htermination := (Channel.codec d).field "termination" h.termination
  have hcontrol := (Channel.codec d).field "control" h.control
  have hdone := (Codec.bool .collapse d).fieldFor "done" (a := l.done) trivial false
  refine ⟨.cons hparent.fielded (.cons htermination.fielded (.cons hcontrol.fielded
    (.cons hdone.fielded .nil))), ?_⟩
  intro v hv
  rw [AlarmLink.ofJson?, hv]
  simp [hparent.readBack, htermination.readBack, hcontrol.readBack, hdone.readBack]

/-- The numbers of a scope are words. -/
structure ScopeRun.Fits (s : ScopeRun) : Prop where
  run : s.run.Fits
  body : ∀ r ∈ s.body, r.Fits
  handlers : ∀ l ∈ s.handlers, l.Fits
  compensations : Compensations.Fits s.compensations

theorem ScopeRun.codec (d : Nat) :
    Codec .collapse ScopeRun.Fits (d + 3) ScopeRun.toJson ScopeRun.ofJson? := by
  refine .ofRecord ["info", "body", "handlers", "compensations", "fault", "terminating"] _
    (by decide) (by decide) (fun _ => rfl) ?_
  intro s h
  have hrun := (Run.codec (d + 1)).field "info" h.run
  have hbody := (Run.codec (d + 1)).nullable "body" (fun _ => nofun) h.body
  have hhandlers := (AlarmLink.codec d).list.field "handlers" h.handlers
  have hcs := (Compensations.codec d).fieldFor "compensations" h.compensations ∅
  have hfault := (Fault.codec (d + 1)).fieldOf "fault" (fun _ => nofun)
    fun f (_ : f ∈ s.fault) => trivial
  have hterminating :=
    (Codec.bool .collapse (d + 2)).fieldFor "terminating" (a := s.terminating) trivial false
  refine ⟨.cons hrun.fielded (.cons hbody.fielded (.cons hhandlers.fielded (.cons hcs.fielded
    (.cons hfault.fielded (.cons hterminating.fielded .nil))))), ?_⟩
  intro v hv
  rw [ScopeRun.ofJson?, hv]
  simp [hrun.readBack, hbody.readBack, hhandlers.readBack, hcs.readBack, hfault.readBack,
    hterminating.readBack]

/-- The numbers of the place of an alarm are words. -/
structure AlarmRef.Fits (a : AlarmRef) : Prop where
  scope : a.scope < 2 ^ 32
  index : a.index < 2 ^ 32

theorem AlarmRef.codec (d : Nat) :
    Codec .collapse AlarmRef.Fits (d + 1) AlarmRef.toJson AlarmRef.ofJson? := by
  refine .ofRecord ["scope", "index"] _ (by decide) (by decide) (fun _ => rfl) ?_
  intro a h
  have hscope := (ActivityId.codec .collapse d).field "scope" h.scope
  have hindex := (Codec.word32 .collapse d).field "index" h.index
  refine ⟨.cons hscope.fielded (.cons hindex.fielded .nil), ?_⟩
  intro v hv
  rw [AlarmRef.ofJson?, hv]
  simp [hscope.readBack, hindex.readBack]

/-- The numbers of an alarm are words. -/
structure AlarmRun.Fits (a : AlarmRun) : Prop where
  alarm : a.alarm.Fits
  scopeInstance : a.scopeInstance < 2 ^ 64
  parent : a.parent < 2 ^ 64
  termination : a.termination < 2 ^ 64
  control : a.control < 2 ^ 64
  compensations : Compensations.Fits a.compensations

theorem AlarmRun.codec (d : Nat) :
    Codec .collapse AlarmRun.Fits (d + 3) AlarmRun.toJson AlarmRun.ofJson? := by
  refine .ofRecord ["alarm", "scope_instance", "parent", "termination", "control",
    "compensations"] _ (by decide) (by decide) (fun _ => rfl) ?_
  intro a h
  have halarm := (AlarmRef.codec (d + 1)).field "alarm" h.alarm
  have hinstance := (Codec.word64 .collapse (d + 2)).field "scope_instance" h.scopeInstance
  have hparent := (Channel.codec (d + 2)).field "parent" h.parent
  have htermination := (Channel.codec (d + 2)).field "termination" h.termination
  have hcontrol := (Channel.codec (d + 2)).field "control" h.control
  have hcs := (Compensations.codec d).fieldFor "compensations" h.compensations ∅
  refine ⟨.cons halarm.fielded (.cons hinstance.fielded (.cons hparent.fielded
    (.cons htermination.fielded (.cons hcontrol.fielded (.cons hcs.fielded .nil))))), ?_⟩
  intro v hv
  rw [AlarmRun.ofJson?, hv]
  simp [halarm.readBack, hinstance.readBack, hparent.readBack, htermination.readBack,
    hcontrol.readBack, hcs.readBack]

/-! ### Tasks and receivers -/

/-- The numbers of a task are words, and its deadline has a property. -/
def Task.Fits (T : Instant → Prop) : Task → Prop
  | .activity run => run.Fits
  | .sequenceStep sequence => sequence.Fits
  | .scopeActive scope => scope.Fits
  | .alarmStart alarm | .alarmFire alarm => alarm.Fits
  | .alarmWait alarm deadline => alarm.Fits ∧ ∀ t ∈ deadline, T t
  | .alarmActive alarm child _ => alarm.Fits ∧ child.Fits

theorem Task.Fits.mono {T T' : Instant → Prop} (hT : ∀ t, T t → T' t) {t : Task} (h : t.Fits T) :
    t.Fits T' := by
  cases t with
  | alarmWait => exact ⟨h.1, fun t ht => hT t (h.2 t ht)⟩
  | _ => exact h

theorem Task.codec (d : Nat) :
    Codec .collapse (Task.Fits Instant.Valid) (d + 4) Task.toJson Task.ofJson? := by
  refine .ofCases shapeTag ?_
  intro t h
  cases t with
  | activity run =>
    have hrun := (Run.codec (d + 2)).field "info" h
    refine .intro "activity" ["info"] rfl (by decide) (by decide) (.cons hrun.fielded .nil) ?_
    intro w v hw hv
    rw [Task.ofJson?, hw]
    simp [hv, hrun.readBack]
  | sequenceStep sequence =>
    have hsequence := (SequenceRun.codec d).field "sequence" h
    refine .intro "sequence-step" ["sequence"] rfl (by decide) (by decide)
      (.cons hsequence.fielded .nil) ?_
    intro w v hw hv
    rw [Task.ofJson?, hw]
    simp [hv, hsequence.readBack]
  | scopeActive scope =>
    have hscope := (ScopeRun.codec d).field "scope" h
    refine .intro "scope-active" ["scope"] rfl (by decide) (by decide) (.cons hscope.fielded .nil)
      ?_
    intro w v hw hv
    rw [Task.ofJson?, hw]
    simp [hv, hscope.readBack]
  | alarmStart alarm =>
    have halarm := (AlarmRun.codec d).field "alarm" h
    refine .intro "alarm-start" ["alarm"] rfl (by decide) (by decide) (.cons halarm.fielded .nil) ?_
    intro w v hw hv
    rw [Task.ofJson?, hw]
    simp [hv, halarm.readBack]
  | alarmWait alarm deadline =>
    have halarm := (AlarmRun.codec d).field "alarm" h.1
    have hdeadline := (Instant.codec (d + 3)).nullable "deadline" (fun _ => nofun) h.2
    refine .intro "alarm-wait" ["alarm", "deadline"] rfl (by decide) (by decide)
      (.cons halarm.fielded (.cons hdeadline.fielded .nil)) ?_
    intro w v hw hv
    rw [Task.ofJson?, hw]
    simp [hv, halarm.readBack, hdeadline.readBack]
  | alarmFire alarm =>
    have halarm := (AlarmRun.codec d).field "alarm" h
    refine .intro "alarm-fire" ["alarm"] rfl (by decide) (by decide) (.cons halarm.fielded .nil) ?_
    intro w v hw hv
    rw [Task.ofJson?, hw]
    simp [hv, halarm.readBack]
  | alarmActive alarm child stopped =>
    have halarm := (AlarmRun.codec d).field "alarm" h.1
    have hchild := (Run.codec (d + 2)).field "child" h.2
    have hstopped := (Codec.bool .collapse (d + 3)).field "stopped" (a := stopped) trivial
    refine .intro "alarm-active" ["alarm", "child", "stopped"] rfl (by decide) (by decide)
      (.cons halarm.fielded (.cons hchild.fielded (.cons hstopped.fielded .nil))) ?_
    intro w v hw hv
    rw [Task.ofJson?, hw]
    simp [hv, halarm.readBack, hchild.readBack, hstopped.readBack]

/-- A task can be written whatever its deadline. -/
theorem Task.writable {t : Task} (h : t.Fits fun _ => True) (d : Nat) :
    (Task.toJson t).Writable (d + 4) := by
  cases t with
  | alarmWait alarm deadline =>
    have halarm := Json.fielded_field "alarm" ((AlarmRun.codec d).writable h.1)
    have hdeadline : (Json.ofOption Instant.toJson deadline).Writable (d + 3) := by
      cases deadline with
      | none => exact .null _
      | some t => exact .str _ t.text
    exact Json.writable_variant "alarm-wait"
      (.cons halarm (.cons (Json.fielded_field "deadline" hdeadline) .nil)) (by decide) (by decide)
  | _ => exact (Task.codec d).writable h

/-- A task with its deadline as it is shown. -/
def Task.shown : Task → Task
  | .alarmWait alarm deadline => .alarmWait alarm (deadline.map Instant.shown)
  | t => t

/-- A task has the written form of what it is shown as. -/
theorem Task.toJson_shown {t : Task} (h : t.Fits Instant.Proper) :
    t.shown.toJson = t.toJson := by
  cases t with
  | alarmWait alarm deadline => cases deadline with
    | none => rfl
    | some t =>
      have htext : t.shown.text = t.text := Instant.text_shown (h.2 t rfl).nanos
      simp only [shown, Option.map_some, toJson, Json.ofOption, Instant.toJson, htext]
  | _ => rfl

/-- A task is shown as one that is read back. -/
theorem Task.Fits.shown {t : Task} (h : t.Fits Instant.Proper) : t.shown.Fits Instant.Valid := by
  cases t with
  | alarmWait alarm deadline =>
    refine ⟨h.1, fun t ht => ?_⟩
    obtain ⟨u, hu, rfl⟩ := Option.map_eq_some_iff.1 ht
    exact (h.2 u hu).valid_shown
  | _ => exact h

/-- A task whose deadline is valid is shown as it is. -/
theorem Task.Fits.shown_eq {t : Task} (h : t.Fits Instant.Valid) : t.shown = t := by
  cases t with
  | alarmWait alarm deadline => cases deadline with
    | none => rfl
    | some t => rw [Task.shown, Option.map_some, (h.2 t rfl).shown_eq]
  | _ => rfl

/-- The numbers of a receiver are words. -/
def Receiver.Fits : Receiver → Prop
  | .waitActivity run timer => run.Fits ∧ timer < 2 ^ 64
  | .sequenceWaiting sequence child => sequence.Fits ∧ child.Fits
  | .scopeWaiting scope => scope.Fits
  | .alarmWaiting alarm timer => alarm.Fits ∧ ∀ t ∈ timer, t < 2 ^ 64
  | .alarmActive alarm child _ => alarm.Fits ∧ child.Fits

theorem Receiver.codec (d : Nat) :
    Codec .collapse Receiver.Fits (d + 4) Receiver.toJson Receiver.ofJson? := by
  refine .ofCases shapeTag ?_
  intro r h
  cases r with
  | waitActivity run timer =>
    have hrun := (Run.codec (d + 2)).field "info" h.1
    have htimer := (Channel.codec (d + 3)).field "timer" h.2
    refine .intro "wait-activity" ["info", "timer"] rfl (by decide) (by decide)
      (.cons hrun.fielded (.cons htimer.fielded .nil)) ?_
    intro w v hw hv
    rw [Receiver.ofJson?, hw]
    simp [hv, hrun.readBack, htimer.readBack]
  | sequenceWaiting sequence child =>
    have hsequence := (SequenceRun.codec d).field "sequence" h.1
    have hchild := (Run.codec (d + 2)).field "child" h.2
    refine .intro "sequence-waiting" ["sequence", "child"] rfl (by decide) (by decide)
      (.cons hsequence.fielded (.cons hchild.fielded .nil)) ?_
    intro w v hw hv
    rw [Receiver.ofJson?, hw]
    simp [hv, hsequence.readBack, hchild.readBack]
  | scopeWaiting scope =>
    have hscope := (ScopeRun.codec d).field "scope" h
    refine .intro "scope-waiting" ["scope"] rfl (by decide) (by decide) (.cons hscope.fielded .nil)
      ?_
    intro w v hw hv
    rw [Receiver.ofJson?, hw]
    simp [hv, hscope.readBack]
  | alarmWaiting alarm timer =>
    have halarm := (AlarmRun.codec d).field "alarm" h.1
    have htimer := (Channel.codec (d + 3)).nullable "timer" (fun _ => nofun) h.2
    refine .intro "alarm-waiting" ["alarm", "timer"] rfl (by decide) (by decide)
      (.cons halarm.fielded (.cons htimer.fielded .nil)) ?_
    intro w v hw hv
    rw [Receiver.ofJson?, hw]
    simp [hv, halarm.readBack, htimer.readBack]
  | alarmActive alarm child stopped =>
    have halarm := (AlarmRun.codec d).field "alarm" h.1
    have hchild := (Run.codec (d + 2)).field "child" h.2
    have hstopped := (Codec.bool .collapse (d + 3)).field "stopped" (a := stopped) trivial
    refine .intro "alarm-active" ["alarm", "child", "stopped"] rfl (by decide) (by decide)
      (.cons halarm.fielded (.cons hchild.fielded (.cons hstopped.fielded .nil))) ?_
    intro w v hw hv
    rw [Receiver.ofJson?, hw]
    simp [hv, halarm.readBack, hchild.readBack, hstopped.readBack]

/-! ### Shared data -/

/-- The channel of a request is a word. -/
def Request.Fits (r : Request) : Prop := r.channel < 2 ^ 64

theorem Request.codec (d : Nat) :
    Codec .collapse Request.Fits (d + 1) Request.toJson Request.ofJson? := by
  refine .ofRecord ["partner_link", "operation", "correlation_key", "channel", "message_exchange"]
    _ (by decide) (by decide) (fun _ => rfl) ?_
  intro r h
  have hlink := (Codec.str .collapse d).field "partner_link" (a := r.partnerLink) trivial
  have hoperation := (Codec.str .collapse d).field "operation" (a := r.operation) trivial
  have hkey := (Codec.str .collapse d).fieldOf "correlation_key" (fun _ => nofun)
    fun s (_ : s ∈ r.correlationKey) => trivial
  have hchannel := (Channel.codec d).field "channel" h
  have hexchange := (Codec.str .collapse d).fieldOf "message_exchange" (fun _ => nofun)
    fun s (_ : s ∈ r.messageExchange) => trivial
  refine ⟨.cons hlink.fielded (.cons hoperation.fielded (.cons hkey.fielded
    (.cons hchannel.fielded (.cons hexchange.fielded .nil)))), ?_⟩
  intro v hv
  rw [Request.ofJson?, hv]
  simp [hlink.readBack, hoperation.readBack, hkey.readBack, hchannel.readBack, hexchange.readBack]

/-- The channels of all requests are words. -/
def RequestState.Fits : RequestState → Prop
  | .list requests => ∀ r ∈ requests, r.Fits
  | .manager m => ∀ r ∈ m.entries, r.Fits

theorem RequestState.codec (d : Nat) :
    Codec .collapse RequestState.Fits (d + 3) RequestState.toJson RequestState.ofJson? := by
  refine .ofCases shapeTag ?_
  intro s h
  cases s with
  | list requests =>
    have hrequests := (Request.codec d).list.fieldFor "requests" h []
    refine .intro listShape ["requests"] rfl (by decide) (by decide)
      (.cons hrequests.fielded .nil) ?_
    intro w v hw hv
    rw [RequestState.ofJson?, hw]
    simp [hv, hrequests.readBack]
  | manager m =>
    have hentries := (Request.codec d).list.fieldFor "entries" h []
    refine .intro managerShape ["entries"] rfl (by decide) (by decide)
      (.cons hentries.fielded .nil) ?_
    intro w v hw hv
    have hne : managerShape ≠ listShape := by decide
    rw [RequestState.ofJson?, hw]
    simp [hv, hne, hentries.readBack, RequestManager.ofList_entries, Except.toOption]

/-- The channels of the link to the outside are words. -/
structure RootLink.Fits (l : RootLink) : Prop where
  termination : l.termination < 2 ^ 64
  parent : l.parent < 2 ^ 64

theorem RootLink.codec (d : Nat) :
    Codec .collapse RootLink.Fits (d + 1) RootLink.toJson RootLink.ofJson? := by
  refine .ofRecord ["termination", "parent"] _ (by decide) (by decide) (fun _ => rfl) ?_
  intro l h
  have htermination := (Channel.codec d).field "termination" h.termination
  have hparent := (Channel.codec d).field "parent" h.parent
  refine ⟨.cons htermination.fielded (.cons hparent.fielded .nil), ?_⟩
  intro v hv
  rw [RootLink.ofJson?, hv]
  simp [htermination.readBack, hparent.readBack]

/-- The channels that the shared data hold are words. -/
structure Shared.Fits (g : Shared) : Prop where
  root : ∀ l ∈ g.root, l.Fits
  requests : g.requests.Fits

theorem Shared.codec (d : Nat) :
    Codec .collapse Shared.Fits (d + 4) Shared.toJson Shared.ofJson? := by
  refine .ofRecord ["root", "requests"] _ (by decide) (by decide) (fun _ => rfl) ?_
  intro g h
  have hroot := (RootLink.codec (d + 2)).fieldOf "root" (fun _ => nofun) h.root
  have hrequests := (RequestState.codec d).field "requests" h.requests
  refine ⟨.cons hroot.fielded (.cons hrequests.fielded .nil), ?_⟩
  intro v hv
  rw [Shared.ofJson?, Shared.read?, hv]
  simp [hroot.readBack, hrequests.readBack]

end Perdure
