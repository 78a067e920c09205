import Mathlib.Data.List.Nodup
import Perdure.Deployment.Poller
import Perdure.Proofs.Files.Tree

/-!
# One cycle of a poller

A cycle goes through the folders one by one, and the calls of its hook are all that it does to the
files: right before a call the unit gets its marker, and after the call the marker stays or goes.
So the calls tell what a cycle left, and nothing that stood beside the units is touched.

## Main definitions

* `HookCall`, `Poller.recorded` — the calls of a hook, and a hook that notes them.
* `Poller.Visit` — what may become of a folder.
* `Poller.Deploys` — what the calls do to the files, one after the other.

## Main results

* `hasDescriptor_iff` — a unit holds exactly one file that is named as a descriptor.
* `Poller.visit_recorded` — a folder is looked after in one of four ways.
* `Poller.exists_deploys_foldl` — what a cycle does to the files is what its calls do.
* `Poller.check_recorded` — noting calls makes no difference to a cycle.
-/

namespace Perdure

/-! ### Units and markers -/

section

variable {t : FileTree} {folder watched : Path} {name : String}

/-- A unit holds exactly one file that is named as a descriptor in some case. -/
theorem hasDescriptor_iff : hasDescriptor t folder = true ↔
    ∃! name, name.map Char.toLower = descriptor ∧ t.isFile (folder ++ [name]) = true := by
  have hfound (name : String) : (name.map Char.toLower = descriptor ∧
      t.isFile (folder ++ [name]) = true) ↔ ∃ e, (name, e) ∈ (t.children folder).filter
        fun e => e.1.map Char.toLower = descriptor && e.2 != .folder := by
    simp only [List.mem_filter, FileTree.mem_children_iff, FileTree.isFile_iff,
      FileTree.entry?_concat, Bool.and_eq_true, decide_eq_true_eq, bne_iff_ne]
    constructor
    · rintro ⟨hname, bytes, hbytes⟩
      exact ⟨.file bytes, hbytes, hname, nofun⟩
    · rintro ⟨_ | bytes, he, hname, hfile⟩
      · exact absurd rfl hfile
      · exact ⟨hname, bytes, he⟩
  have hnodup : (((t.children folder).filter
      fun e => e.1.map Char.toLower = descriptor && e.2 != .folder).map Prod.fst).Nodup :=
    (t.nodup_children folder).sublist (List.filter_sublist.map Prod.fst)
  simp only [hasDescriptor, hfound, decide_eq_true_eq]
  constructor
  · intro hlength
    obtain ⟨e, he⟩ := List.length_eq_one_iff.1 hlength
    rw [he]
    refine ⟨e.1, ⟨e.2, List.mem_singleton_self e⟩, ?_⟩
    rintro name ⟨e', he'⟩
    exact congrArg Prod.fst (List.mem_singleton.1 he')
  · rintro ⟨name, ⟨e, he⟩, honly⟩
    have hsame := (List.perm_ext_iff_of_nodup (hnodup.of_map _) (List.nodup_singleton _)).2
      fun e' => ⟨fun he' => List.mem_singleton.2
        (List.inj_on_of_nodup_map hnodup he' he (honly e'.1 ⟨e'.2, he'⟩)),
        fun he' => List.mem_singleton.1 he' ▸ he⟩
    rw [hsame.length_eq, List.length_singleton]

theorem markerOf_inj {a b : String} : markerOf a = markerOf b ↔ a = b := by
  unfold markerOf
  rw [String.ext_iff, String.toList_append, String.toList_append, List.append_cancel_right_eq,
    ← String.ext_iff]

/-- A file is the marker of the folder with the name before the ending. -/
theorem ofMarker?_eq_some_iff {fileName : String} :
    ofMarker? fileName = some name ↔ fileName = markerOf name := by
  have hends : fileName.endsWith markerSuffix = true ↔ markerSuffix.toList <:+ fileName.toList := by
    rw [← String.endsWith_toSlice, String.Slice.endsWith_string_iff, String.copy_toSlice]
  unfold ofMarker? markerOf
  rw [String.ext_iff, String.toList_append]
  constructor
  · intro h
    split at h
    · next hmarker =>
      cases h
      obtain ⟨stem, hstem⟩ := hends.1 hmarker
      rw [String.toList_ofList, ← String.length_toList, ← hstem, List.length_append,
        ← String.length_toList, Nat.add_sub_cancel, List.take_left]
    · cases h
  · intro h
    rw [if_pos (hends.2 ⟨_, h.symm⟩), ← String.length_toList, h, List.length_append,
      ← String.length_toList, Nat.add_sub_cancel, List.take_left, String.ofList_toList]

theorem mem_unitFolders_iff :
    name ∈ unitFolders t watched ↔ t.isFolder (watched ++ [name]) = true := by
  unfold unitFolders
  simp only [List.mem_filterMap, FileTree.isFolder_iff, FileTree.entry?_concat]
  constructor
  · rintro ⟨⟨n, e⟩, he, hsome⟩
    split at hsome
    · next hfolder =>
      cases hsome
      exact FileTree.mem_children_iff.1 (hfolder ▸ he)
    · cases hsome
  · intro h
    exact ⟨(name, .folder), FileTree.mem_children_iff.2 h, rfl⟩

theorem nodup_unitFolders (t : FileTree) (watched : Path) : (unitFolders t watched).Nodup := by
  refine List.pairwise_filterMap.2 ((List.pairwise_map.1 (t.nodup_children watched)).imp ?_)
  intro a b hne x hx y hy he
  split at hx
  · split at hy
    · cases hx
      cases hy
      exact hne he
    · cases hy
  · cases hx

/-- Markers are files, and each is for one name. -/
theorem mem_markedNames_iff :
    name ∈ markedNames t watched ↔ t.isFile (watched ++ [markerOf name]) = true := by
  unfold markedNames
  simp only [List.mem_mergeSort, List.mem_filterMap, FileTree.isFile_iff, FileTree.entry?_concat]
  constructor
  · rintro ⟨⟨n, e⟩, he, hsome⟩
    cases e with
    | folder => cases hsome
    | file bytes =>
      cases ofMarker?_eq_some_iff.1 hsome
      exact ⟨bytes, FileTree.mem_children_iff.1 he⟩
  · rintro ⟨bytes, h⟩
    exact ⟨(markerOf name, .file bytes), FileTree.mem_children_iff.2 h,
      ofMarker?_eq_some_iff.2 rfl⟩

end

/-! ### Calls of the hook -/

/-- A call of the hook: the folder it was called for, the files as the hook found them, and whether
it deployed the folder. -/
structure HookCall where
  folder : Path
  files : FileTree
  good : Bool

namespace Poller

variable {σ : Type}

/-- A hook that notes its calls beside the state it has. -/
def recorded (deploy : FileTree → Path → σ → Bool × σ) (files : FileTree) (folder : Path)
    (s : σ × List HookCall) : Bool × σ × List HookCall :=
  let (good, state) := deploy files folder s.1
  (good, state, s.2 ++ [⟨folder, files, good⟩])

/-- The folder of a name. -/
def folderOf (p : Poller) (name : String) : Path := p.watched ++ [name]

/-- Where the marker of a name stands. -/
def marker (p : Poller) (name : String) : Path := p.folderOf (markerOf name)

/-- Does a call leave the marker where it is? -/
def Keeps (p : Poller) (good : Bool) : Prop := good = true ∨ p.retry = .never

instance (p : Poller) (good : Bool) : Decidable (p.Keeps good) :=
  inferInstanceAs (Decidable (_ ∨ _))

/-- The files after a call for a name. -/
def after (p : Poller) (name : String) (good : Bool) (files : FileTree) : FileTree :=
  if p.Keeps good then files else files.remove (p.marker name)

/-- What calls do to the files, one after the other: a unit that has no marker gets one, and right
then the hook is called for it.  The marker goes again if the call is to be repeated. -/
inductive Deploys (p : Poller) : FileTree → List HookCall → FileTree → Prop
  | done (t : FileTree) : p.Deploys t [] t
  | call {t t' : FileTree} {name : String} {good : Bool} {calls : List HookCall}
      (unit : hasDescriptor t (p.folderOf name) = true) (unmarked : t.get? (p.marker name) = none)
      (rest : p.Deploys (p.after name good (t.write (p.marker name) [])) calls t') :
      p.Deploys t (⟨p.folderOf name, t.write (p.marker name) [], good⟩ :: calls) t'

theorem Deploys.append {p : Poller} {t t' t'' : FileTree} {calls calls' : List HookCall}
    (h : p.Deploys t calls t') (h' : p.Deploys t' calls' t'') :
    p.Deploys t (calls ++ calls') t'' := by
  induction h with
  | done => exact h'
  | call unit unmarked _ ih => exact .call unit unmarked (ih h')

/-! ### What calls leave -/

section

variable {p : Poller} {t t' : FileTree} {calls : List HookCall}

@[simp] theorem entry?_folderOf (p : Poller) (t : FileTree) (name : String) :
    t.entry? (p.folderOf name) = t.get? (p.folderOf name) :=
  t.entry?_concat p.watched name

@[simp] theorem entry?_marker (p : Poller) (t : FileTree) (name : String) :
    t.entry? (p.marker name) = t.get? (p.marker name) :=
  p.entry?_folderOf t (markerOf name)

theorem folderOf_inj {a b : String} : p.folderOf a = p.folderOf b ↔ a = b := by
  simp [folderOf]

theorem marker_inj {a b : String} : p.marker a = p.marker b ↔ a = b :=
  folderOf_inj.trans markerOf_inj

/-- Of two paths directly in the watched folder, one leads to the other only if they are equal. -/
theorem marker_prefix_iff {a b : String} : p.marker a <+: p.folderOf b ↔ p.folderOf b = p.marker a := by
  constructor
  · intro h
    exact (h.eq_of_length (by simp [marker, folderOf])).symm
  · intro h
    rw [h]

/-- No marker stands in a folder of the watched folder. -/
theorem inside_ne_marker (p : Poller) (a b x : String) : p.folderOf b ++ [x] ≠ p.marker a := by
  intro h
  have hlength := congrArg List.length h
  simp [marker, folderOf] at hlength

/-- A path that leads into a folder leads to the folder. -/
theorem marker_prefix_inside_iff {a b x : String} :
    p.marker a <+: p.folderOf b ++ [x] ↔ p.folderOf b = p.marker a := by
  rw [List.prefix_concat_iff, marker_prefix_iff, or_iff_right (p.inside_ne_marker a b x).symm]

/-- What stands in the watched folder after a call. -/
theorem get?_after (p : Poller) (name : String) (good : Bool) (t : FileTree) (x : String) :
    (p.after name good (t.write (p.marker name) [])).get? (p.folderOf x) =
      if p.folderOf x = p.marker name then if p.Keeps good then some (.file []) else none
      else t.get? (p.folderOf x) := by
  unfold after
  by_cases hx : p.folderOf x = p.marker name <;> by_cases hkeeps : p.Keeps good <;>
    simp [hx, hkeeps, marker_prefix_iff]

/-- What stands in a folder after a call, unless the folder stands where the marker is made. -/
theorem get?_after_inside {name x : String} (hx : p.folderOf x ≠ p.marker name) (good : Bool)
    (t : FileTree) (y : String) :
    (p.after name good (t.write (p.marker name) [])).get? (p.folderOf x ++ [y]) =
      t.get? (p.folderOf x ++ [y]) := by
  unfold after
  split <;> simp [inside_ne_marker, marker_prefix_inside_iff, hx]

namespace Deploys

variable (h : p.Deploys t calls t')

include h

/-- A path in the watched folder at which no call leaves a marker keeps what it has. -/
theorem get?_eq {x : String}
    (hx : ∀ name, p.folderOf name ∈ calls.map (·.folder) → p.folderOf x ≠ p.marker name) :
    t'.get? (p.folderOf x) = t.get? (p.folderOf x) := by
  induction h with
  | done => rfl
  | call unit unmarked rest ih =>
    rw [ih fun name hname => hx name (List.mem_cons_of_mem _ hname), get?_after,
      if_neg (hx _ List.mem_cons_self)]

/-- Whatever stands in the watched folder stays there. -/
theorem get?_of_some {x : String} {e : Entry} (hx : t.get? (p.folderOf x) = some e) :
    t'.get? (p.folderOf x) = some e := by
  induction h with
  | done => exact hx
  | call unit unmarked rest ih =>
    refine ih ?_
    rw [get?_after, if_neg, hx]
    intro he
    rw [he, unmarked] at hx
    cases hx

/-- What is in the folders in the watched folder is left alone. -/
theorem get?_inside {x : String} {e : Entry} (hx : t.get? (p.folderOf x) = some e) (y : String) :
    t'.get? (p.folderOf x ++ [y]) = t.get? (p.folderOf x ++ [y]) := by
  induction h with
  | done => rfl
  | @call t t' name good calls unit unmarked rest ih =>
    have hne : p.folderOf x ≠ p.marker name := by
      intro he
      rw [he, unmarked] at hx
      cases hx
    rw [ih (by rw [get?_after, if_neg hne, hx]), get?_after_inside hne]

/-- A unit is one as long as its folder is there. -/
theorem hasDescriptor_eq {x : String} {e : Entry} (hx : t.get? (p.folderOf x) = some e) :
    hasDescriptor t' (p.folderOf x) = hasDescriptor t (p.folderOf x) := by
  rw [Bool.eq_iff_iff, hasDescriptor_iff, hasDescriptor_iff]
  simp only [FileTree.isFile_iff, FileTree.entry?_concat, h.get?_inside hx]

end Deploys

/-- What is known of a call: its folder is a unit without marker, the hook finds the marker that was
just made, and the marker is left or not. -/
structure Proper (p : Poller) (t t' : FileTree) (c : HookCall) (name : String) : Prop where
  folder : c.folder = p.folderOf name
  unmarked : t.get? (p.marker name) = none
  unit : hasDescriptor c.files c.folder = true
  marked : c.files.get? (p.marker name) = some (.file [])
  left : t'.get? (p.marker name) = if p.Keeps c.good then some (.file []) else none

/-- A marker beside a unit is not in it. -/
theorem hasDescriptor_write (p : Poller) (t : FileTree) (name : String) :
    hasDescriptor (t.write (p.marker name) []) (p.folderOf name) =
      hasDescriptor t (p.folderOf name) := by
  rw [Bool.eq_iff_iff, hasDescriptor_iff, hasDescriptor_iff]
  simp only [FileTree.isFile_iff, FileTree.entry?_concat, FileTree.get?_write, inside_ne_marker,
    if_false]

/-- All calls are proper, if none is for the same folder as another one. -/
theorem Deploys.exists_proper (h : p.Deploys t calls t') (hn : (calls.map (·.folder)).Nodup)
    {c : HookCall} (hc : c ∈ calls) : ∃ name, p.Proper t t' c name := by
  induction h with
  | done => cases hc
  | @call t t' name good calls unit unmarked rest ih =>
    rw [List.map_cons, List.nodup_cons] at hn
    rcases List.mem_cons.1 hc with rfl | hc
    · refine ⟨name, rfl, unmarked, ?_, ?_, ?_⟩
      · rw [hasDescriptor_write, unit]
      · rw [FileTree.get?_write, if_pos rfl]
      · -- the other calls are for other names
        have hrest := rest.get?_eq (x := markerOf name) fun other hother he =>
          hn.1 (folderOf_inj.2 (marker_inj.1 he) ▸ hother)
        exact hrest.trans ((p.get?_after name good t (markerOf name)).trans (if_pos rfl))
    · obtain ⟨other, hproper⟩ := ih hn.2 hc
      refine ⟨other, { hproper with unmarked := ?_ }⟩
      have hne : p.folderOf (markerOf other) ≠ p.marker name := fun he =>
        hn.1 (List.mem_map.2 ⟨c, hc, hproper.folder.trans (folderOf_inj.2 (marker_inj.1 he))⟩)
      exact ((p.get?_after name good t (markerOf other)).trans (if_neg hne)).symm.trans
        hproper.unmarked

end

/-! ### Looking after folders -/

/-- What may become of a folder that is looked after: it is no unit, it has a marker, its name is
too long for a marker, or the hook is called for it. -/
inductive Visit (p : Poller) (name : String) :
    Cycle (σ × List HookCall) → Cycle (σ × List HookCall) → Prop
  | skipped {c} (unit : hasDescriptor c.files (p.folderOf name) = false) :
      p.Visit name c { c with report := { c.report with skipped := c.report.skipped ++ [name] } }
  | passed {c} (unit : hasDescriptor c.files (p.folderOf name) = true)
      (short : (markerOf name).utf8ByteSize ≤ FileTree.nameLimit)
      (marked : c.files.get? (p.marker name) ≠ none) : p.Visit name c c
  | refused {c} (unit : hasDescriptor c.files (p.folderOf name) = true)
      (long : FileTree.nameLimit < (markerOf name).utf8ByteSize) :
      p.Visit name c { c with report := { c.report with failed := c.report.failed ++ [name] } }
  | called {c} (unit : hasDescriptor c.files (p.folderOf name) = true)
      (short : (markerOf name).utf8ByteSize ≤ FileTree.nameLimit)
      (unmarked : c.files.get? (p.marker name) = none) (good : Bool) (state : σ) :
      p.Visit name c
        { files := p.after name good (c.files.write (p.marker name) [])
          state := (state,
            c.state.2 ++ [⟨p.folderOf name, c.files.write (p.marker name) [], good⟩])
          report := if good then { c.report with deployed := c.report.deployed ++ [name] }
            else { c.report with failed := c.report.failed ++ [name] } }

variable {p : Poller} {deploy : FileTree → Path → σ → Bool × σ}

/-- A folder is looked after in one of four ways. -/
theorem visit_recorded (p : Poller) (deploy : FileTree → Path → σ → Bool × σ)
    (c : Cycle (σ × List HookCall)) (name : String) :
    p.Visit name c (p.visit (recorded deploy) c name) := by
  cases hunit : hasDescriptor c.files (p.watched ++ [name]) with
  | false =>
    simp only [visit, hunit, Bool.not_false, if_true]
    exact .skipped hunit
  | true =>
    simp only [visit, hunit, Bool.not_true, Bool.false_eq_true, if_false]
    rcases c.files.create_cases p.watched (markerOf name) with
      ⟨hlong, hcreate⟩ | ⟨hshort, hmarked, hcreate⟩ | ⟨hshort, hfree, hcreate⟩
    · rw [hcreate]
      exact .refused hunit hlong
    · rw [hcreate]
      exact .passed hunit hshort hmarked
    · rcases hdeploy : deploy (c.files.write (p.marker name) []) (p.folderOf name) c.state.1 with
        ⟨good, state⟩
      have hcalled := Visit.called hunit hshort hfree good state
      have hrecorded : recorded deploy (c.files.write (p.watched ++ [markerOf name]) [])
          (p.watched ++ [name]) c.state =
          (good, state, c.state.2 ++ [⟨p.folderOf name, c.files.write (p.marker name) [], good⟩]) := by
        show recorded deploy (c.files.write (p.marker name) []) (p.folderOf name) c.state = _
        rw [recorded, hdeploy]
      rw [hcreate]
      simp only [hrecorded]
      cases good with
      | true => exact hcalled
      | false => cases hretry : p.retry with
        | never => rwa [after, if_pos (.inr hretry)] at hcalled
        | nextCycle => rwa [after, if_neg (by simp [Keeps, hretry])] at hcalled

/-! ### Whole cycles -/

variable {c c' : Cycle (σ × List HookCall)} {names : List String}

/-- What becomes of the files by looking after a folder is what the calls do, of which there is one
at most, for this folder. -/
theorem Visit.exists_deploys {name : String} (h : p.Visit name c c') :
    ∃ calls, c'.state.2 = c.state.2 ++ calls ∧ p.Deploys c.files calls c'.files ∧
      (calls.map (·.folder)).Sublist [p.folderOf name] := by
  cases h with
  | skipped | passed | refused => exact ⟨[], by simp, .done _, List.nil_sublist _⟩
  | called unit short unmarked good state =>
    exact ⟨_, rfl, .call unit unmarked (.done _), .refl _⟩

/-- What becomes of the files by looking after folders is what the calls do. -/
theorem exists_deploys_foldl (p : Poller) (deploy : FileTree → Path → σ → Bool × σ)
    (c : Cycle (σ × List HookCall)) (names : List String) :
    ∃ calls, (names.foldl (p.visit (recorded deploy)) c).state.2 = c.state.2 ++ calls ∧
      p.Deploys c.files calls (names.foldl (p.visit (recorded deploy)) c).files ∧
      (calls.map (·.folder)).Sublist (names.map p.folderOf) := by
  induction names generalizing c with
  | nil => exact ⟨[], by simp, .done _, .refl _⟩
  | cons name rest ih =>
    obtain ⟨first, hfirst, hdone, hname⟩ := (p.visit_recorded deploy c name).exists_deploys
    obtain ⟨others, hothers, hrest, hnames⟩ := ih (p.visit (recorded deploy) c name)
    refine ⟨first ++ others, ?_, hdone.append hrest, ?_⟩
    · rw [List.foldl_cons, hothers, hfirst, List.append_assoc]
    · rw [List.map_append, List.map_cons]
      exact hname.append hnames

/-! ### The hook itself -/

/-- A cycle under way without the calls that were noted. -/
def unnoted (c : Cycle (σ × List HookCall)) : Cycle σ := { c with state := c.state.1 }

theorem unnoted_visit (p : Poller) (deploy : FileTree → Path → σ → Bool × σ)
    (c : Cycle (σ × List HookCall)) (name : String) :
    unnoted (p.visit (recorded deploy) c name) = p.visit deploy (unnoted c) name := by
  cases hunit : hasDescriptor c.files (p.watched ++ [name]) with
  | false => simp only [visit, unnoted, hunit, Bool.not_false, if_true]
  | true =>
    simp only [visit, unnoted, hunit, Bool.not_true, Bool.false_eq_true, if_false]
    cases hcreate : c.files.create p.watched (markerOf name) with
    | present | refused => rfl
    | created files =>
      rcases hdeploy : deploy files (p.watched ++ [name]) c.state.1 with ⟨good, state⟩
      have hrecorded : recorded deploy files (p.watched ++ [name]) c.state =
          (good, state, c.state.2 ++ [⟨p.watched ++ [name], files, good⟩]) := by
        rw [recorded, hdeploy]
      simp only [hrecorded, hdeploy]
      cases good <;> rfl

theorem unnoted_foldl (p : Poller) (deploy : FileTree → Path → σ → Bool × σ)
    (c : Cycle (σ × List HookCall)) (names : List String) :
    unnoted (names.foldl (p.visit (recorded deploy)) c) =
      names.foldl (p.visit deploy) (unnoted c) := by
  induction names generalizing c with
  | nil => rfl
  | cons name rest ih => rw [List.foldl_cons, List.foldl_cons, ih, unnoted_visit]

/-- Noting calls makes no difference to what a cycle does. -/
theorem check_recorded (p : Poller) (deploy : FileTree → Path → σ → Bool × σ) (files : FileTree)
    (state : σ) (calls : List HookCall) :
    let noted := p.check (recorded deploy) files (state, calls)
    p.check deploy files state = (noted.1, noted.2.1, noted.2.2.1) := by
  unfold check
  cases files.makeFolders? p.watched with
  | none => rfl
  | some files =>
    have hsame := p.unnoted_foldl deploy { files, state := (state, calls) }
      (unitFolders files p.watched)
    dsimp only
    rw [show (⟨files, state, {}⟩ : Cycle σ) = unnoted ⟨files, (state, calls), {}⟩ from rfl, ← hsame]
    rfl

end Poller

end Perdure
