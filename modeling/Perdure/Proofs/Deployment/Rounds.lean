import Mathlib.Data.List.Chain
import Perdure.Proofs.Deployment.Cycle

/-!
# At most one deployment

A poller remembers nothing but what it finds in the watched folder.  Between two cycles the folder
may change in any way, as long as nobody else makes or removes markers; then the markers are memory
enough.  The invariant is that a marker which a cycle leaves is found by every later one, and that
no call is made where a marker is found.

## Main definitions

* `Poller.Round`, `Poller.rounds` — the cycles of a poller on the files that they find.
* `Poller.Undisturbed` — nobody but the poller makes or removes markers.
* `Poller.Lawful`, `Poller.DeploysOnce` — what is promised of one cycle, and of all.

## Main results

* `Poller.lawful_round` — what one cycle does.
* `Poller.deploys_once` — a unit is deployed at most once.
-/

namespace Perdure

/-- A cycle of a poller: the files that it found, what it came to, the calls of the hook, and the
files that it left. -/
structure Poller.Round where
  found : FileTree
  outcome : Except DeploymentError CycleReport
  calls : List HookCall
  left : FileTree

namespace Poller

variable {σ : Type}

/-- A cycle on the files that it finds, and the state of the hook after it. -/
def round (p : Poller) (deploy : FileTree → Path → σ → Bool × σ) (state : σ) (found : FileTree) :
    Round × σ :=
  let (outcome, left, next) := p.check deploy found state
  (⟨found, outcome, (p.check (recorded deploy) found (state, [])).2.2.2, left⟩, next)

/-- The cycles of a poller on the files that they find. -/
def rounds (p : Poller) (deploy : FileTree → Path → σ → Bool × σ) : σ → List FileTree → List Round
  | _, [] => []
  | state, found :: rest =>
    let (r, state) := p.round deploy state found
    r :: p.rounds deploy state rest

/-- Two file trees have the same markers, whatever is in them. -/
def SameMarkers (p : Poller) (t t' : FileTree) : Prop :=
  ∀ name, t.isFile (p.marker name) = t'.isFile (p.marker name) ∧
    t.isFolder (p.marker name) = t'.isFolder (p.marker name)

/-- Nobody but the poller makes or removes markers between its cycles. -/
def Undisturbed (p : Poller) (rounds : List Round) : Prop :=
  rounds.IsChain fun r r' => p.SameMarkers r.left r'.found

/-- A marker that the first of two cycles leaves is found and left by the second. -/
def Carries (p : Poller) (r r' : Round) : Prop :=
  ∀ name, r.left.isFile (p.marker name) = true →
    r'.found.isFile (p.marker name) = true ∧ r'.left.isFile (p.marker name) = true

instance (p : Poller) : Trans p.Carries p.Carries p.Carries where
  trans h h' name hm := h' name (h name hm).2

section

variable {p : Poller} {t t' : FileTree} {x : String}
  (h : t.get? (p.folderOf x) = t'.get? (p.folderOf x))

include h

theorem isFolder_congr : t.isFolder (p.folderOf x) = t'.isFolder (p.folderOf x) := by
  simp only [FileTree.isFolder, entry?_folderOf, h]

theorem isFile_congr : t.isFile (p.folderOf x) = t'.isFile (p.folderOf x) := by
  simp only [FileTree.isFile, FileTree.read?, entry?_folderOf, h]

end

/-- What is no marker may go without touching the markers. -/
theorem sameMarkers_remove {p : Poller} {x : String} (t : FileTree) (hx : ofMarker? x = none) :
    p.SameMarkers t (t.remove (p.folderOf x)) := by
  intro name
  have hne : ¬ p.folderOf x <+: p.folderOf (markerOf name) := by
    intro h
    rw [folderOf_inj.1 (h.eq_of_length (by simp [folderOf])), ofMarker?_eq_some_iff.2 rfl] at hx
    cases hx
  have hsame : t.get? (p.folderOf (markerOf name)) =
      (t.remove (p.folderOf x)).get? (p.folderOf (markerOf name)) := by
    rw [FileTree.get?_remove, if_neg hne]
  exact ⟨isFile_congr hsame, isFolder_congr hsame⟩

theorem SameMarkers.refl (p : Poller) (t : FileTree) : p.SameMarkers t t := fun _ => ⟨rfl, rfl⟩

theorem SameMarkers.symm {p : Poller} {t t' : FileTree} (h : p.SameMarkers t t') :
    p.SameMarkers t' t := fun name => ⟨(h name).1.symm, (h name).2.symm⟩

/-! ### One cycle -/

/-- What a cycle does, as far as it can be told from the files before and after it. -/
structure Lawful (p : Poller) (r : Round) : Prop where
  /-- The calls tell all that happens to the files, once the watched folder is there. -/
  deploys : ∃ made, (∀ x, made.get? (p.folderOf x) = r.found.get? (p.folderOf x)) ∧
    p.Deploys made r.calls r.left
  nodup : (r.calls.map (·.folder)).Nodup
  folders : ∀ c ∈ r.calls, r.found.isFolder c.folder = true
  reports : ∀ report, r.outcome = .ok report → ∀ name, name ∈ report.removed ↔
    r.found.isFile (p.marker name) = true ∧ r.found.isFolder (p.folderOf name) = false
  answers : r.found.Sound → r.found.isFolder p.watched = true → ∃ report, r.outcome = .ok report

/-- A cycle is told by one whose hook notes its calls. -/
theorem round_recorded (p : Poller) (deploy : FileTree → Path → σ → Bool × σ) (state : σ)
    (found : FileTree) :
    let noted := p.check (recorded deploy) found (state, [])
    (p.round deploy state found).1 = ⟨found, noted.1, noted.2.2.2, noted.2.1⟩ := by
  dsimp only
  rw [round, p.check_recorded deploy found state []]

/-- What one cycle does. -/
theorem lawful_round (p : Poller) (deploy : FileTree → Path → σ → Bool × σ) (state : σ)
    (found : FileTree) : p.Lawful (p.round deploy state found).1 := by
  rw [round_recorded]
  cases hmade : found.makeFolders? p.watched with
  | none =>
    simp only [check, hmade]
    refine ⟨⟨found, fun _ => rfl, .done _⟩, List.nodup_nil, nofun, nofun, fun hs hf => ?_⟩
    rw [hs.makeFolders?_eq hf] at hmade
    cases hmade
  | some made =>
    have hsame (x : String) : made.get? (p.folderOf x) = found.get? (p.folderOf x) :=
      FileTree.get?_of_makeFolders hmade (FileTree.not_concat_prefix _ _)
    obtain ⟨calls, hcalls, hdeploys, hfolders⟩ :=
      p.exists_deploys_foldl deploy { files := made, state := (state, []) }
        (unitFolders made p.watched)
    have hmem (x : String) :
        x ∈ unitFolders made p.watched ↔ found.isFolder (p.folderOf x) = true := by
      rw [← isFolder_congr (hsame x)]
      exact mem_unitFolders_iff
    simp only [check, hmade, hcalls, List.nil_append]
    refine ⟨⟨made, hsame, hdeploys⟩, ?_, ?_, ?_, fun _ _ => ⟨_, rfl⟩⟩
    · refine hfolders.nodup ((List.nodup_map_iff fun a b he => folderOf_inj.1 he).2 ?_)
      exact nodup_unitFolders _ _
    · intro c hc
      obtain ⟨x, hx, he⟩ := List.mem_map.1 (hfolders.subset (List.mem_map_of_mem hc))
      exact he ▸ (hmem x).1 hx
    · rintro report ⟨⟩ name
      have hmarked : name ∈ markedNames made p.watched ↔ found.isFile (p.marker name) = true := by
        rw [marker, ← isFile_congr (hsame (markerOf name))]
        exact mem_markedNames_iff
      rw [List.mem_filter, hmarked, Bool.not_eq_true', ← Bool.not_eq_true, List.contains_iff_mem,
        hmem, Bool.not_eq_true]

/-! ### All cycles -/

/-- What is promised of the cycles of a poller. -/
structure DeploysOnce (p : Poller) (rounds : List Round) : Prop where
  /-- In one cycle the hook is called at most once for a folder. -/
  once_per_cycle : ∀ r ∈ rounds, (r.calls.map (·.folder)).Nodup
  /-- The hook is called for a folder with exactly one descriptor.  It had no marker when the cycle
  began, and has one during the call. -/
  warranted : ∀ r ∈ rounds, ∀ c ∈ r.calls, ∃ name, c.folder = p.folderOf name ∧
    r.found.isFolder c.folder = true ∧
    (∃! x, x.map Char.toLower = descriptor ∧ c.files.isFile (c.folder ++ [x]) = true) ∧
    r.found.entry? (p.marker name) = none ∧ c.files.isFile (p.marker name) = true
  /-- Right before each call its marker is made, and nothing else happens to the files but that
  markers go again after calls. -/
  course : ∀ r ∈ rounds, ∃ made, (∀ x, made.get? (p.folderOf x) = r.found.get? (p.folderOf x)) ∧
    p.Deploys made r.calls r.left
  /-- A poller that does not try again calls the hook at most once for a folder, over all cycles. -/
  never : p.retry = .never → ((rounds.flatMap (·.calls)).map (·.folder)).Nodup
  /-- After a call that succeeded there is none for the same folder, whether one tries again or not. -/
  succeeded : (rounds.flatMap (·.calls)).Pairwise fun c c' => c.folder = c'.folder → c.good = false
  /-- A marker that a cycle finds is left as it is, and one that it makes is removed only after a
  failed call that is to be repeated. -/
  removes : ∀ r ∈ rounds, ∀ name,
    (∀ e, r.found.entry? (p.marker name) = some e → r.left.entry? (p.marker name) = some e) ∧
    ∀ c ∈ r.calls, c.folder = p.folderOf name → r.left.entry? (p.marker name) = none →
      c.good = false ∧ p.retry = .nextCycle
  /-- A marker stays through all later cycles. -/
  stays : rounds.Pairwise p.Carries
  /-- A cycle reports the markers that it finds without a folder. -/
  reported : ∀ r ∈ rounds, r.found.Sound → ∀ name, r.found.isFile (p.marker name) = true →
    r.found.isFolder (p.folderOf name) = false →
    ∃ report, r.outcome = .ok report ∧ name ∈ report.removed

theorem lawful_rounds (p : Poller) (deploy : FileTree → Path → σ → Bool × σ) (state : σ)
    (worlds : List FileTree) : ∀ r ∈ p.rounds deploy state worlds, p.Lawful r := by
  induction worlds generalizing state with
  | nil => exact nofun
  | cons found rest ih =>
    rw [rounds]
    exact List.forall_mem_cons.2 ⟨p.lawful_round deploy state found, ih _⟩

namespace Lawful

variable {p : Poller} {r : Round} (h : p.Lawful r)

include h

/-- All calls of a cycle are proper. -/
theorem exists_proper {c : HookCall} (hc : c ∈ r.calls) :
    ∃ name, p.Proper r.found r.left c name := by
  obtain ⟨made, hsame, hdeploys⟩ := h.deploys
  obtain ⟨name, hproper⟩ := hdeploys.exists_proper h.nodup hc
  exact ⟨name, { hproper with unmarked := (hsame (markerOf name)).symm.trans hproper.unmarked }⟩

/-- What a cycle finds in the watched folder is left there. -/
theorem get?_left {x : String} {e : Entry} (hx : r.found.get? (p.folderOf x) = some e) :
    r.left.get? (p.folderOf x) = some e := by
  obtain ⟨made, hsame, hdeploys⟩ := h.deploys
  exact hdeploys.get?_of_some ((hsame x).trans hx)

/-- A marker that is found is left. -/
theorem isFile_left {name : String} (hm : r.found.isFile (p.marker name) = true) :
    r.left.isFile (p.marker name) = true := by
  obtain ⟨bytes, hbytes⟩ := FileTree.isFile_iff.1 hm
  rw [entry?_marker] at hbytes
  exact FileTree.isFile_iff.2 ⟨bytes, (p.entry?_marker _ _).trans (h.get?_left hbytes)⟩

end Lawful

/-- The marker of a call is left, unless the call is to be repeated. -/
theorem Proper.isFile_left {p : Poller} {t t' : FileTree} {c : HookCall} {name : String}
    (h : p.Proper t t' c name) (hkeeps : p.Keeps c.good) : t'.isFile (p.marker name) = true := by
  rw [FileTree.isFile_iff, entry?_marker, h.left, if_pos hkeeps]
  exact ⟨[], rfl⟩

section

variable {p : Poller} {rounds : List Round}

/-- A marker that a cycle leaves is found and left by all later ones. -/
theorem Undisturbed.stays (hu : p.Undisturbed rounds) (hl : ∀ r ∈ rounds, p.Lawful r) :
    rounds.Pairwise p.Carries := by
  refine List.IsChain.pairwise (List.IsChain.imp_of_mem_imp ?_ hu)
  intro r r' _ hr' hsame name hm
  have hfound := (hsame name).1.symm.trans hm
  exact ⟨hfound, (hl r' hr').isFile_left hfound⟩

/-- Of two calls for one folder the first one is to be repeated. -/
theorem Undisturbed.calls (hu : p.Undisturbed rounds) (hl : ∀ r ∈ rounds, p.Lawful r) :
    (rounds.flatMap (·.calls)).Pairwise fun c c' => c.folder = c'.folder → ¬ p.Keeps c.good := by
  refine List.pairwise_flatMap.2 ⟨fun r hr => ?_, ?_⟩
  · exact (List.pairwise_map.1 (hl r hr).nodup).imp fun hne he => absurd he hne
  · refine (hu.stays hl).imp_of_mem fun {r r'} hr hr' hstays c hc c' hc' he hkeeps => ?_
    obtain ⟨name, hproper⟩ := (hl r hr).exists_proper hc
    obtain ⟨name', hproper'⟩ := (hl r' hr').exists_proper hc'
    obtain rfl : name = name' :=
      folderOf_inj.1 (hproper.folder.symm.trans (he.trans hproper'.folder))
    -- the marker of the first call is still found when the second one is made
    obtain ⟨bytes, hbytes⟩ :=
      FileTree.isFile_iff.1 (hstays name (hproper.isFile_left hkeeps)).1
    rw [entry?_marker, hproper'.unmarked] at hbytes
    cases hbytes

end

/-- **A unit is deployed at most once.**  Between its cycles a poller finds the watched folder as
anybody may have left it, except that nobody else makes or removes markers.  Whatever the hook
answers, it is called for units only, with their marker just made, and not again after a call that
succeeded, nor after any call where it is not tried again.  Markers are removed after failed calls
only, if at all, and a marker whose folder is gone is reported by each cycle. -/
theorem deploys_once (p : Poller) (deploy : FileTree → Path → σ → Bool × σ) (state : σ)
    (worlds : List FileTree) (hu : p.Undisturbed (p.rounds deploy state worlds)) :
    p.DeploysOnce (p.rounds deploy state worlds) := by
  have hl := p.lawful_rounds deploy state worlds
  have hcalls := hu.calls hl
  refine
    { once_per_cycle := fun r hr => (hl r hr).nodup
      warranted := fun r hr c hc => ?_
      course := fun r hr => (hl r hr).deploys
      never := fun hnever => ?_
      succeeded := hcalls.imp fun h he => Bool.not_eq_true _ ▸ fun hgood => h he (.inl hgood)
      removes := fun r hr name => ⟨fun e hm => ?_, fun c hc he hgone => ?_⟩
      stays := hu.stays hl
      reported := fun r hr hsound name hm hgone => ?_ }
  · obtain ⟨name, hproper⟩ := (hl r hr).exists_proper hc
    refine ⟨name, hproper.folder, (hl r hr).folders c hc, hasDescriptor_iff.1 hproper.unit, ?_, ?_⟩
    · rw [entry?_marker, hproper.unmarked]
    · exact FileTree.isFile_iff.2 ⟨[], (p.entry?_marker _ _).trans hproper.marked⟩
  · exact List.pairwise_map.2 (hcalls.imp fun h he => h he (.inr hnever))
  · rw [entry?_marker] at hm ⊢
    exact (hl r hr).get?_left hm
  · obtain ⟨other, hproper⟩ := (hl r hr).exists_proper hc
    obtain rfl := folderOf_inj.1 (he.symm.trans hproper.folder)
    rw [entry?_marker, hproper.left] at hgone
    split at hgone
    · cases hgone
    · next hkeeps =>
      rw [Keeps, not_or, Bool.not_eq_true] at hkeeps
      refine ⟨hkeeps.1, ?_⟩
      cases hretry : p.retry with
      | never => exact absurd hretry hkeeps.2
      | nextCycle => rfl
  · obtain ⟨bytes, hbytes⟩ := FileTree.isFile_iff.1 hm
    have hwatched : r.found.isFolder p.watched = true := hsound.isFolder_of_concat hbytes
    obtain ⟨report, hreport⟩ := (hl r hr).answers hsound hwatched
    exact ⟨report, hreport, ((hl r hr).reports report hreport name).2 ⟨hm, hgone⟩⟩

/-! ### Orders that are deployed, taken away and brought back -/

/-- A poller that tries again. -/
def orders : Poller := { watched := ["deploy"], retry := .nextCycle }

/-- A hook that fails once. -/
def failsOnce (_ : FileTree) (_ : Path) (calls : Nat) : Bool × Nat := (calls ≠ 0, calls + 1)

/-- A unit without marker. -/
def ordersNew : FileTree := Table.ofList
  [(["deploy"], .folder), (["deploy", "orders"], .folder),
    (["deploy", "orders", "Deploy.XML"], .file [])]

/-- The unit with its marker. -/
def ordersMarked : FileTree := ordersNew.write ["deploy", "orders.deployed"] []

/-- The marker alone. -/
def ordersGone : FileTree := ordersMarked.remove ["deploy", "orders"]

/-- The unit is found twice, then it is gone, and then it is back. -/
def ordersRounds : List Round :=
  orders.rounds failsOnce 0 [ordersNew, ordersNew, ordersGone, ordersMarked]

theorem found_and_left : ordersRounds.map (fun r => (r.found, r.left)) =
    [(ordersNew, ordersNew), (ordersNew, ordersMarked), (ordersGone, ordersGone),
      (ordersMarked, ordersMarked)] := by
  decide +kernel

theorem undisturbed_orders : orders.Undisturbed ordersRounds := by
  have hgone : orders.SameMarkers ordersMarked ordersGone :=
    sameMarkers_remove ordersMarked (by decide +kernel : ofMarker? "orders" = none)
  refine (List.isChain_map (fun r : Round => (r.found, r.left))
    (R := fun a b => orders.SameMarkers a.2 b.1)).1 ?_
  rw [found_and_left]
  exact .cons_cons (.refl _ _) (.cons_cons hgone (.cons_cons hgone.symm (.singleton _)))

/-- The hook is called until it succeeds and not again, although the unit goes and comes back; in
between its marker is reported. -/
theorem deploys_once_orders : orders.Undisturbed ordersRounds ∧ orders.DeploysOnce ordersRounds ∧
    ordersRounds.map (fun r => r.calls.map (·.good)) = [[false], [true], [], []] ∧
    ∃ r ∈ ordersRounds, r.found = ordersGone ∧
      ∃ report, r.outcome = .ok report ∧ "orders" ∈ report.removed := by
  have honce := deploys_once orders failsOnce 0 [ordersNew, ordersNew, ordersGone, ordersMarked]
    undisturbed_orders
  have hsound : ordersGone.Sound := FileTree.sound_of_entries (by decide +kernel)
  obtain ⟨r, hr, he⟩ : ∃ r ∈ ordersRounds, (r.found, r.left) = (ordersGone, ordersGone) := by
    rw [← List.mem_map, found_and_left]
    simp
  have hfound : r.found = ordersGone := congrArg Prod.fst he
  refine ⟨undisturbed_orders, honce, by decide +kernel, r, hr, hfound, ?_⟩
  refine honce.reported r hr (hfound ▸ hsound) "orders" ?_ ?_
  · rw [hfound]
    decide +kernel
  · rw [hfound]
    decide +kernel

end Poller

end Perdure
