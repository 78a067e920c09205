import Perdure.Proofs.Deployment.Rounds

/-!
# Deployed units

Whether a unit is deployed is asked in two places.  A cycle passes a unit over if a new marker cannot
be made because something stands in its place; the commands list a unit if there is a marker.  Both
mean the same unless a folder stands in the place of the marker: then the unit is neither deployed
nor listed, and no report tells so.

## Main definitions

* `Poller.PassesOver` — a cycle takes a folder for deployed.

## Main results

* `mem_markedUnits_iff` — the commands list the folders with a marker.
* `Poller.fate_of_unit` — what a cycle makes of a unit.
* `Poller.passes_over_iff_listed` — where cycles and commands agree.
-/

namespace Perdure

/-! ### The listed units -/

/-- The units of a watched folder that is no file are listed by their markers. -/
theorem mem_markedUnits_iff {t : FileTree} {watched : Path} (hw : t.isFile watched = false) :
    ∃ units, markedUnits t watched = some units ∧ ∀ name, watched ++ [name] ∈ units ↔
      t.isFolder (watched ++ [name]) = true ∧ t.isFile (watched ++ [markerOf name]) = true := by
  refine ⟨(unitFolders t watched).filterMap fun name =>
    if t.isFile (watched ++ [markerOf name]) then some (watched ++ [name]) else none,
    ?_, fun name => ?_⟩
  · unfold markedUnits
    split
    · next bytes hfile =>
      rw [FileTree.isFile_iff.2 ⟨bytes, hfile⟩] at hw
      cases hw
    · rfl
  · simp only [List.mem_filterMap, mem_unitFolders_iff]
    constructor
    · rintro ⟨x, hx, hsome⟩
      split at hsome
      · next hmarked =>
        obtain rfl : x = name := by simpa using hsome
        exact ⟨hx, hmarked⟩
      · cases hsome
    · rintro ⟨hfolder, hmarked⟩
      exact ⟨name, hfolder, if_pos hmarked⟩

namespace Poller

variable {σ : Type} {p : Poller} {name : String}

/-! ### Folders in a cycle under way -/

/-- The hook was called for a folder. -/
def Calls (p : Poller) (calls : List HookCall) (name : String) : Prop :=
  ∃ c ∈ calls, c.folder = p.folderOf name

/-- A folder stands in a list of a report, or the hook was called for it. -/
def Mentions (p : Poller) (c : Cycle (σ × List HookCall)) (name : String) : Prop :=
  name ∈ c.report.deployed ∨ name ∈ c.report.failed ∨ name ∈ c.report.skipped ∨
    p.Calls c.state.2 name

section

variable {c c' : Cycle (σ × List HookCall)} {other : String}

/-- Looking after another folder tells nothing of a folder. -/
theorem Visit.of_ne (h : p.Visit other c c') (hne : name ≠ other) :
    (p.Mentions c' name ↔ p.Mentions c name) ∧
      (p.Calls c'.state.2 name ↔ p.Calls c.state.2 name) := by
  have hfolder : p.folderOf other ≠ p.folderOf name := fun he => hne (folderOf_inj.1 he).symm
  cases h with
  | skipped | refused => simp [Mentions, hne]
  | passed => exact ⟨.rfl, .rfl⟩
  | called unit short unmarked good state =>
    cases good <;> simp [Mentions, Calls, hne, hfolder, or_and_right, exists_or]

/-- What becomes of a unit that is looked after. -/
theorem Visit.own (h : p.Visit name c c') (hunit : hasDescriptor c.files (p.folderOf name) = true) :
    ((markerOf name).utf8ByteSize ≤ FileTree.nameLimit → c.files.get? (p.marker name) ≠ none →
      c' = c) ∧
    (c.files.get? (p.marker name) = none → p.Mentions c' name ∧
      ((markerOf name).utf8ByteSize ≤ FileTree.nameLimit → p.Calls c'.state.2 name)) := by
  cases h with
  | skipped unit =>
    rw [unit] at hunit
    cases hunit
  | passed unit short marked => exact ⟨fun _ _ => rfl, fun hfree => absurd hfree marked⟩
  | refused unit long =>
    refine ⟨fun short => absurd long (Nat.not_lt.2 short), fun _ => ⟨?_, fun short => ?_⟩⟩
    · exact .inr (.inl (List.mem_append_right _ (List.mem_singleton_self _)))
    · exact absurd long (Nat.not_lt.2 short)
  | called unit short unmarked good state =>
    have hcalled : p.Calls (c.state.2 ++
        [⟨p.folderOf name, c.files.write (p.marker name) [], good⟩]) name :=
      ⟨_, List.mem_append_right _ (List.mem_singleton_self _), rfl⟩
    exact ⟨fun _ hmarked => absurd unmarked hmarked,
      fun _ => ⟨.inr (.inr (.inr hcalled)), fun _ => hcalled⟩⟩

end

/-- Looking after other folders tells nothing of a folder. -/
theorem mentions_foldl_of_not_mem (p : Poller) (deploy : FileTree → Path → σ → Bool × σ)
    {names : List String} (hn : name ∉ names) (c : Cycle (σ × List HookCall)) :
    (p.Mentions (names.foldl (p.visit (recorded deploy)) c) name ↔ p.Mentions c name) ∧
      (p.Calls (names.foldl (p.visit (recorded deploy)) c).state.2 name ↔
        p.Calls c.state.2 name) := by
  induction names generalizing c with
  | nil => exact ⟨.rfl, .rfl⟩
  | cons other rest ih =>
    rw [List.mem_cons, not_or] at hn
    obtain ⟨hmentions, hcalls⟩ := (p.visit_recorded deploy c other).of_ne hn.1
    obtain ⟨hrest, hrestCalls⟩ := ih hn.2 (p.visit (recorded deploy) c other)
    exact ⟨hrest.trans hmentions, hrestCalls.trans hcalls⟩

/-- What becomes of a unit when folders are looked after, among them its own. -/
theorem fate_foldl (p : Poller) (deploy : FileTree → Path → σ → Bool × σ) {t : FileTree}
    {names : List String} (hn : names.Nodup) (hname : name ∈ names)
    (hfolder : t.get? (p.folderOf name) = some .folder)
    (hunit : hasDescriptor t (p.folderOf name) = true) (state : σ) :
    let c := names.foldl (p.visit (recorded deploy)) { files := t, state := (state, []) }
    ((markerOf name).utf8ByteSize ≤ FileTree.nameLimit → t.get? (p.marker name) ≠ none →
      ¬ p.Mentions c name) ∧
    (t.get? (p.marker name) = none → p.Mentions c name ∧
      ((markerOf name).utf8ByteSize ≤ FileTree.nameLimit → p.Calls c.state.2 name)) := by
  obtain ⟨before, rest, rfl⟩ := List.append_of_mem hname
  rw [List.nodup_append, List.nodup_cons] at hn
  have hbefore : name ∉ before := fun h => hn.2.2 name h name List.mem_cons_self rfl
  -- the folders that come first leave the unit and the place of its marker as they are
  obtain ⟨calls, hcalls, hdeploys, hfolders⟩ :=
    p.exists_deploys_foldl deploy { files := t, state := (state, []) } before
  have hmarker := hdeploys.get?_eq (x := markerOf name) fun other hother he => by
    obtain ⟨x, hx, hxo⟩ := List.mem_map.1 (hfolders.subset hother)
    exact hbefore (marker_inj.1 he ▸ folderOf_inj.1 hxo ▸ hx)
  have hstill := (hdeploys.hasDescriptor_eq hfolder).trans hunit
  obtain ⟨hkept, hmentioned⟩ := (p.visit_recorded deploy _ name).own hstill
  obtain ⟨hfirst, -⟩ := p.mentions_foldl_of_not_mem deploy hbefore
    { files := t, state := (state, []) }
  rw [List.foldl_append, List.foldl_cons]
  obtain ⟨hlast, hlastCalls⟩ := p.mentions_foldl_of_not_mem deploy hn.2.1.1
    (p.visit (recorded deploy) (before.foldl (p.visit (recorded deploy))
      { files := t, state := (state, []) }) name)
  dsimp only
  rw [hlast, hlastCalls]
  refine ⟨fun hshort hmarked => ?_, fun hfree => hmentioned (hmarker.trans hfree)⟩
  rw [hkept hshort fun he => hmarked (hmarker.symm.trans he), hfirst]
  simp [Mentions, Calls]

/-! ### Whole cycles -/

/-- A cycle takes a folder for deployed: it does not call the hook for it, and the folder stands in
none of the lists of its report. -/
structure PassesOver (p : Poller) (r : Round) (report : CycleReport) (name : String) : Prop where
  uncalled : ¬ p.Calls r.calls name
  deployed : name ∉ report.deployed
  failed : name ∉ report.failed
  skipped : name ∉ report.skipped
  removed : name ∉ report.removed

section

variable {t : FileTree}

/-- What a cycle makes of a unit: it is passed over if anything stands where its marker would be,
and the hook is called for it if nothing does and the marker can be named. -/
theorem fate_of_unit (p : Poller) (deploy : FileTree → Path → σ → Bool × σ) (state : σ)
    (hs : t.Sound) (hfolder : t.isFolder (p.folderOf name) = true)
    (hunit : hasDescriptor t (p.folderOf name) = true) :
    ∃ report, (p.round deploy state t).1.outcome = .ok report ∧
      (p.PassesOver (p.round deploy state t).1 report name ↔ t.get? (p.marker name) ≠ none) ∧
      (t.get? (p.marker name) = none → (markerOf name).utf8ByteSize ≤ FileTree.nameLimit →
        p.Calls (p.round deploy state t).1.calls name) := by
  have hget := (p.entry?_folderOf t name).symm.trans (FileTree.isFolder_iff.1 hfolder)
  have hwatched : t.isFolder p.watched = true :=
    hs.isFolder_of_concat (FileTree.isFolder_iff.1 hfolder)
  have hname : name ∈ unitFolders t p.watched := mem_unitFolders_iff.2 hfolder
  have hfate := p.fate_foldl deploy (nodup_unitFolders t p.watched) hname hget hunit state
  have hremoved := (p.lawful_round deploy state t).reports
  -- the watched folder is there, so that the cycle begins with the files as they are found
  simp only [round_recorded, check, hs.makeFolders?_eq hwatched] at hremoved ⊢
  refine ⟨_, rfl, ⟨fun hpasses hfree => ?_, fun hmarked => ?_⟩, fun hfree hshort => ?_⟩
  · obtain ⟨hmentions, -⟩ := hfate.2 hfree
    rcases hmentions with h | h | h | h
    · exact hpasses.deployed h
    · exact hpasses.failed h
    · exact hpasses.skipped h
    · exact hpasses.uncalled h
  · obtain ⟨e, he⟩ := Option.ne_none_iff_exists'.1 hmarked
    have hsilent := hfate.1 (hs.named _ _ _ he) hmarked
    refine ⟨fun h => hsilent (.inr (.inr (.inr h))), fun h => hsilent (.inl h),
      fun h => hsilent (.inr (.inl h)), fun h => hsilent (.inr (.inr (.inl h))), fun h => ?_⟩
    have hgone := ((hremoved _ rfl name).1 h).2
    rw [hfolder] at hgone
    cases hgone
  · exact (hfate.2 hfree).2 hshort

/-- **A unit is passed over where it is listed, unless a folder has the name of its marker.**  A
cycle passes a unit over if something stands in the place of its marker, and the commands list the
unit if that is a file.  If it is a folder, the unit is neither deployed by any cycle nor listed.
Else it is one or the other, as long as its marker can be named. -/
theorem passes_over_iff_listed (p : Poller) (deploy : FileTree → Path → σ → Bool × σ) (state : σ)
    (hs : t.Sound) (hfolder : t.isFolder (p.folderOf name) = true)
    (hunit : hasDescriptor t (p.folderOf name) = true) :
    ∃ report units, (p.round deploy state t).1.outcome = .ok report ∧
      markedUnits t p.watched = some units ∧
      (p.PassesOver (p.round deploy state t).1 report name ↔
        t.isFile (p.marker name) = true ∨ t.isFolder (p.marker name) = true) ∧
      (p.folderOf name ∈ units ↔ t.isFile (p.marker name) = true) ∧
      ((p.PassesOver (p.round deploy state t).1 report name ↔ p.folderOf name ∈ units) ↔
        t.isFolder (p.marker name) = false) ∧
      (t.isFolder (p.marker name) = false → (markerOf name).utf8ByteSize ≤ FileTree.nameLimit →
        (p.Calls (p.round deploy state t).1.calls name ↔ p.folderOf name ∉ units)) := by
  obtain ⟨report, hreport, hpasses, hcalls⟩ := p.fate_of_unit deploy state hs hfolder hunit
  have hwatched : t.isFolder p.watched = true :=
    hs.isFolder_of_concat (FileTree.isFolder_iff.1 hfolder)
  have hnofile : t.isFile p.watched = false := by
    rw [← Bool.not_eq_true]
    exact fun hfile => FileTree.not_isFolder_of_isFile hfile hwatched
  obtain ⟨units, hunits, hlisted⟩ := mem_markedUnits_iff hnofile
  have hlisted : p.folderOf name ∈ units ↔ t.isFile (p.marker name) = true :=
    (hlisted name).trans (and_iff_right hfolder)
  rw [← entry?_marker, FileTree.entry?_ne_none_iff, or_comm] at hpasses
  refine ⟨report, units, hreport, hunits, hpasses, hlisted, ?_, fun hplain hshort => ?_⟩
  · rw [hpasses, hlisted, or_iff_left_iff_imp, ← Bool.not_eq_true]
    exact ⟨fun h hmarker => FileTree.not_isFolder_of_isFile (h hmarker) hmarker,
      fun h hmarker => absurd hmarker h⟩
  · rw [hlisted]
    constructor
    · intro hcalled hfile
      exact (hpasses.2 (.inl hfile)).uncalled hcalled
    · intro hfile
      refine hcalls ?_ hshort
      rw [← entry?_marker]
      by_contra hsome
      rcases FileTree.entry?_ne_none_iff.1 hsome with h | h
      · rw [hplain] at h
        cases h
      · exact hfile h

/-- The unit of the orders with a folder in the place of its marker. -/
def ordersShadowed : FileTree := ordersNew.insert ["deploy", "orders.deployed"] .folder

/-- Behind a folder that is named as its marker a unit is passed over and is not listed; with a
marker it is both. -/
theorem passes_over_iff_listed_orders :
    (ordersShadowed.Sound ∧ ordersShadowed.isFolder (orders.folderOf "orders") = true ∧
      hasDescriptor ordersShadowed (orders.folderOf "orders") = true ∧
      ∃ report, (orders.round failsOnce 0 ordersShadowed).1.outcome = .ok report ∧
        orders.PassesOver (orders.round failsOnce 0 ordersShadowed).1 report "orders" ∧
        markedUnits ordersShadowed orders.watched = some []) ∧
    ∃ report, (orders.round failsOnce 0 ordersMarked).1.outcome = .ok report ∧
      orders.PassesOver (orders.round failsOnce 0 ordersMarked).1 report "orders" ∧
      markedUnits ordersMarked orders.watched = some [orders.folderOf "orders"] := by
  have hsound : ordersShadowed.Sound := FileTree.sound_of_entries (by decide +kernel)
  have hfolder : ordersShadowed.isFolder (orders.folderOf "orders") = true := by decide +kernel
  have hunit : hasDescriptor ordersShadowed (orders.folderOf "orders") = true := by decide +kernel
  obtain ⟨report, units, hreport, -, hpasses, -⟩ :=
    passes_over_iff_listed orders failsOnce 0 hsound hfolder hunit
  have hsound' : ordersMarked.Sound := FileTree.sound_of_entries (by decide +kernel)
  have hfolder' : ordersMarked.isFolder (orders.folderOf "orders") = true := by decide +kernel
  obtain ⟨report', units', hreport', -, hpasses', -⟩ :=
    passes_over_iff_listed orders failsOnce 0 hsound' hfolder' (by decide +kernel)
  exact ⟨⟨hsound, hfolder, hunit, report, hreport, hpasses.2 (.inr (by decide +kernel)),
      by decide +kernel⟩,
    report', hreport', hpasses'.2 (.inl (by decide +kernel)), by decide +kernel⟩

end

end Poller

end Perdure
