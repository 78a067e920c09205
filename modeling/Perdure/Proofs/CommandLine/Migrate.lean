import Perdure.CommandLine.Run
import Perdure.Proofs.CommandLine.Database
import Perdure.Proofs.Deployment.Unit
import Perdure.Proofs.Engine.Accord
import Perdure.Proofs.Restoration

/-!
# The migrate command reads what an engine reads

A migration goes through the pairs of a process and a table that the marked units come with; an
engine keeps one table for each process, the last one.  Both read a state alike where the tables
that come with its process agree on it.  Then the command succeeds if and only if an engine reads
each state and its requests can be renewed, and what the engine reads afterwards is what it read
before, with renewed requests.

## Main results

* `registers_reloaded` — the engine that is filled from the marked units registers their processes.
* `migrateCommand_reads_as_engine` — the command and the engine read the same.
* `migrateCommand_fails_of_stuck` — the command fails where any of the tables is stuck.
* `migrateCommand_fails_staleVigil` — it may fail on a vigil that an engine reads.
* `migrateCommand_loses_vigil` — a table that renames what is still written takes an instance away.
-/

namespace Perdure

/-! ### The marked units -/

section

variable {t u : FileTree}

/-- An engine is filled from what lies in the folder of the units. -/
theorem reloaded_congr {data : Path} (h : t.SameBelow u (deployFolder data)) (e : Engine) :
    reloaded data t e = reloaded data u e := by
  unfold reloaded
  rw [markedUnits_congr h]
  cases hu : markedUnits u (deployFolder data) with
  | none => rfl
  | some units =>
    refine congrArg some (List.foldl_ext _ _ e fun e folder hfolder => ?_)
    unfold Engine.deployFrom
    rw [load_congr (h.below (prefix_of_mem_markedUnits hu folder hfolder))]

end

/-- Where the marked units can be loaded, their processes are found one unit after another. -/
theorem markedProcesses_of_load {data : Path} {t : FileTree} {folders : List Path}
    {units : List DeploymentUnit} (hfolders : markedUnits t (deployFolder data) = some folders)
    (hunits : folders.map (DeploymentUnit.load t) = units.map .ok) :
    markedProcesses data t =
      some (units.flatMap fun u => u.definitions.map fun d => (d.processId, u.remap), 0) := by
  unfold markedProcesses
  rw [hfolders]
  refine congrArg some ?_
  clear hfolders
  -- the induction is for any processes that were found before
  rw [← List.nil_append (units.flatMap _)]
  generalize ([] : List (String × RemapTable)) = found
  induction units generalizing folders found with
  | nil =>
    cases List.map_eq_nil_iff.1 hunits
    rw [List.flatMap_nil, List.append_nil]
    rfl
  | cons u rest ih =>
    obtain ⟨folder, folders, rfl, hfirst, hrest⟩ := List.map_eq_cons_iff.1 hunits
    rw [List.foldl_cons, hfirst, List.flatMap_cons, ← List.append_assoc]
    exact ih hrest _

/-- **The engine that is filled from the marked units registers their processes.** -/
theorem registers_reloaded {data : Path} {t : FileTree} {processes : List (String × RemapTable)}
    {failed : Nat} (h : markedProcesses data t = some (processes, failed))
    (evaluator : Occasion → Evaluator) (limit : Nat) :
    ∃ e, reloaded data t { evaluator, limit } = some e ∧ e.Registers processes := by
  unfold markedProcesses at h
  unfold reloaded
  cases hu : markedUnits t (deployFolder data) with
  | none =>
    rw [hu] at h
    cases h
  | some units =>
    rw [hu] at h
    have hprocesses := congrArg Prod.fst (Option.some.inj h)
    refine ⟨_, rfl, ?_⟩
    dsimp only at hprocesses
    rw [← hprocesses]
    -- both go through the same units, and the list grows by what the engine registers
    refine List.foldl_rel
      (r := fun (e : Engine) (found : List (String × RemapTable) × Nat) => e.Registers found.1)
      .empty ?_
    rintro folder - e ⟨found, n⟩ he
    unfold Engine.deployFrom
    dsimp only
    cases DeploymentUnit.load t folder with
    | ok u => exact he.deploy u
    | error _ => exact he

/-! ### What the command does -/

open Migration (Accord Alone Due)

section

variable {s : Store} {processes : List (String × RemapTable)}

theorem served (s : Store) : Migration.Served { store := s } := fun _ _ => List.not_mem_nil

/-- A migration changes nothing but states. -/
theorem restates_run (s : Store) (processes : List (String × RemapTable)) :
    (Migration.run processes { store := s }).2.store.Restates s := by
  intro id
  rw [(Migration.amounts_run (served s) processes).get?_eq, Option.map_map]
  refine congrArg (Option.map · (s.get? id)) (funext fun r => ?_)
  obtain ⟨state, he⟩ := Migration.exists_fate processes r
  rw [Function.comp_apply, he]
  rfl

/-- An engine with the listed processes has a table for each record that is due, and the record is
due with this table as well. -/
theorem Engine.Registers.exists_deployed {e : Engine} (h : e.Registers processes) {r : Record}
    {remap : RemapTable} {bytes : List UInt8} (hdue : Due processes r remap bytes) :
    ∃ d, e.processes.get? r.processId = some d ∧ Due processes r d.remap bytes := by
  obtain ⟨d, hd⟩ := h.known hdue.listed
  exact ⟨d, hd, hdue.active, h.listed hd, hdue.state⟩

/-- What an engine with the listed processes reads is due. -/
theorem Engine.Registers.due_of_loads {e : Engine} (h : e.Registers processes) {r : Record}
    {d : Deployed} {soup : InstanceSoup} (hl : e.Loads r d soup) :
    ∃ bytes, Due processes r d.remap bytes ∧ Checkpoint.read d.remap bytes = .ok soup := by
  obtain ⟨hd, bytes, hb, hread⟩ := hl
  obtain ⟨hactive, hstate⟩ := Record.active_of_pending? hb
  exact ⟨bytes, ⟨hactive, h.listed hd, hstate⟩, hread⟩

/-- All goes well in a migration if and only if an engine with the listed processes reads each state
and its requests can be renewed, as long as the tables agree. -/
theorem run_good_iff {e : Engine} (h : e.Registers processes)
    (hagree : ∀ id r remap bytes, s.get? id = some r → Due processes r remap bytes →
      Alone processes r.processId ∨ Accord processes r) :
    (Migration.run processes { store := s }).1 = true ↔ ∀ id r remap bytes, s.get? id = some r →
      Due processes r remap bytes → ∃ d soup requests, e.Loads r d soup ∧
        soup.global.requests.convert = .ok requests := by
  rw [(Migration.amounts_run (served s) processes).good_iff]
  constructor
  · intro hgood id r remap bytes hr hdue
    obtain ⟨d, hd, hdue⟩ := h.exists_deployed hdue
    obtain ⟨soup, requests, hready⟩ :=
      (Migration.fate_good_iff (hagree id r _ _ hr hdue) hdue).1 (hgood id r hr)
    have hpending : r.pending? = some bytes := by
      rw [Record.pending?, hdue.active]
      exact hdue.state
    exact ⟨d, soup, requests, ⟨hd, bytes, hpending, hready.read⟩, hready.converts⟩
  · intro hall id r hr
    by_cases hdue : ∃ remap bytes, Due processes r remap bytes
    · obtain ⟨remap, bytes, hdue⟩ := hdue
      obtain ⟨d, soup, requests, hl, hrequests⟩ := hall id r remap bytes hr hdue
      obtain ⟨bytes', hdue', hread⟩ := h.due_of_loads hl
      exact (Migration.fate_good_iff (hagree id r _ _ hr hdue') hdue').2
        ⟨soup, requests, hread, hrequests⟩
    · rw [Migration.fate_of_not_due fun remap bytes hd => hdue ⟨remap, bytes, hd⟩]

section

variable {σ : Type} {db : Database σ} {place : String} {data : Path} {disk disk₁ : Disk σ}
  (hopen : openPlace db place disk = (disk₁, .ok (data, s)))
  (hmarked : markedProcesses data disk₁.files = some (processes, 0))

include hopen hmarked

/-- Where all marked units can be loaded, the command saves what the migration makes of the store,
and succeeds if all went well. -/
theorem migrateCommand_eq :
    ((migrateCommand db place disk).1.code = 0 ↔
      (Migration.run processes { store := s }).1 = true) ∧
    (migrateCommand db place disk).2 =
      db.saving data (Migration.run processes { store := s }).2.store disk₁ := by
  unfold migrateCommand
  rw [hopen]
  dsimp only
  rw [hmarked]
  dsimp only
  rw [if_neg (fun hne => hne rfl)]
  cases hgood : (Migration.run processes { store := s }).1 with
  | true => exact ⟨by simp, rfl⟩
  | false => exact ⟨by simp [Report.failure], rfl⟩

/-- What the command leaves behind: the place is opened again with what the migration made of the
store, and an engine is filled as before. -/
theorem exists_registers_of_migrateCommand (hdb : db.Lawful) (evaluator : Occasion → Evaluator)
    (limit : Nat) :
    ∃ e, reloaded data disk₁.files { evaluator, limit } = some e ∧ e.Registers processes ∧
      openPlace db place (migrateCommand db place disk).2 = ((migrateCommand db place disk).2,
        .ok (data, (Migration.run processes { store := s }).2.store)) ∧
      reloaded data (migrateCommand db place disk).2.files { evaluator, limit } = some e := by
  obtain ⟨e, he, hregisters⟩ := registers_reloaded hmarked evaluator limit
  refine ⟨e, he, hregisters, ?_, ?_⟩
  · rw [(migrateCommand_eq hopen hmarked).2, hdb.openPlace_saving hopen (restates_run s processes)]
  · rw [(migrateCommand_eq hopen hmarked).2, reloaded_congr (hdb.spares data _ disk₁), he]

/-- **The migrate command reads what an engine reads.**  Where all marked units can be loaded, an
engine is filled from them.  Consider the active instances of their processes that have a state.  If
each of them is of a process that is listed once, or the tables of its process agree on it, the
command succeeds if and only if the engine reads each of them and its requests can be renewed.  And
where the tables agree on an instance that the engine reads and whose requests can be renewed, an
engine that is filled after the command from what it leaves behind reads the same soup with renewed
requests. -/
theorem migrateCommand_reads_as_engine (hdb : db.Lawful) (evaluator : Occasion → Evaluator)
    (limit : Nat) :
    ∃ e s', reloaded data disk₁.files { evaluator, limit } = some e ∧
      openPlace db place (migrateCommand db place disk).2 =
        ((migrateCommand db place disk).2, .ok (data, s')) ∧
      reloaded data (migrateCommand db place disk).2.files { evaluator, limit } = some e ∧
      ((∀ id r remap bytes, s.get? id = some r → Due processes r remap bytes →
          Alone processes r.processId ∨ Accord processes r) →
        ((migrateCommand db place disk).1.code = 0 ↔ ∀ id r remap bytes, s.get? id = some r →
          Due processes r remap bytes → ∃ d soup requests, e.Loads r d soup ∧
            soup.global.requests.convert = .ok requests)) ∧
      ∀ id r d soup requests, s.get? id = some r → Accord processes r → e.Loads r d soup →
        soup.global.requests.convert = .ok requests →
          ∃ bytes, s'.get? id = some { r with state := some bytes } ∧
            e.Loads { r with state := some bytes } d (soup.withRequests requests) := by
  obtain ⟨e, he, hregisters, hopen', he'⟩ :=
    exists_registers_of_migrateCommand hopen hmarked hdb evaluator limit
  refine ⟨e, _, he, hopen', he',
    fun hagree => (migrateCommand_eq hopen hmarked).1.trans (run_good_iff hregisters hagree), ?_⟩
  intro id r d soup requests hr ha hl hrequests
  obtain ⟨bytes, hdue, hread⟩ := hregisters.due_of_loads hl
  obtain ⟨hfate, hafter⟩ := Migration.fate_of_accord ha hdue ⟨hread, hrequests⟩
  refine ⟨Migration.upToDate soup requests bytes, ?_, hl.deployed, _, ?_, hafter⟩
  · rw [(Migration.amounts_run (served s) processes).get?_eq, hr, Option.map_some, hfate]
  · rw [Record.pending?, hdue.active]
    rfl

/-- **The migrate command fails where one of several tables is stuck**, although an engine uses only
the last table that comes with a process: a table of any unit is tried on each state, as the tables
before it left it. -/
theorem migrateCommand_fails_of_stuck {id : InstanceId} {r : Record} {remap : RemapTable}
    {bytes : List UInt8} {before after : List (String × RemapTable)} (hr : s.get? id = some r)
    (hprocesses : processes = before ++ (r.processId, remap) :: after)
    (hbefore : ∀ process ∈ before, (Migration.ofRecordIn process r).2 = r)
    (hactive : r.status = .active) (hstate : r.state = some bytes)
    (hstuck : Migration.Stuck remap bytes) : (migrateCommand db place disk).1.code ≠ 0 := by
  rw [Ne, (migrateCommand_eq hopen hmarked).1,
    (Migration.amounts_run (served s) processes).good_iff]
  intro hall
  have hgood := hall id r hr
  rw [Migration.fate_of_stuck hprocesses hbefore hactive hstate hstuck] at hgood
  cases hgood

end

/-! ### Vigils of old -/

/-- What a marked unit with a vigil, and perhaps with a table, adds to the folder of the units. -/
def vigilUnit (unit : String × Option RemapTable) : List (Path × Entry) :=
  let folder := ["data", "deploy", unit.1]
  [(folder, .folder),
    (folder ++ ["vigil.process.json"], .file (Text.utf8 Script.vigil.definition.text.toList)),
    (["data", "deploy", markerOf unit.1], .file [])] ++
  (unit.2.map fun t =>
    (folder ++ [DeploymentUnit.remapFile], .file (Text.utf8 t.toJson.render.toList))).toList

/-- What a unit adds lies deeper than a data folder. -/
theorem length_of_mem_vigilUnit {unit : String × Option RemapTable} {e : Path × Entry}
    (h : e ∈ vigilUnit unit) : 1 < e.1.length := by
  simp only [vigilUnit, List.mem_append, List.mem_cons, List.not_mem_nil, or_false,
    Option.mem_toList, Option.map_eq_some_iff] at h
  rcases h with (rfl | rfl | rfl) | ⟨_, -, rfl⟩ <;> simp

/-- What is loaded of such a unit. -/
theorem load_vigil {t : FileTree} {folder : Path} {remap : RemapTable}
    (hfolder : t.isFolder folder = true)
    (hpaths : DeploymentUnit.definitionPaths t folder = [folder ++ ["vigil.process.json"]])
    (hread : t.read? (folder ++ ["vigil.process.json"]) =
      some (Text.utf8 Script.vigil.definition.text.toList))
    (hremap : DeploymentUnit.remapOf t folder = .ok remap) :
    DeploymentUnit.load t folder = .ok ⟨[Script.vigil.definition], remap⟩ :=
  DeploymentUnit.load_eq hfolder hpaths (DeploymentUnit.definition_eq rfl (by decide) hread) hremap

/-- A vigil that keeps its requests in a list. -/
def oldVigilRecord : Record := Migration.vigilRecord 1 (Checkpoint.write Migration.oldVigil)

/-- A store with this vigil alone. -/
def vigilStore : Store := Store.empty.insert oldVigilRecord

theorem get?_vigilStore {id : InstanceId} {r : Record} (h : vigilStore.get? id = some r) :
    id = 1 ∧ r = oldVigilRecord := by
  rw [vigilStore, Store.get?_insert] at h
  split at h
  · next hid =>
    cases h
    exact ⟨hid, rfl⟩
  · cases h

/-- The files of a data folder with units. -/
def vigilPlace (units : List (String × Option RemapTable)) : FileTree :=
  Table.ofList ([(["data"], .folder), (["data", "deploy"], .folder)] ++ units.flatMap vigilUnit)

theorem makePlace_vigilPlace (units : List (String × Option RemapTable)) :
    (vigilPlace units).makePlace "data" = (vigilPlace units, some ["data"]) := by
  have hdeeper : (units.flatMap vigilUnit).reverse.lookup ["data"] = none := by
    rw [List.lookup_eq_none_iff]
    intro e he
    obtain ⟨unit, -, he⟩ := List.mem_flatMap.1 (List.mem_reverse.1 he)
    have hlength := length_of_mem_vigilUnit he
    rw [bne_iff_ne]
    intro hdata
    rw [← hdata] at hlength
    exact absurd hlength (by decide)
  have hfolder : FileTree.entry? (vigilPlace units) ["data"] = some .folder := by
    unfold FileTree.entry?
    rw [if_neg (by decide), vigilPlace, Table.get?_ofList, List.reverse_append,
      List.lookup_append, hdeeper]
    rfl
  have hroute : Route.ofText "data" = [.down "data"] := by decide
  rw [FileTree.makePlace, if_neg (by decide), hroute, FileTree.makeRoute, List.nil_append, hfolder]
  rfl

/-- A data folder opens with what is kept beside it. -/
theorem openPlace_vigilPlace (units : List (String × Option RemapTable)) (s : Store) :
    openPlace .kept "data" ⟨vigilPlace units, s⟩ = (⟨vigilPlace units, s⟩, .ok (["data"], s)) :=
  Database.openPlace_of_makePlace (makePlace_vigilPlace units) rfl

/-- A table for states that were stored when waits and activities had other names. -/
def olderNames : RemapTable := Table.ofList [("wait", "wait-activity"), ("task", "activity")]

/-- Two units with the same process, of which the last one has this table. -/
def sharedPlace : FileTree := vigilPlace [("first", none), ("second", some olderNames)]

theorem markedProcesses_sharedPlace :
    markedProcesses ["data"] sharedPlace = some ([("vigil", ∅), ("vigil", olderNames)], 0) := by
  have hfolders : markedUnits sharedPlace (deployFolder ["data"]) =
      some [["data", "deploy", "first"], ["data", "deploy", "second"]] := rfl
  have hfirst : DeploymentUnit.load sharedPlace ["data", "deploy", "first"] =
      .ok ⟨[Script.vigil.definition], ∅⟩ :=
    load_vigil rfl (by decide +kernel) rfl (DeploymentUnit.remapOf_eq_empty rfl)
  have hsecond : DeploymentUnit.load sharedPlace ["data", "deploy", "second"] =
      .ok ⟨[Script.vigil.definition], olderNames⟩ :=
    load_vigil rfl (by decide +kernel) rfl (DeploymentUnit.remapOf_eq (by decide) rfl)
  have hunits : [["data", "deploy", "first"], ["data", "deploy", "second"]].map
      (DeploymentUnit.load sharedPlace) =
        [⟨[Script.vigil.definition], ∅⟩, ⟨[Script.vigil.definition], olderNames⟩].map .ok := by
    rw [List.map_cons, List.map_cons, List.map_nil, hfirst, hsecond]
    rfl
  exact markedProcesses_of_load hfolders hunits

/-- The two units, and a vigil of old. -/
def sharedVigil : Disk Store := ⟨sharedPlace, vigilStore⟩

/-- An engine reads the vigil of old if each listed table does. -/
theorem exists_loads_oldVigil {e : Engine} (h : e.Registers processes) {remap : RemapTable}
    (hlisted : ("vigil", remap) ∈ processes) (hread : ∀ remap, ("vigil", remap) ∈ processes →
      Checkpoint.read remap (Checkpoint.write Migration.oldVigil) = .ok Migration.oldVigil) :
    ∃ d, e.processes.get? "vigil" = some d ∧ ("vigil", d.remap) ∈ processes ∧
      e.Loads oldVigilRecord d Migration.oldVigil := by
  obtain ⟨d, hd⟩ := h.known hlisted
  exact ⟨d, hd, h.listed hd, hd, _, rfl, hread _ (h.listed hd)⟩

/-- The requests of the vigil of old can be renewed. -/
theorem exists_convert_oldVigil :
    ∃ requests, Migration.oldVigil.global.requests.convert = .ok requests := by
  obtain ⟨m, hm, -⟩ := RequestManager.exists_ofList
    (show (Migration.vigilRequests.map Request.key).Nodup by decide)
  exact ⟨.manager m, congrArg (·.map RequestState.manager) hm⟩

/-- The vigil that two units have in common is migrated, and an engine reads it before and after. -/
theorem migrateCommand_reads_as_engine_sharedVigil : Database.kept.Lawful ∧
    openPlace .kept "data" sharedVigil = (sharedVigil, .ok (["data"], vigilStore)) ∧
    markedProcesses ["data"] sharedVigil.files = some ([("vigil", ∅), ("vigil", olderNames)], 0) ∧
    (migrateCommand .kept "data" sharedVigil).1.code = 0 ∧
    ∃ e s' d requests bytes, reloaded ["data"] sharedVigil.files {} = some e ∧
      e.Loads oldVigilRecord d Migration.oldVigil ∧
      Migration.oldVigil.global.requests.convert = .ok requests ∧
      openPlace .kept "data" (migrateCommand .kept "data" sharedVigil).2 =
        ((migrateCommand .kept "data" sharedVigil).2, .ok (["data"], s')) ∧
      reloaded ["data"] (migrateCommand .kept "data" sharedVigil).2.files {} = some e ∧
      s'.get? 1 = some (Migration.vigilRecord 1 bytes) ∧
      e.Loads (Migration.vigilRecord 1 bytes) d (Migration.oldVigil.withRequests requests) := by
  have hopen : openPlace .kept "data" sharedVigil = (sharedVigil, .ok (["data"], vigilStore)) :=
    openPlace_vigilPlace _ vigilStore
  have hmarked := markedProcesses_sharedPlace
  have hspare : Migration.AllSpare [("vigil", ∅), ("vigil", olderNames)] := by
    unfold Migration.AllSpare RemapTable.Spares
    decide
  have haccord : Accord [("vigil", ∅), ("vigil", olderNames)] oldVigilRecord :=
    Migration.accord_of_spares hspare Migration.oldVigil_fits rfl
  obtain ⟨requests, hrequests⟩ := exists_convert_oldVigil
  obtain ⟨e, s', he, hopen', he', hexit, hreads⟩ :=
    migrateCommand_reads_as_engine hopen hmarked Database.lawful_kept (fun _ => .literal)
      defaultLimit
  obtain ⟨_, hsame, hregisters⟩ := registers_reloaded hmarked (fun _ => .literal) defaultLimit
  cases he.symm.trans hsame
  obtain ⟨d, hd, -, hl⟩ := exists_loads_oldVigil hregisters List.mem_cons_self
    fun remap hlisted => Checkpoint.read_write_of_spares (hspare _ hlisted) Migration.oldVigil_fits
  have hvigil : vigilStore.get? 1 = some oldVigilRecord := rfl
  obtain ⟨bytes, hs', hl'⟩ := hreads 1 _ d _ requests hvigil haccord hl hrequests
  refine ⟨Database.lawful_kept, hopen, hmarked, (hexit ?_).2 ?_, e, s', d, requests, bytes, he, hl,
    hrequests, hopen', he', hs', hl'⟩
  · intro id r _ _ hr _
    obtain ⟨-, rfl⟩ := get?_vigilStore hr
    exact .inr haccord
  · intro id r _ _ hr _
    obtain ⟨-, rfl⟩ := get?_vigilStore hr
    exact ⟨d, _, requests, hl, hrequests⟩

/-! ### A vigil under an older name -/

/-- The state of a new vigil that was stored when activities were called tasks. -/
def staleState : List UInt8 := Checkpoint.header Checkpoint.version ++
  (Checkpoint.vigilNamed "task" RequestState.managerShape).render.toUTF8.toList

/-- A store with this vigil alone. -/
def staleStore : Store := Store.empty.insert (Migration.vigilRecord 1 staleState)

/-- The two units, and this vigil. -/
def staleVigil : Disk Store := ⟨sharedPlace, staleStore⟩

/-- With the table the vigil is read. -/
theorem read_staleState : Checkpoint.read olderNames staleState = .ok Script.vigil.newSoup := by
  have hvalid : Soup.Fits Instant.Valid Script.vigil.newSoup := Script.vigil_fits.steady_newSoup.fits
  have htask : olderNames.Leads "task" "activity" := ⟨.single (by decide), by decide⟩
  have hmanager : olderNames.Leads RequestState.managerShape RequestState.managerShape :=
    ⟨.refl, by decide⟩
  have hread := Checkpoint.read_render (hvalid.mono fun _ => Instant.Valid.proper)
    (Checkpoint.renames_vigilNamed htask hmanager)
  rw [hvalid.shown_eq] at hread
  exact hread

/-- Without a table it is not. -/
theorem stuck_staleState : Migration.Stuck ∅ staleState := by
  have hsized : Soup.Sized Script.vigil.newSoup := Script.vigil_fits.steady_newSoup.fits.sized
  have hnamed : (Checkpoint.vigilNamed "task" RequestState.managerShape).Renames
      (fun _ _ => True) (InstanceSoup.toJson Script.vigil.newSoup) :=
    Checkpoint.renames_vigilNamed trivial trivial
  have hread := Checkpoint.toOption_read (Checkpoint.document_render hsized hnamed) ∅
  have hdocument : (((∅ : RemapTable).apply (Checkpoint.vigilNamed "task"
      RequestState.managerShape).collapse).toOption.bind InstanceSoup.ofJson?) = none := by
    decide
  rw [hdocument] at hread
  cases h : Checkpoint.read ∅ staleState with
  | error e => exact .unreadable h
  | ok soup => cases (congrArg Except.toOption h).symm.trans hread

/-- **The command may fail on a vigil that an engine reads.**  An engine uses the table of the last
of the units, with which the vigil is read and up to date; but the command tries the first unit as
well, which has none. -/
theorem migrateCommand_fails_staleVigil :
    openPlace .kept "data" staleVigil = (staleVigil, .ok (["data"], staleStore)) ∧
    markedProcesses ["data"] staleVigil.files = some ([("vigil", ∅), ("vigil", olderNames)], 0) ∧
    staleStore.get? 1 = some (Migration.vigilRecord 1 staleState) ∧
    (∃ e d, reloaded ["data"] staleVigil.files {} = some e ∧
      e.Loads (Migration.vigilRecord 1 staleState) d Script.vigil.newSoup ∧
      Script.vigil.newSoup.global.requests.isCurrent = true) ∧
    (migrateCommand .kept "data" staleVigil).1.code ≠ 0 := by
  have hopen : openPlace .kept "data" staleVigil = (staleVigil, .ok (["data"], staleStore)) :=
    openPlace_vigilPlace _ staleStore
  have hmarked := markedProcesses_sharedPlace
  have hvigil : staleStore.get? 1 = some (Migration.vigilRecord 1 staleState) := rfl
  obtain ⟨e, he, hregisters⟩ := registers_reloaded hmarked (fun _ => .literal) defaultLimit
  obtain ⟨d, hd⟩ := hregisters.known List.mem_cons_self
  have hlast : e.Registers ([("vigil", ∅)] ++ [("vigil", olderNames)]) := hregisters
  have hremap : d.remap = olderNames := hlast.remap_of_concat hd
  have hfirst : [("vigil", ∅), ("vigil", olderNames)] =
      [] ++ ("vigil", (∅ : RemapTable)) :: [("vigil", olderNames)] := rfl
  refine ⟨hopen, hmarked, hvigil, ⟨e, d, he, ⟨hd, _, rfl, ?_⟩, rfl⟩, ?_⟩
  · rw [hremap]
    exact read_staleState
  · exact migrateCommand_fails_of_stuck hopen hmarked hvigil hfirst
      (fun _ h => absurd h List.not_mem_nil) rfl rfl stuck_staleState

/-! ### A vigil that is lost -/

/-- A table that renames the shape that a migration writes. -/
def lostTable : RemapTable := Table.ofList [(RequestState.managerShape, "lost")]

/-- A unit with this table, and a vigil of old. -/
def lostVigil : Disk Store := ⟨vigilPlace [("first", some lostTable)], vigilStore⟩

theorem markedProcesses_lostVigil :
    markedProcesses ["data"] lostVigil.files = some ([("vigil", lostTable)], 0) := by
  have hfolders : markedUnits lostVigil.files (deployFolder ["data"]) =
      some [["data", "deploy", "first"]] := rfl
  have hfirst : DeploymentUnit.load lostVigil.files ["data", "deploy", "first"] =
      .ok ⟨[Script.vigil.definition], lostTable⟩ :=
    load_vigil rfl (by decide +kernel) rfl (DeploymentUnit.remapOf_eq (by decide) rfl)
  have hunits : [["data", "deploy", "first"]].map (DeploymentUnit.load lostVigil.files) =
      [⟨[Script.vigil.definition], lostTable⟩].map .ok := by
    rw [List.map_cons, List.map_nil, hfirst]
    rfl
  exact markedProcesses_of_load hfolders hunits

/-- With the table the vigil of old is read. -/
theorem read_oldVigil_lostTable :
    Checkpoint.read lostTable (Checkpoint.write Migration.oldVigil) = .ok Migration.oldVigil := by
  have hread := Checkpoint.toOption_read_write Migration.oldVigil_fits.sized lostTable
  have hdocument : ((lostTable.apply
      (InstanceSoup.toJson Migration.oldVigil).collapse).toOption.bind InstanceSoup.ofJson?) =
      some Migration.oldVigil := by decide
  exact toOption_eq_some_iff.1 (hread.trans hdocument)

/-- With the table a renewed vigil is not read. -/
theorem read_renewed_lostTable {requests : RequestState}
    (hrequests : Migration.oldVigil.global.requests.convert = .ok requests) (soup : InstanceSoup) :
    Checkpoint.read lostTable (Checkpoint.write (Migration.oldVigil.withRequests requests)) ≠
      .ok soup := by
  have hfits := Migration.oldVigil_fits.withRequests
    (Migration.oldVigil_fits.global.requests.convert hrequests)
  have hread := Checkpoint.toOption_read_write hfits.sized lostTable
  have hdocument : (Migration.oldVigil.global.requests.convert.toOption.bind fun requests =>
      (lostTable.apply (InstanceSoup.toJson
        (Migration.oldVigil.withRequests requests)).collapse).toOption.bind
          InstanceSoup.ofJson?) = none := by decide
  rw [hrequests] at hdocument
  intro h
  rw [h] at hread
  cases hread.trans hdocument

/-- **A table may take a vigil away from the engine.**  Where a unit renames the shape that a
migration writes, an engine reads a vigil of old, its requests are renewed and the command succeeds;
but what it wrote is read no more. -/
theorem migrateCommand_loses_vigil :
    openPlace .kept "data" lostVigil = (lostVigil, .ok (["data"], vigilStore)) ∧
    markedProcesses ["data"] lostVigil.files = some ([("vigil", lostTable)], 0) ∧
    vigilStore.get? 1 = some oldVigilRecord ∧ (migrateCommand .kept "data" lostVigil).1.code = 0 ∧
    ∃ e s' d requests r, reloaded ["data"] lostVigil.files {} = some e ∧
      e.Loads oldVigilRecord d Migration.oldVigil ∧
      Migration.oldVigil.global.requests.convert = .ok requests ∧
      openPlace .kept "data" (migrateCommand .kept "data" lostVigil).2 =
        ((migrateCommand .kept "data" lostVigil).2, .ok (["data"], s')) ∧
      reloaded ["data"] (migrateCommand .kept "data" lostVigil).2.files {} = some e ∧
      s'.get? 1 = some r ∧ r.status = .active ∧ ∀ d soup, ¬ e.Loads r d soup := by
  have hopen : openPlace .kept "data" lostVigil = (lostVigil, .ok (["data"], vigilStore)) :=
    openPlace_vigilPlace _ vigilStore
  have hmarked := markedProcesses_lostVigil
  obtain ⟨requests, hrequests⟩ := exists_convert_oldVigil
  obtain ⟨e, he, hregisters, hopen', he'⟩ :=
    exists_registers_of_migrateCommand hopen hmarked Database.lawful_kept (fun _ => .literal)
      defaultLimit
  have htable {remap : RemapTable} (h : ("vigil", remap) ∈ [("vigil", lostTable)]) :
      remap = lostTable := congrArg Prod.snd (List.mem_singleton.1 h)
  obtain ⟨d, hd, hlisted, hl⟩ := exists_loads_oldVigil hregisters List.mem_cons_self
    fun remap hlisted => htable hlisted ▸ read_oldVigil_lostTable
  have hvigil : vigilStore.get? 1 = some oldVigilRecord := rfl
  have hdue : Due [("vigil", lostTable)] oldVigilRecord lostTable
      (Checkpoint.write Migration.oldVigil) := ⟨rfl, List.mem_cons_self, rfl⟩
  have halone : Alone [("vigil", lostTable)] "vigil" := by
    unfold Alone
    decide
  have hgood := run_good_iff (s := vigilStore) hregisters fun id r _ _ hr _ => by
    obtain ⟨-, rfl⟩ := get?_vigilStore hr
    exact .inl halone
  have hfate : Migration.fate Migration.ofRecordIn [("vigil", lostTable)] oldVigilRecord =
      (true, Migration.vigilRecord 1
        (Checkpoint.write (Migration.oldVigil.withRequests requests))) := by
    rw [Migration.fate_of_alone halone hdue,
      Migration.ofRecord_eq_upToDate rfl read_oldVigil_lostTable hrequests]
    rfl
  refine ⟨hopen, hmarked, hvigil, ((migrateCommand_eq hopen hmarked).1.trans hgood).2 ?_, e, _, d,
    requests, Migration.vigilRecord 1 (Checkpoint.write (Migration.oldVigil.withRequests requests)),
    he, hl, hrequests, hopen', he', ?_, rfl, ?_⟩
  · intro id r _ _ hr _
    obtain ⟨-, rfl⟩ := get?_vigilStore hr
    exact ⟨d, _, requests, hl, hrequests⟩
  · rw [(Migration.amounts_run (served _) _).get?_eq, hvigil, Option.map_some, hfate]
  · intro d' soup hl'
    obtain ⟨bytes, hdue', hread⟩ := hregisters.due_of_loads hl'
    cases hdue'.state
    rw [htable hdue'.listed] at hread
    exact read_renewed_lostTable hrequests soup hread

end

end Perdure
