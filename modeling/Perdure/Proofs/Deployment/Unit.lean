import Mathlib.Data.List.Basic
import Perdure.Deployment.Poller
import Perdure.Proofs.Definition.Validity
import Perdure.Proofs.Files.Tree
import Perdure.Proofs.RemapTable
import Perdure.Proofs.Text.Utf8

/-!
# What units are loaded from

A unit is loaded from what lies in its folder.  An engine to which units are deployed has the
processes that they come with, each with the table of the unit that was deployed last.

## Main definitions

* `FileTree.SameBelow` — two trees hold the same in a folder and below it.
* `Engine.Registers` — an engine has the listed processes, each with the table it is listed with
  last.

## Main results

* `markedUnits_congr`, `load_congr` — the marked units, and what is loaded of a unit.
* `DeploymentUnit.load_eq` — a unit with one definition.
* `Engine.Registers.deploy` — what an engine registers with a unit.
-/

namespace Perdure

/-! ### Units in trees that hold the same -/

namespace FileTree

/-- Two trees hold the same in a folder and below it. -/
def SameBelow (t u : FileTree) (folder : Path) : Prop := ∀ p, folder <+: p → t.get? p = u.get? p

variable {t u : FileTree} {folder : Path}

namespace SameBelow

variable (h : t.SameBelow u folder)

include h

theorem below {p : Path} (hp : folder <+: p) : t.SameBelow u p := fun q hq => h q (hp.trans hq)

theorem entry?_eq {p : Path} (hp : folder <+: p) : t.entry? p = u.entry? p := by
  unfold entry?
  rw [h p hp]

theorem read?_eq {p : Path} (hp : folder <+: p) : t.read? p = u.read? p := by
  unfold read?
  rw [h.entry?_eq hp]

theorem children_eq : t.children folder = u.children folder := by
  -- only what lies below the folder is a child of it
  have hbelow (t : FileTree) : t.children folder =
      (t.filter fun e => folder.isPrefixOf e.1).entries.filterMap fun e =>
        (nameIn? folder e.1).map (·, e.2) := by
    rw [children, Table.filter, List.filterMap_filter]
    refine List.filterMap_congr fun e _ => ?_
    split
    · rfl
    · next hnot =>
      cases hname : nameIn? folder e.1 with
      | none => rfl
      | some name =>
        rw [nameIn?_eq_some_iff.1 hname] at hnot
        exact absurd (List.isPrefixOf_iff_prefix.2 (List.prefix_append _ _)) hnot
  have hsame : (t.filter fun e => folder.isPrefixOf e.1) =
      u.filter fun e => folder.isPrefixOf e.1 := by
    refine Table.eq_of_get? fun p => ?_
    rw [Table.get?_filter, Table.get?_filter]
    by_cases hp : folder <+: p
    · rw [h p hp]
    · have hp : folder.isPrefixOf p = false := by
        rwa [← Bool.not_eq_true, List.isPrefixOf_iff_prefix]
      simp [hp]
  rw [hbelow t, hbelow u, hsame]

end SameBelow

end FileTree

section

variable {t u : FileTree} {watched folder : Path}

theorem markedUnits_congr (h : t.SameBelow u watched) :
    markedUnits t watched = markedUnits u watched := by
  unfold markedUnits unitFolders FileTree.isFile
  rw [h.entry?_eq (List.prefix_refl _), h.children_eq]
  simp only [h.read?_eq (List.prefix_append watched _)]

theorem text?_congr (h : t.SameBelow u folder) {p : Path} (hp : folder <+: p) :
    DeploymentUnit.text? t p = DeploymentUnit.text? u p := by
  unfold DeploymentUnit.text?
  rw [h.read?_eq hp]

theorem definitions_congr (h : t.SameBelow u folder) {paths : List Path}
    (hp : ∀ p ∈ paths, folder <+: p) :
    paths.mapM (DeploymentUnit.definition t) = paths.mapM (DeploymentUnit.definition u) := by
  induction paths with
  | nil => rfl
  | cons p rest ih =>
    have hfirst : DeploymentUnit.definition t p = DeploymentUnit.definition u p := by
      unfold DeploymentUnit.definition
      rw [text?_congr h (hp p List.mem_cons_self)]
    rw [List.mapM_cons, List.mapM_cons, hfirst, ih fun q hq => hp q (List.mem_cons_of_mem p hq)]

/-- A unit is loaded from what lies in its folder. -/
theorem load_congr (h : t.SameBelow u folder) :
    DeploymentUnit.load t folder = DeploymentUnit.load u folder := by
  have hpaths : DeploymentUnit.definitionPaths t folder =
      DeploymentUnit.definitionPaths u folder := by
    unfold DeploymentUnit.definitionPaths
    rw [h.children_eq]
  have hbelow : ∀ p ∈ DeploymentUnit.definitionPaths u folder, folder <+: p := by
    intro p hp
    obtain ⟨e, -, he⟩ := List.mem_filterMap.1 hp
    split at he
    · cases he
      exact List.prefix_append _ _
    · cases he
  have hremap : DeploymentUnit.remapOf t folder = DeploymentUnit.remapOf u folder := by
    unfold DeploymentUnit.remapOf
    simp only [h.entry?_eq (List.prefix_append folder [DeploymentUnit.remapFile]),
      text?_congr h (List.prefix_append folder [DeploymentUnit.remapFile])]
  unfold DeploymentUnit.load FileTree.isFolder
  simp only [h.entry?_eq (List.prefix_refl _), hpaths, definitions_congr h hbelow, hremap]

/-- The marked units lie in the watched folder. -/
theorem prefix_of_mem_markedUnits {units : List Path} (hu : markedUnits t watched = some units) :
    ∀ folder ∈ units, watched <+: folder := by
  unfold markedUnits at hu
  split at hu
  · cases hu
  · cases hu
    intro folder hfolder
    obtain ⟨name, -, hname⟩ := List.mem_filterMap.1 hfolder
    split at hname
    · cases hname
      exact List.prefix_append _ _
    · cases hname

end

/-! ### Units whose files hold texts -/

namespace DeploymentUnit

variable {t : FileTree} {p folder : Path} {text : String}

theorem text?_eq (h : t.read? p = some (Text.utf8 text.toList)) : text? t p = .ok text := by
  unfold text?
  rw [h, Option.bind_some, Text.fromUTF8?_utf8]

theorem definition_eq {d : Definition} (hd : d.validate = .ok ())
    (hlen : d.activities.length ≤ 2 ^ 32)
    (h : t.read? p = some (Text.utf8 d.text.toList)) : definition t p = .ok d := by
  have hwritable := (Definition.validate_eq_ok_iff.1 hd).writable hlen
  unfold definition
  rw [text?_eq h]
  show (Definition.ofText d.text).mapError _ = .ok d
  rw [Definition.ofText_text hwritable, hd]
  rfl

theorem remapOf_eq_empty (h : t.entry? (folder ++ [remapFile]) = none) :
    remapOf t folder = .ok ∅ := by
  unfold remapOf
  dsimp only
  rw [h]
  rfl

theorem remapOf_eq {table : RemapTable} (hk : Json.embeddedKey ∉ table.keys)
    (h : t.read? (folder ++ [remapFile]) = some (Text.utf8 table.toJson.render.toList)) :
    remapOf t folder = .ok table := by
  have htext := text?_eq h
  unfold FileTree.read? at h
  unfold remapOf
  dsimp only
  split
  · next hnone =>
    rw [hnone] at h
    cases h
  · simp only [htext, RemapTable.readText?_render hk, bind, Except.bind, pure, Except.pure]

/-- A unit with one definition. -/
theorem load_eq {d : Definition} {remap : RemapTable} (hfolder : t.isFolder folder = true)
    (hpaths : definitionPaths t folder = [p]) (hd : definition t p = .ok d)
    (hremap : remapOf t folder = .ok remap) : load t folder = .ok ⟨[d], remap⟩ := by
  unfold load
  rw [hfolder, hpaths]
  show ([p].mapM (definition t) >>= fun ds => remapOf t folder >>= fun remap =>
    pure (DeploymentUnit.mk ds remap)) = _
  rw [List.mapM_cons, List.mapM_nil, hd, hremap]
  rfl

end DeploymentUnit

/-! ### The engine and the list -/

/-- An engine has exactly the listed processes, each with the table that it is listed with last. -/
def Engine.Registers (e : Engine) (processes : List (String × RemapTable)) : Prop :=
  ∀ processId, (e.processes.get? processId).map (·.remap) = processes.reverse.lookup processId

namespace Engine.Registers

/-- An engine without processes has none that is listed nowhere. -/
theorem empty {evaluator : Occasion → Evaluator} {limit : Nat} :
    Registers { evaluator, limit } [] := fun _ => rfl

variable {e : Engine} {processes : List (String × RemapTable)} {processId : String}
  {remap : RemapTable} {d : Deployed}

theorem lookup_eq (h : e.Registers processes) (hd : e.processes.get? processId = some d) :
    processes.reverse.lookup processId = some d.remap := by
  rw [← h processId, hd]
  rfl

theorem listed (h : e.Registers processes) (hd : e.processes.get? processId = some d) :
    (processId, d.remap) ∈ processes := by
  obtain ⟨before, after, hl, -⟩ := List.lookup_eq_some_iff.1 (h.lookup_eq hd)
  rw [← List.mem_reverse, hl]
  exact List.mem_append_right before List.mem_cons_self

theorem known (h : e.Registers processes) (hmem : (processId, remap) ∈ processes) :
    ∃ d, e.processes.get? processId = some d := by
  cases hd : e.processes.get? processId with
  | some d => exact ⟨d, rfl⟩
  | none =>
    have hnone := h processId
    rw [hd] at hnone
    have hne := List.lookup_eq_none_iff.1 hnone.symm _ (List.mem_reverse.2 hmem)
    simp at hne

/-- Whatever came before, a process has the table of the last pair. -/
theorem remap_of_concat (h : e.Registers (processes ++ [(processId, remap)]))
    (hd : e.processes.get? processId = some d) : d.remap = remap := by
  have hlast := h.lookup_eq hd
  rw [List.reverse_concat, List.lookup_cons_self] at hlast
  exact (Option.some.inj hlast).symm

theorem register (h : e.Registers processes) (d : Definition) (remap : RemapTable) :
    (e.register d remap).Registers (processes ++ [(d.processId, remap)]) := by
  intro processId
  rw [Engine.register, Table.get?_insert, List.reverse_concat, List.lookup_cons]
  split
  · next he => rw [← he, beq_self_eq_true, Option.map_some]
  · next hne =>
    rw [beq_false_of_ne hne]
    exact h processId

theorem deploy (h : e.Registers processes) (u : DeploymentUnit) :
    (e.deploy u).Registers (processes ++ u.definitions.map fun d => (d.processId, u.remap)) := by
  unfold Engine.deploy
  induction u.definitions generalizing e processes with
  | nil => rwa [List.map_nil, List.append_nil]
  | cons d rest ih =>
    rw [List.map_cons, List.append_cons]
    exact ih (h.register d u.remap)

end Engine.Registers

end Perdure
