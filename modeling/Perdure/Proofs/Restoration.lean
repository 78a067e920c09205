import Perdure.Proofs.Instance.History
import Perdure.Proofs.RemapTable

/-!
# Checkpoints of older builds

A build may call the shapes of a soup by other names than the one before it, and an instance may
have been stored by any of the builds, or parts of it by one and parts by another.  With a table of
the renamings in between, all of these checkpoints hold the same soup.

## Main results

* `Checkpoint.document_render`, `Checkpoint.read_render` — a document that differs from a written
  soup in its names only is found in its checkpoint, and read where these lead to the right ones.
* `Checkpoint.restores_renamed` — a checkpoint under older names holds the soup that was meant, or
  is refused for a name that leads nowhere.
-/

namespace Perdure

namespace Checkpoint

variable {s : InstanceSoup} {d : Json} {R : String → String → Prop}

/-- A document that differs from a written soup in its names only is found in its checkpoint. -/
theorem document_render (h : Soup.Sized s) (hd : d.Renames R (InstanceSoup.toJson s)) :
    document (header version ++ d.render.toUTF8.toList) = .ok d.collapse := by
  have hwritable := Json.RenamesAt.writable hd (writable_toJson h)
  cases hd with
  | obj => rw [document_header, Json.readDocument_render hwritable fun _ => nofun]

/-- A document that differs from a written soup in names only, each of which leads to its own through
a table, is read with this table as the soup with its instants as they are shown. -/
theorem read_render {t : RemapTable} (h : Soup.Fits Instant.Proper s)
    (hd : d.Renames t.Leads (InstanceSoup.toJson s)) :
    read t (header version ++ d.render.toUTF8.toList) = .ok { s.shown with outbox := [] } := by
  have happly : t.apply d.collapse = .ok (InstanceSoup.toJson s.shown).collapse := by
    rw [Soup.toJson_shown h]
    exact RemapTable.apply_eq_ok_iff.2 hd.collapse
  exact read_of_document (document_render h.sized hd) happly (ofJson?_toJson h.shown)

/-- **Checkpoints of older builds hold the soup that was meant.**  Take the document of a soup and
write in the place of each shape, of each by itself, some name that leads to it through the table.
What is stored then is read as the soup with its instants as they are shown, but for the effects not
yet handed over.  If a shape is written instead that leads to no name, as its replacements run in a
circle, nothing is read, and a shape of this kind is reported.  In any document whatever, a table
exchanges the shapes for the names that they lead to, and all else is left as it is. -/
theorem restores_renamed (t : RemapTable) {s : InstanceSoup} (h : Soup.Fits Instant.Proper s) :
    (∀ d : Json, d.Renames t.Leads (InstanceSoup.toJson s) →
      read t (header version ++ d.render.toUTF8.toList) = .ok { s.shown with outbox := [] }) ∧
    (∀ d : Json, d.Renames (fun _ _ => True) (InstanceSoup.toJson s) →
      ∀ x, d.HasShape x → (∀ y, ¬ t.Leads x y) →
      ∃ shape, d.HasShape shape ∧ t.Circles shape ∧
        read t (header version ++ d.render.toUTF8.toList) = .error (.unresolvedShape shape)) ∧
    (∀ d e : Json, t.apply d = .ok e ↔ d.Renames t.Leads e) ∧
    (Soup.Fits Instant.Valid s → s.shown = s) := by
  refine ⟨fun d hd => read_render h hd, fun d hd x hx hnone => ?_,
    fun d e => RemapTable.apply_eq_ok_iff, Soup.Fits.shown_eq⟩
  have hwritable := Json.RenamesAt.writable hd (writable_toJson h.sized)
  -- no name repeats in what is stored, so the shape is still there when members are put in order
  obtain ⟨u, happly, hshape, hcircles⟩ :=
    RemapTable.exists_apply_eq_error (hx.collapse hwritable) (RemapTable.circles_iff.2 hnone)
  refine ⟨u.shape, hshape.of_collapse, hcircles, ?_⟩
  unfold read
  simp only [document_render h.sized hd, happly, bind, Except.bind, Except.mapError]

/-- The document of a soup has its own names, which an empty table leads to. -/
theorem renames_self (s : InstanceSoup) :
    (InstanceSoup.toJson s).Renames (∅ : RemapTable).Leads (InstanceSoup.toJson s) :=
  RemapTable.apply_eq_ok_iff.1
    ((RemapTable.spares_empty _).apply_eq_ok (Json.Shaped.instanceSoup s))

/-- A new vigil that armed a timer and has not handed this over. -/
def vigilArmed : InstanceSoup := Script.vigil.newSoup.registerTimer 9 ⟨3600, 0⟩

theorem vigilArmed_fits : Soup.Fits Instant.Valid vigilArmed :=
  (Script.vigil_fits.steady_newSoup.registerTimer (by decide) ⟨by decide, .inl (by decide)⟩).fits

/-- Even under its own names a soup need not be restored as it was: effects that are not yet handed
over are not part of what is stored, and a leap second that does not end a minute is written as the
second after it. -/
theorem read_ne_vigilArmed :
    (Soup.Fits Instant.Valid vigilArmed ∧
      (InstanceSoup.toJson vigilArmed).Renames (∅ : RemapTable).Leads
        (InstanceSoup.toJson vigilArmed) ∧
      read ∅ (header version ++ (InstanceSoup.toJson vigilArmed).render.toUTF8.toList) ≠
        .ok vigilArmed) ∧
    (Soup.Fits Instant.Proper Script.vigilLeap ∧
      (InstanceSoup.toJson Script.vigilLeap).Renames (∅ : RemapTable).Leads
        (InstanceSoup.toJson Script.vigilLeap) ∧
      read ∅ (header version ++ (InstanceSoup.toJson Script.vigilLeap).render.toUTF8.toList) ≠
        .ok { Script.vigilLeap with outbox := [] }) := by
  refine ⟨⟨vigilArmed_fits, renames_self vigilArmed, fun hread => ?_⟩,
    ⟨Script.vigilLeap_fits, renames_self Script.vigilLeap, ?_⟩⟩
  · have hdrained : { vigilArmed with outbox := [] } = vigilArmed :=
      Except.ok.inj ((read_write vigilArmed_fits).symm.trans hread)
    have hnone : ([] : List Effect) = [.registerTimer 9 ⟨3600, 0⟩] := congrArg Soup.outbox hdrained
    cases hnone
  · exact Script.read_ne_vigilLeap

/-- The document of a new vigil, its shapes under these names. -/
def vigilNamed (task requests : String) : Json := .obj
  [("global", .obj
     [("root", .obj [("termination", .nat 1), ("parent", .nat 2)]),
      ("requests", .obj [("shape", .str requests), ("entries", .arr [])])]),
   ("next_channel", .nat 3),
   ("next_monotonic", .nat 2),
   ("runnables", .arr [.obj
     [("shape", .str task),
      ("info", .obj [("id", .nat 1), ("activity", .nat 0), ("termination", .nat 1),
        ("parent", .nat 2)])]]),
   ("choices", .arr []),
   ("messages", .obj []),
   ("closed", .arr []),
   ("timers", .obj [])]

theorem renames_vigilNamed {task requests : String} (ht : R task "activity")
    (hr : R requests RequestState.managerShape) :
    (vigilNamed task requests).Renames R (InstanceSoup.toJson Script.vigil.newSoup) := by
  refine .obj rfl (.cons (.obj rfl (.cons ?_ (.cons ?_ .nil))) (.cons (.nat _ 3)
    (.cons (.nat _ 2) (.cons (.arr (.cons (.obj rfl (.cons ?_ (.cons ?_ .nil))) .nil))
    (.cons (.arr .nil) (.cons (.obj rfl .nil) (.cons (.arr .nil) (.cons (.obj rfl .nil) .nil))))))))
  · exact .obj rfl (.cons (.nat _ 1) (.cons (.nat _ 2) .nil))
  · exact .obj rfl (.cons (.shape hr) (.cons (.arr .nil) .nil))
  · exact .shape ht
  · exact .obj rfl (.cons (.nat _ 1) (.cons (.nat _ 0) (.cons (.nat _ 1) (.cons (.nat _ 2) .nil))))

/-- Tasks were renamed twice and requests once; one name has come to replace itself. -/
def vigilRenamings : RemapTable := Table.ofList
  [("task", "step"), ("step", "activity"), ("requests", RequestState.managerShape),
    ("loop", "loop")]

/-- A vigil stored before both renamings is restored; one with the name that replaces itself is
refused. -/
theorem restores_renamed_vigil : Soup.Fits Instant.Proper Script.vigil.newSoup ∧
    read vigilRenamings (header version ++ (vigilNamed "task" "requests").render.toUTF8.toList) =
      .ok { Script.vigil.newSoup with outbox := [] } ∧
    ∃ shape, vigilRenamings.Circles shape ∧
      read vigilRenamings (header version ++ (vigilNamed "loop" "requests").render.toUTF8.toList) =
        .error (.unresolvedShape shape) := by
  have hvalid : Soup.Fits Instant.Valid Script.vigil.newSoup := Script.vigil_fits.steady_newSoup.fits
  have hfits : Soup.Fits Instant.Proper Script.vigil.newSoup :=
    hvalid.mono fun _ => Instant.Valid.proper
  obtain ⟨hrestored, hrefused, -, hshown⟩ := restores_renamed vigilRenamings hfits
  have htask : vigilRenamings.Leads "task" "activity" :=
    ⟨.tail (.single (b := "step") (by decide)) (by decide), by decide⟩
  have hrequests : vigilRenamings.Leads "requests" RequestState.managerShape :=
    ⟨.single (by decide), by decide⟩
  have hloop : vigilRenamings.Circles "loop" := ⟨"loop", .refl, .single (by decide)⟩
  have hshape : (vigilNamed "loop" "requests").HasShape "loop" := by
    refine .member (.tail _ (.tail _ (.tail _ (.head _)))) (.item (.head _) ?_)
    exact .here (.head _)
  obtain ⟨shape, -, hcircles, hread⟩ :=
    hrefused _ (renames_vigilNamed trivial trivial) "loop" hshape (RemapTable.circles_iff.1 hloop)
  refine ⟨hfits, ?_, shape, hcircles, hread⟩
  rw [hrestored _ (renames_vigilNamed htask hrequests), hshown hvalid]

end Checkpoint

end Perdure
