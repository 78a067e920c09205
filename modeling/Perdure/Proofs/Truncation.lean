import Perdure.Proofs.Checkpoint
import Perdure.Proofs.Instance.History
import Perdure.Proofs.Json.Truncation

/-!
# Checkpoints cut short

A store may lose the end of what was written to it.  What is left of a checkpoint is known to be
too short, wherever it was cut: it is not taken for a soup, nor for something else.

## Main results

* `Checkpoint.document_take_write` — a checkpoint that was cut short holds no document.
* `Checkpoint.read_take_write` — it is reported as truncated, with the length that is left.
-/

namespace Perdure

namespace Checkpoint

/-- A checkpoint that was cut short holds no document. -/
theorem document_take_write {s : InstanceSoup} (h : Soup.Sized s) {n : Nat}
    (hn : n < (write s).length) :
    document ((write s).take n) = .error (.truncated n) := by
  have hlength : ((write s).take n).length = n := List.length_take_of_le hn.le
  rcases Nat.lt_or_ge n 8 with hshort | hlong
  · -- the cut is in the header, what is left of the magic is a part of it
    have hmagic : ((write s).take n).take magic.length <+: magic := by
      rw [List.take_take, Nat.min_comm, ← List.take_take, write, header, List.append_assoc,
        List.take_left]
      exact List.take_prefix ..
    unfold document
    rw [if_pos (by rw [hlength, length_magic]; exact hshort), if_pos hmagic, hlength]
  · -- the cut is in the document, of which a proper part is left
    obtain ⟨k, rfl⟩ : ∃ k, n = 8 + k := ⟨n - 8, by omega⟩
    have hcut : (write s).take (8 + k) = header version ++ (body s).toUTF8.toList.take k := by
      rw [write, ← length_header version, List.take_length_add_append]
    have hpart : (body s).toUTF8.toList.take k ≠ (body s).toUTF8.toList := by
      intro heq
      rw [hcut, heq] at hlength
      exact absurd hlength hn.ne'
    have hearly : Json.readDocument ((body s).toUTF8.toList.take k) = .error .early :=
      Json.readDocument_of_prefix (writable_toJson h) (List.take_prefix ..) hpart
    rw [hcut] at hlength ⊢
    rw [document_header, hearly, hlength]

/-- **Checkpoints cut short are recognised.**  Whatever is left of a checkpoint, be it some of its
header or of any token of its document, is reported as truncated to the length it has, whichever
shapes have been renamed. -/
theorem read_take_write (t : RemapTable) {s : InstanceSoup} (h : Soup.Sized s) {n : Nat}
    (hn : n < (write s).length) : read t ((write s).take n) = .error (.truncated n) := by
  unfold read
  rw [document_take_write h hn]
  rfl

/-- What is left of a new vigil when it is cut in the middle of its first word. -/
theorem read_take_write_vigil : Soup.Sized Script.vigil.newSoup ∧
    12 < (write Script.vigil.newSoup).length ∧
    read ∅ ((write Script.vigil.newSoup).take 12) = .error (.truncated 12) := by
  have hfits : Soup.Sized Script.vigil.newSoup := Script.vigil_fits.steady_newSoup.fits.sized
  have hlength : 12 < (write Script.vigil.newSoup).length := by
    rw [write, body, Json.render, Text.toList_toUTF8_ofList]
    decide +kernel
  exact ⟨hfits, hlength, read_take_write ∅ hfits hlength⟩

end Checkpoint

end Perdure
