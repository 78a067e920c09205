import Mathlib.Algebra.Group.Nat.Defs
import Perdure.Text.Digits

/-!
# Hexadecimal numbers as text

The hexadecimal digits of numbers and of bytes are read back.

## Main results

* `Text.exists_toDigits_sixteen` — the digits of a number have values below sixteen, which make up
  the number again.
* `Text.toDigits_sixteen_append_inj` — a number in front of a closing brace is read in one way.
* `Text.ofHex?_hex` — bytes are read back.
-/

namespace Perdure

namespace Text

/-- The digit for a value is read back. -/
theorem hexDigit?_digitChar {d : Nat} (h : d < 16) : hexDigit? (Nat.digitChar d) = some d := by
  decide +revert

theorem mapM_hexDigit? {ds : List Nat} (h : ∀ d ∈ ds, d < 16) :
    (ds.map Nat.digitChar).mapM hexDigit? = some ds := by
  induction ds with
  | nil => rfl
  | cons d rest ih =>
    rw [List.map_cons, List.mapM_cons, hexDigit?_digitChar (h d List.mem_cons_self),
      ih fun d hd => h d (List.mem_cons_of_mem _ hd)]
    rfl

/-- The digits of a number have values below sixteen, which make up the number again. -/
theorem exists_toDigits_sixteen (n : Nat) : ∃ ds : List Nat, (∀ d ∈ ds, d < 16) ∧
    Nat.toDigits 16 n = ds.map Nat.digitChar ∧ ds.foldl (fun n d => 16 * n + d) 0 = n := by
  induction n using Nat.strongRecOn with
  | _ n ih =>
    rcases Nat.lt_or_ge n 16 with hn | hn
    · exact ⟨[n], by simpa using hn, Nat.toDigits_of_lt_base hn, by simp⟩
    · obtain ⟨ds, hds, hdigits, hvalue⟩ := ih (n / 16) (by omega)
      refine ⟨ds ++ [n % 16], ?_, ?_, ?_⟩
      · intro d hd
        rcases List.mem_append.1 hd with hd | hd
        · exact hds d hd
        · rw [List.mem_singleton.1 hd]
          exact Nat.mod_lt n (by decide)
      · rw [Nat.toDigits_of_base_le (by decide) hn, hdigits, List.map_append]
        rfl
      · rw [List.foldl_append, hvalue]
        exact Nat.div_add_mod n 16

theorem toDigits_sixteen_inj {m n : Nat} (h : Nat.toDigits 16 m = Nat.toDigits 16 n) : m = n := by
  obtain ⟨ds, hds, hm, hmvalue⟩ := exists_toDigits_sixteen m
  obtain ⟨es, hes, hn, hnvalue⟩ := exists_toDigits_sixteen n
  have hsame := mapM_hexDigit? hds
  rw [← hm, h, hn, mapM_hexDigit? hes, Option.some.injEq] at hsame
  rw [← hmvalue, ← hnvalue, hsame]

/-- A closing brace is no digit. -/
theorem ne_brace_of_mem_toDigits {n : Nat} {c : Char} (hc : c ∈ Nat.toDigits 16 n) :
    c ≠ '\x7d' := by
  obtain ⟨ds, hds, hdigits, -⟩ := exists_toDigits_sixteen n
  rw [hdigits] at hc
  obtain ⟨d, hd, rfl⟩ := List.mem_map.1 hc
  have hlt := hds d hd
  clear hd hdigits hc
  decide +revert

/-- The digits in front of a closing brace, whatever follows it. -/
theorem takeWhile_toDigits (n : Nat) (r : List Char) :
    (Nat.toDigits 16 n ++ '\x7d' :: r).takeWhile (· ≠ '\x7d') = Nat.toDigits 16 n := by
  rw [List.takeWhile_append_of_pos fun c hc => decide_eq_true (ne_brace_of_mem_toDigits hc),
    List.takeWhile_cons_of_neg (by simp), List.append_nil]

/-- A number in front of a closing brace is read in one way only. -/
theorem toDigits_sixteen_append_inj {m n : Nat} {r r' : List Char}
    (h : Nat.toDigits 16 m ++ '\x7d' :: r = Nat.toDigits 16 n ++ '\x7d' :: r') :
    m = n ∧ r = r' := by
  have hdigits : Nat.toDigits 16 m = Nat.toDigits 16 n := by
    rw [← takeWhile_toDigits m r, h, takeWhile_toDigits]
  refine ⟨toDigits_sixteen_inj hdigits, ?_⟩
  rw [hdigits] at h
  exact (List.cons.inj (List.append_cancel_left h)).2

/-- Bytes are read back from their digits. -/
theorem ofHex?_hex (bytes : List UInt8) : ofHex? (hex bytes).toList = some bytes := by
  rw [hex, String.toList_ofList]
  induction bytes with
  | nil => rfl
  | cons b rest ih =>
    have hb := b.toNat_lt
    rw [List.flatMap_cons, hexByte, List.cons_append, List.cons_append, List.nil_append, ofHex?,
      hexDigit?_digitChar (by omega), hexDigit?_digitChar (by omega), ih]
    show some (UInt8.ofNat (16 * (b.toNat / 16) + b.toNat % 16) :: rest) = _
    rw [Nat.div_add_mod, UInt8.ofNat_toNat]

end Text

end Perdure
