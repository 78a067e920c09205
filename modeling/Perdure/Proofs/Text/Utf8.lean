import Mathlib.Data.List.Basic

/-!
# Characters as bytes

The bytes of characters in UTF-8, as lists.

## Main definitions

* `Text.utf8` — the bytes of characters.

## Main results

* `Text.toList_toUTF8` — the bytes of a string are those of its characters.
* `Text.fromUTF8?_utf8` — the bytes of a string denote the string.
* `Text.utf8EncodeChar_of_ascii`, `Text.le_of_mem_utf8EncodeChar` — ASCII is one byte, and other
  characters have no byte in common with ASCII.
-/

namespace Perdure

namespace Text

/-- The bytes of characters. -/
def utf8 (cs : List Char) : List UInt8 := cs.flatMap String.utf8EncodeChar

@[simp] theorem utf8_nil : utf8 [] = [] := rfl

@[simp] theorem utf8_cons (c : Char) (cs : List Char) :
    utf8 (c :: cs) = String.utf8EncodeChar c ++ utf8 cs := rfl

@[simp] theorem utf8_append (cs ds : List Char) : utf8 (cs ++ ds) = utf8 cs ++ utf8 ds :=
  List.flatMap_append

theorem toListLoop_eq (b : ByteArray) (i : Nat) (r : List UInt8) :
    ByteArray.toList.loop b i r = r.reverse ++ b.data.toList.drop i := by
  fun_induction ByteArray.toList.loop b i r with
  | case1 i r hi ih =>
    have hi' : i < b.data.toList.length := hi
    have hget : b.get! i = b.data.toList[i] := by
      show b.data[i]! = _
      rw [getElem!_pos b.data i hi, Array.getElem_toList]
    rw [ih, hget, List.reverse_cons, List.append_assoc, List.drop_eq_getElem_cons hi',
      List.singleton_append]
  | case2 i r hi =>
    have hi' : b.data.toList.length ≤ i := Nat.not_lt.1 hi
    rw [List.drop_eq_nil_of_le hi', List.append_nil]

/-- The bytes of an array, listed. -/
theorem toList_eq_data (b : ByteArray) : b.toList = b.data.toList := by
  rw [ByteArray.toList, toListLoop_eq]
  rfl

/-- The bytes of a string are those of its characters. -/
theorem toList_toUTF8 (s : String) : s.toUTF8.toList = utf8 s.toList := by
  rw [toList_eq_data]
  show s.toByteArray.data.toList = _
  rw [← String.utf8Encode_toList, List.utf8Encode, List.toList_data_toByteArray]
  rfl

theorem toList_toUTF8_ofList (cs : List Char) :
    (String.ofList cs).toUTF8.toList = utf8 cs := by
  rw [toList_toUTF8, String.toList_ofList]

/-- The bytes of a string denote the string. -/
theorem fromUTF8?_utf8 (s : String) :
    String.fromUTF8? (ByteArray.mk (utf8 s.toList).toArray) = some s := by
  have hb : ByteArray.mk (utf8 s.toList).toArray = s.toByteArray := by
    rw [← String.utf8Encode_toList, List.utf8Encode]
    refine ByteArray.ext ?_
    rw [← Array.toList_inj, List.toList_data_toByteArray]
    rfl
  rw [hb, String.fromUTF8?, dif_pos s.isValidUTF8]
  rfl

/-- A character of ASCII is one byte. -/
theorem utf8EncodeChar_of_ascii {c : Char} (h : c.toNat < 128) :
    String.utf8EncodeChar c = [c.toUInt8] := by
  have h : c.val.toNat ≤ 0x7f := Nat.le_of_lt_succ h
  rw [String.utf8EncodeChar, if_pos h]
  rfl

theorem utf8_of_ascii {cs : List Char} (h : ∀ c ∈ cs, c.toNat < 128) :
    utf8 cs = cs.map Char.toUInt8 := by
  induction cs with
  | nil => rfl
  | cons c cs ih =>
    rw [utf8_cons, utf8EncodeChar_of_ascii (h c List.mem_cons_self),
      ih fun d hd => h d (List.mem_cons_of_mem c hd)]
    rfl

/-- The bytes of other characters lie beyond those of ASCII. -/
theorem le_of_mem_utf8EncodeChar {c : Char} (h : 128 ≤ c.toNat) {b : UInt8}
    (hb : b ∈ String.utf8EncodeChar c) : 128 ≤ b.toNat := by
  have h : ¬ c.val.toNat ≤ 0x7f := Nat.not_le.2 h
  simp only [String.utf8EncodeChar, if_neg h] at hb
  split at hb
  · simp only [List.mem_cons, List.not_mem_nil, or_false] at hb
    rcases hb with rfl | rfl <;> simp only [UInt8.toNat_ofNat'] <;> omega
  · split at hb
    · simp only [List.mem_cons, List.not_mem_nil, or_false] at hb
      rcases hb with rfl | rfl | rfl <;> simp only [UInt8.toNat_ofNat'] <;> omega
    · simp only [List.mem_cons, List.not_mem_nil, or_false] at hb
      rcases hb with rfl | rfl | rfl | rfl <;> simp only [UInt8.toNat_ofNat'] <;> omega

end Text

end Perdure
