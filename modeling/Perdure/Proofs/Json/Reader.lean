import Perdure.Json.Printer
import Perdure.Proofs.Json.Number

/-!
# What is written is read back

A reader of documents gets from the compact written form of a value the value itself.  It has to
denote something throughout: numbers are words, and no object looks like one that embeds other
text.  A number ends only at the byte after it, so the text behind a value is part of the
statement.

## Main definitions

* `Json.Writable` — a value, of some depth at most, that is read back.
* `Json.Reads` — the text of a value takes a reader from before the value to behind it.

## Main results

* `Json.induction` — induction over the parts of a value.
* `Json.Writable.reads` — a writable value is read back, whatever text follows.
* `Json.readDocument_render` — a document is read back as a finite map sees it.
-/

namespace Perdure

namespace Json

/-- What holds of a list or object if it holds of all its parts holds of every value. -/
@[elab_as_elim]
theorem induction {motive : Json → Prop} (null : motive .null) (bool : ∀ b, motive (.bool b))
    (nat : ∀ n, motive (.nat n)) (number : ∀ literal, motive (.number literal))
    (str : ∀ s, motive (.str s)) (undenoted : motive .undenoted)
    (arr : ∀ items, (∀ v ∈ items, motive v) → motive (.arr items))
    (obj : ∀ members, (∀ m ∈ members, motive m.2) → motive (.obj members)) :
    ∀ v, motive v
  | .null => null
  | .bool b => bool b
  | .nat n => nat n
  | .number literal => number literal
  | .str s => str s
  | .undenoted => undenoted
  | .arr items => arr items fun v _ => induction null bool nat number str undenoted arr obj v
  | .obj members => obj members fun m _ => induction null bool nat number str undenoted arr obj m.2
termination_by v => sizeOf v
decreasing_by
  · have := List.sizeOf_lt_of_mem ‹v ∈ items›
    simp only [Json.arr.sizeOf_spec]
    omega
  · have := List.sizeOf_lt_of_mem ‹m ∈ members›
    obtain ⟨k, w⟩ := m
    simp only [Json.obj.sizeOf_spec, Prod.mk.sizeOf_spec] at this ⊢
    omega

/-- A value of the given depth at most that is read back from its written form.  No name repeats in
an object, so that nothing is lost when it is seen as a finite map. -/
inductive Writable : Nat → Json → Prop
  | null (d : Nat) : Writable d .null
  | bool (d : Nat) (b : Bool) : Writable d (.bool b)
  | nat (d : Nat) {n : Nat} (h : n < 2 ^ 64) : Writable d (.nat n)
  | str (d : Nat) (s : String) : Writable d (.str s)
  | arr {d : Nat} {items : List Json} (h : ∀ v ∈ items, Writable d v) :
      Writable (d + 1) (.arr items)
  | obj {d : Nat} {members : List (String × Json)} (hk : members.head?.map (·.1) ≠ some embeddedKey)
      (hn : (members.map Prod.fst).Nodup) (h : ∀ m ∈ members, Writable d m.2) :
      Writable (d + 1) (.obj members)

namespace Reader

open Text (utf8)

/-! ### Runs of the reader -/

/-- The state after some bytes. -/
def run (mode : Mode) (s : State) (bytes : List UInt8) : Except ReadError State :=
  bytes.foldlM (step mode) s

variable {mode : Mode} {frames : List Frame}

@[simp] theorem run_nil (s : State) : run mode s [] = .ok s := rfl

theorem run_cons (s : State) (b : UInt8) (bs : List UInt8) :
    run mode s (b :: bs) = step mode s b >>= (run mode · bs) := List.foldlM_cons

theorem run_append (s : State) (as bs : List UInt8) :
    run mode s (as ++ bs) = run mode s as >>= (run mode · bs) := List.foldlM_append

/-- After bytes that lead to a state, the others follow from there. -/
theorem run_append_of_eq {s t : State} {as : List UInt8} (h : run mode s as = .ok t)
    (bs : List UInt8) : run mode s (as ++ bs) = run mode t bs := by
  rw [run_append, h]
  rfl

theorem run_cons_of_eq {s t : State} {b : UInt8} (h : step mode s b = .ok t) (bs : List UInt8) :
    run mode s (b :: bs) = run mode t bs := by
  rw [run_cons, h]
  rfl

/-! ### Strings -/

/-- A byte that stands for itself in a string. -/
theorem step_text {isKey : Bool} {acc : List UInt8} {b : UInt8} (h : 0x20 ≤ b.toNat)
    (hq : b ≠ '"'.toUInt8) (hs : b ≠ '\\'.toUInt8) :
    step mode ⟨frames, .text isKey acc false .none⟩ b =
      .ok ⟨frames, .text isKey (b :: acc) false .none⟩ := by
  have hlt : ¬ b < 0x20 := fun hb => absurd (UInt8.lt_iff_toNat_lt.1 hb) (Nat.not_lt.2 h)
  show textStep mode frames isKey acc false .none b = _
  simp only [textStep, beq_iff_eq, hq, hs, hlt, if_false]

theorem run_text {isKey : Bool} {acc bytes : List UInt8}
    (h : ∀ b ∈ bytes, 0x20 ≤ b.toNat ∧ b ≠ '"'.toUInt8 ∧ b ≠ '\\'.toUInt8) :
    run mode ⟨frames, .text isKey acc false .none⟩ bytes =
      .ok ⟨frames, .text isKey (bytes.reverse ++ acc) false .none⟩ := by
  induction bytes generalizing acc with
  | nil => rfl
  | cons b bs ih =>
    obtain ⟨hb, hq, hs⟩ := h b List.mem_cons_self
    rw [run_cons_of_eq (step_text hb hq hs), ih fun c hc => h c (List.mem_cons_of_mem b hc),
      List.reverse_cons, List.append_assoc, List.singleton_append]

/-- A character that is not escaped has only bytes that stand for themselves. -/
theorem plain_utf8EncodeChar {c : Char} (h : 0x20 ≤ c.toNat) (hq : c ≠ '"') (hs : c ≠ '\\')
    {b : UInt8} (hb : b ∈ String.utf8EncodeChar c) :
    0x20 ≤ b.toNat ∧ b ≠ '"'.toUInt8 ∧ b ≠ '\\'.toUInt8 := by
  by_cases hc : c.toNat < 128
  · rw [Text.utf8EncodeChar_of_ascii hc, List.mem_singleton] at hb
    have hv : b.toNat = c.toNat := by
      rw [hb]
      show c.toNat % 256 = _
      omega
    have hne (d : Char) (hd : d.toNat < 128) (hcd : c ≠ d) : b ≠ d.toUInt8 := fun h => by
      have hdv : d.toUInt8.toNat = d.toNat := by
        show d.toNat % 256 = _
        omega
      exact hcd (Char.toNat_inj.1 (by rw [← hv, h, hdv]))
    exact ⟨by omega, hne '"' (by decide) hq, hne '\\' (by decide) hs⟩
  · have hle := Text.le_of_mem_utf8EncodeChar (Nat.not_lt.1 hc) hb
    refine ⟨by omega, ?_, ?_⟩
    · rintro rfl
      exact absurd hle (by decide)
    · rintro rfl
      exact absurd hle (by decide)

/-- The written form of a character adds the bytes of the character. -/
theorem run_escaped (isKey : Bool) (acc : List UInt8) (c : Char) :
    run mode ⟨frames, .text isKey acc false .none⟩ (utf8 (escaped c)) =
      .ok ⟨frames, .text isKey ((String.utf8EncodeChar c).reverse ++ acc) false .none⟩ := by
  by_cases hlow : c.toNat < 0x20
  · obtain ⟨n, hn, rfl⟩ : ∃ n < 0x20, c = Char.ofNat n := ⟨c.toNat, hlow, (Char.ofNat_toNat c).symm⟩
    interval_cases n <;> rfl
  · by_cases hq : c = '"'
    · subst hq
      rfl
    · by_cases hs : c = '\\'
      · subst hs
        rfl
      · have he : escaped c = [c] := by
          unfold escaped
          rw [if_neg hq, if_neg hs, if_neg (by omega), if_neg (by omega), if_neg (by omega),
            if_neg (by omega), if_neg (by omega), if_neg hlow]
        rw [he, Text.utf8_cons, Text.utf8_nil, List.append_nil]
        exact run_text fun b hb => plain_utf8EncodeChar (Nat.not_lt.1 hlow) hq hs hb

theorem run_escapes (isKey : Bool) (acc : List UInt8) (cs : List Char) :
    run mode ⟨frames, .text isKey acc false .none⟩ (utf8 (cs.flatMap escaped)) =
      .ok ⟨frames, .text isKey ((utf8 cs).reverse ++ acc) false .none⟩ := by
  induction cs generalizing acc with
  | nil => rfl
  | cons c cs ih =>
    rw [List.flatMap_cons, Text.utf8_append, run_append_of_eq (run_escaped isKey acc c), ih,
      Text.utf8_cons, List.reverse_append, List.append_assoc]

/-- A string between its quotes, as a value. -/
theorem run_string (s : String) (rest : List UInt8) :
    run mode ⟨frames, .text false [] false .none⟩
        (utf8 (s.toList.flatMap escaped) ++ '"'.toUInt8 :: rest) =
      complete mode frames (.str s) >>= (run mode · rest) := by
  rw [run_append_of_eq (run_escapes false [] s.toList), List.append_nil, run_cons]
  congr 1
  show completeText mode frames false _ false = _
  rw [completeText, List.reverse_reverse, Text.fromUTF8?_utf8]
  rfl

/-- A string between its quotes, as a key. -/
theorem run_key {members : List (String × Json)} {old : String} {s : String}
    (h : members = [] → s ≠ embeddedKey) (rest : List UInt8) :
    run mode ⟨.record members old false :: frames, .text true [] false .none⟩
        (utf8 (s.toList.flatMap escaped) ++ '"'.toUInt8 :: rest) =
      run mode ⟨.record members s false :: frames, .colon⟩ rest := by
  rw [run_append_of_eq (run_escapes true [] s.toList), List.append_nil]
  refine run_cons_of_eq ?_ rest
  show completeText mode _ true _ false = _
  rw [completeText, List.reverse_reverse, Text.fromUTF8?_utf8]
  show completeKey mode (.record members old false :: frames) s false = _
  have hplain : (mode.isStrict && members.isEmpty && decide (s = embeddedKey)) = false := by
    cases members with
    | nil => simp [h rfl]
    | cons => simp
  rw [completeKey, hplain]
  rfl

/-- A string in quotes, in bytes. -/
theorem utf8_quoted_append (s : String) (rest : List Char) :
    utf8 (quoted s ++ rest) =
      '"'.toUInt8 :: (utf8 (s.toList.flatMap escaped) ++ '"'.toUInt8 :: utf8 rest) := by
  simp only [quoted, List.cons_append, List.append_assoc, Text.utf8_cons, Text.utf8_append]
  rfl

/-! ### Words -/

/-- The rest of a word, up to its end. -/
theorem run_word {left : List UInt8} (h : left ≠ []) (v : Json) (rest : List UInt8) :
    run mode ⟨frames, .word left v⟩ (left ++ rest) =
      complete mode frames v >>= (run mode · rest) := by
  induction left with
  | nil => exact absurd rfl h
  | cons b left ih =>
    have hstep : step mode ⟨frames, .word (b :: left) v⟩ b =
        if left.isEmpty then complete mode frames v else .ok ⟨frames, .word left v⟩ := by
      show plainStep mode ⟨frames, .word (b :: left) v⟩ b = _
      simp [plainStep]
    rw [List.cons_append, run_cons, hstep]
    cases left with
    | nil => rfl
    | cons c left => exact ih (List.cons_ne_nil c left)

/-! ### Numbers -/

/-- A byte after which a number is complete. -/
def EndsNumber (b : UInt8) : Prop :=
  b = ','.toUInt8 ∨ b = ']'.toUInt8 ∨ b = '\x7d'.toUInt8

theorem complete_ne_number {v : Json} {s : State} (h : complete mode frames v = .ok s)
    (part : NumberPart) (bytes : List UInt8) : s.spot ≠ .number part bytes := by
  unfold complete at h
  split at h
  · cases h; exact nofun
  · cases h; exact nofun
  · cases h; exact nofun
  · split at h
    · cases h; exact nofun
    · cases h

theorem step_number (part : NumberPart) (bytes : List UInt8) (b : UInt8) :
    step mode ⟨frames, .number part bytes⟩ b = match part.next b with
      | none => .error .malformed
      | some (some part) => .ok ⟨frames, .number part (b :: bytes)⟩
      | some none => endNumber mode frames bytes >>= (plainStep mode · b) := rfl

/-- A number is complete before the byte that ends it. -/
theorem step_end {part : NumberPart} (hp : part = .zero ∨ part = .whole) {bytes : List UInt8}
    {n : Nat} (hv : numberValue bytes = .nat n) {b : UInt8} (hb : EndsNumber b) :
    step mode ⟨frames, .number part bytes⟩ b =
      complete mode frames (.nat n) >>= (step mode · b) := by
  have hnext : part.next b = some none := by
    rcases hp with rfl | rfl <;> rcases hb with rfl | rfl | rfl <;> rfl
  rw [step_number, hnext]
  show endNumber mode frames bytes >>= (plainStep mode · b) = _
  rw [endNumber, hv]
  show complete mode frames (.nat n) >>= (plainStep mode · b) = _
  cases hc : complete mode frames (.nat n) with
  | error e => rfl
  | ok s =>
    show plainStep mode s b = step mode s b
    unfold step
    split
    · next part' bytes' hs => exact absurd hs (complete_ne_number hc part' bytes')
    · rfl

theorem run_digits {acc bytes : List UInt8} (h : bytes.all isDigit = true) :
    run mode ⟨frames, .number .whole acc⟩ bytes =
      .ok ⟨frames, .number .whole (bytes.reverse ++ acc)⟩ := by
  induction bytes generalizing acc with
  | nil => rfl
  | cons b bs ih =>
    simp only [List.all_cons, Bool.and_eq_true] at h
    have hb : step mode ⟨frames, .number .whole acc⟩ b = .ok ⟨frames, .number .whole (b :: acc)⟩ := by
      rw [step_number, NumberPart.next, if_pos h.1]
    rw [run_cons_of_eq hb, ih h.2, List.reverse_cons, List.append_assoc, List.singleton_append]

/-- The first digit of a number. -/
theorem step_digit {b : UInt8} (hd : isDigit b = true) (h0 : b ≠ '0'.toUInt8) :
    step mode ⟨frames, .value⟩ b = .ok ⟨frames, .number .whole [b]⟩ := by
  obtain ⟨d, hlt, rfl⟩ := exists_of_isDigit hd
  interval_cases d
  · exact absurd rfl h0
  all_goals rfl

/-- A number, up to the byte that ends it. -/
theorem run_number {n : Nat} (hn : n < 2 ^ 64) {b : UInt8} (hb : EndsNumber b)
    (rest : List UInt8) :
    run mode ⟨frames, .value⟩ (utf8 (Nat.toDigits 10 n) ++ b :: rest) =
      complete mode frames (.nat n) >>= (run mode · (b :: rest)) := by
  have hv := numberValue_toDigits hn
  have hend {part : NumberPart} (hp : part = .zero ∨ part = .whole) :
      run mode ⟨frames, .number part (utf8 (Nat.toDigits 10 n)).reverse⟩ (b :: rest) =
        complete mode frames (.nat n) >>= (run mode · (b :: rest)) := by
    rw [run_cons, step_end hp hv hb, bind_assoc]
    simp only [run_cons]
  -- a zero stands alone; any other number goes on with digits after its first
  rcases Text.toDigits_cases n with h | ⟨c, cs, h, hc, hd⟩
  · rw [h] at hend ⊢
    exact hend (.inl rfl)
  · have hall := Text.all_isDigit_toDigits n
    rw [h, List.all_cons, Bool.and_eq_true] at hall
    have hfirst := isDigit_toUInt8 hd
    have hc0 : c.toUInt8 ≠ '0'.toUInt8 := fun h0 => by
      have hle := Char.isDigit_iff_toNat.1 hd
      have hz : c.toNat - '0'.toNat = 0 := by rw [← hfirst.2, h0]; rfl
      exact hc (Char.toNat_inj.1 (by omega))
    have hbytes : utf8 (Nat.toDigits 10 n) = c.toUInt8 :: cs.map Char.toUInt8 := by
      rw [utf8_of_isDigit (Text.all_isDigit_toDigits n), h, List.map_cons]
    have hrun := @hend .whole (.inr rfl)
    rw [hbytes] at hrun ⊢
    rw [List.cons_append, run_cons_of_eq (step_digit hfirst.1 hc0),
      run_append_of_eq (run_digits (all_isDigit_map hall.2)), ← hrun, List.reverse_cons]

end Reader

/-! ### Values -/

open Reader
open Text (utf8)

/-- The innermost open frame does not await embedded text. -/
def Unembedded (frames : List Frame) : Prop := ∀ v rest, frames ≠ .embedding v :: rest

theorem unembedded_nil : Unembedded [] := nofun

theorem unembedded_list (items : List Json) (frames : List Frame) :
    Unembedded (.list items :: frames) := nofun

theorem unembedded_record (members : List (String × Json)) (key : String) (broken : Bool)
    (frames : List Frame) : Unembedded (.record members key broken :: frames) := nofun

/-- The text behind a value ends the value, if that is a number. -/
def Closes (v : Json) (rest : List Char) : Prop :=
  ∀ n, v = .nat n → ∃ b bs, utf8 rest = b :: bs ∧ EndsNumber b

/-- The text of a value takes a reader from before the value to behind it. -/
def Reads (mode : Mode) (d : Nat) (v : Json) : Prop :=
  ∀ frames rest, frames.length + d ≤ depthLimit → Unembedded frames → Closes v rest →
    run mode ⟨frames, .value⟩ (utf8 (v.chars rest)) =
      complete mode frames v >>= (run mode · (utf8 rest))

variable {mode : Mode} {d : Nat}

/-- A digit neither ends a list nor is it a blank. -/
theorem Reader.plain_of_isDigit {b : UInt8} (h : isDigit b = true) :
    isSpace b = false ∧ b ≠ ']'.toUInt8 := by
  obtain ⟨d, hd, rfl⟩ := exists_of_isDigit h
  interval_cases d <;> decide

/-- A value begins with a byte that neither ends a list nor is a blank. -/
theorem Writable.exists_head {v : Json} (h : v.Writable d) (rest : List Char) :
    ∃ b bs, utf8 (v.chars rest) = b :: bs ∧ isSpace b = false ∧ b ≠ ']'.toUInt8 := by
  cases h with
  | null => exact ⟨_, _, rfl, rfl, by decide⟩
  | bool d b => cases b <;> exact ⟨_, _, rfl, rfl, by decide⟩
  | str => exact ⟨_, _, rfl, rfl, by decide⟩
  | arr => exact ⟨_, _, rfl, rfl, by decide⟩
  | obj => exact ⟨_, _, rfl, rfl, by decide⟩
  | @nat _ n =>
    have hd := Text.all_isDigit_toDigits n
    obtain ⟨c, cs, hc⟩ := List.exists_cons_of_ne_nil (Nat.toDigits_ne_nil (n := n) (b := 10))
    have hb := utf8_of_isDigit hd
    rw [hc, List.map_cons] at hb
    have hfirst := List.all_eq_true.1 (all_isDigit_map hd) c.toUInt8
      (by rw [hc]; exact List.mem_cons_self)
    refine ⟨c.toUInt8, cs.map Char.toUInt8 ++ utf8 rest, ?_, plain_of_isDigit hfirst⟩
    rw [chars, Text.utf8_append, hc, hb, List.cons_append]

/-- The first item of a list is read like any other. -/
theorem Writable.run_item {v : Json} (h : v.Writable d) (frames : List Frame)
    (rest : List Char) :
    run mode ⟨frames, .item⟩ (utf8 (v.chars rest)) =
      run mode ⟨frames, .value⟩ (utf8 (v.chars rest)) := by
  obtain ⟨b, bs, hb, hspace, hclose⟩ := h.exists_head rest
  have hstep : step mode ⟨frames, .item⟩ b = step mode ⟨frames, .value⟩ b := by
    show plainStep mode ⟨frames, .item⟩ b = plainStep mode ⟨frames, .value⟩ b
    simp only [plainStep, hspace, beq_iff_eq, hclose, if_false, Bool.false_eq_true]
  rw [hb, run_cons, run_cons, hstep]

/-- A word is read up to its end. -/
theorem Reads.word {v : Json} (first : Char) (left : String) (hl : left.toList ≠ [])
    (hv : ∀ rest, v.chars rest = first :: (left.toList ++ rest))
    (hstep : ∀ frames, run mode ⟨frames, .value⟩ (String.utf8EncodeChar first) =
      .ok ⟨frames, .word left.toUTF8.toList v⟩) : Reads mode d v := by
  intro frames rest _ _ _
  have hne : utf8 left.toList ≠ [] := by
    obtain ⟨c, cs, hc⟩ := List.exists_cons_of_ne_nil hl
    rw [hc, Text.utf8_cons]
    exact List.append_ne_nil_of_left_ne_nil String.utf8EncodeChar_ne_nil _
  rw [hv, Text.utf8_cons, run_append_of_eq (hstep frames), Text.utf8_append, Text.toList_toUTF8]
  exact run_word hne v (utf8 rest)

theorem Reads.null : Reads mode d .null :=
  .word 'n' "ull" (by decide) (fun _ => rfl) fun _ => rfl

theorem Reads.bool (b : Bool) : Reads mode d (.bool b) := by
  cases b with
  | false => exact .word 'f' "alse" (by decide) (fun _ => rfl) fun _ => rfl
  | true => exact .word 't' "rue" (by decide) (fun _ => rfl) fun _ => rfl

theorem Reads.str (s : String) : Reads mode d (.str s) := by
  intro frames rest _ _ _
  rw [chars, utf8_quoted_append]
  exact run_string s (utf8 rest)

theorem Reads.nat {n : Nat} (h : n < 2 ^ 64) : Reads mode d (.nat n) := by
  intro frames rest _ _ hc
  obtain ⟨b, bs, hb, hend⟩ := hc n rfl
  rw [chars, Text.utf8_append, hb]
  exact run_number h hend bs

theorem closes_comma (v : Json) (rest : List Char) : Closes v (',' :: rest) :=
  fun _ _ => ⟨_, _, rfl, .inl rfl⟩

theorem closes_bracket (v : Json) (rest : List Char) : Closes v (']' :: rest) :=
  fun _ _ => ⟨_, _, rfl, .inr (.inl rfl)⟩

theorem closes_brace (v : Json) (rest : List Char) : Closes v ('\x7d' :: rest) :=
  fun _ _ => ⟨_, _, rfl, .inr (.inr rfl)⟩

theorem openFrame_of_unembedded {frames : List Frame} (hopen : Unembedded frames)
    (hlen : frames.length < depthLimit) (frame : Frame) (spot : Spot) :
    openFrame mode frames frame spot = .ok ⟨frame :: frames, spot⟩ := by
  have hfits : (mode.isStrict && decide (depthLimit ≤ frames.length)) = false := by
    rw [decide_eq_false (Nat.not_le.2 hlen), Bool.and_false]
  unfold openFrame
  split
  · next v rest => exact absurd rfl (hopen v rest)
  · rw [hfits]
    rfl

/-- Items that are read one by one fill a list up to its end. -/
theorem run_items {frames : List Frame} (hlen : frames.length + (d + 1) ≤ depthLimit)
    {v : Json} {more : List Json} (h : ∀ w ∈ v :: more, Reads mode d w) (acc : List Json)
    (rest : List Char) :
    run mode ⟨.list acc :: frames, .value⟩ (utf8 (itemChars (v :: more) (']' :: rest))) =
      complete mode frames (.arr (acc.reverse ++ v :: more)) >>= (run mode · (utf8 rest)) := by
  induction more generalizing v acc with
  | nil =>
    have hv := h v List.mem_cons_self (.list acc :: frames) (']' :: rest)
      (by rw [List.length_cons]; omega) (unembedded_list acc frames) (closes_bracket v rest)
    rw [itemChars, hv, ← List.reverse_cons]
    rfl
  | cons w more ih =>
    have hv := h v List.mem_cons_self (.list acc :: frames)
      (',' :: itemChars (w :: more) (']' :: rest))
      (by rw [List.length_cons]; omega) (unembedded_list acc frames) (closes_comma v _)
    have hrest := ih (fun u hu => h u (List.mem_cons_of_mem v hu)) (v :: acc)
    rw [List.reverse_cons, List.append_assoc, List.singleton_append] at hrest
    rw [itemChars, hv, ← hrest]
    · rfl
    · simp

/-- Members that are read one by one fill an object up to its end. -/
theorem run_members {frames : List Frame} (hlen : frames.length + (d + 1) ≤ depthLimit)
    {k : String} {v : Json} {more : List (String × Json)}
    (h : ∀ m ∈ (k, v) :: more, Reads mode d m.2) (acc : List (String × Json)) (old : String)
    (hk : acc = [] → k ≠ embeddedKey) (rest : List Char) :
    run mode ⟨.record acc old false :: frames, .key⟩
        (utf8 (memberChars ((k, v) :: more) ('\x7d' :: rest))) =
      complete mode frames (.obj (acc.reverse ++ (k, v) :: more)) >>=
        (run mode · (utf8 rest)) := by
  have hkey {k : String} {acc : List (String × Json)} (hk : acc = [] → k ≠ embeddedKey)
      (old : String) (cs : List Char) : run mode ⟨.record acc old false :: frames, .key⟩
        (utf8 (quoted k ++ ':' :: cs)) =
          run mode ⟨.record acc k false :: frames, .value⟩ (utf8 cs) := by
    rw [utf8_quoted_append]
    exact run_key hk (utf8 (':' :: cs))
  induction more generalizing k v acc old with
  | nil =>
    have hv := h (k, v) List.mem_cons_self (.record acc k false :: frames) ('\x7d' :: rest)
      (by rw [List.length_cons]; omega) (unembedded_record acc k false frames) (closes_brace v rest)
    rw [memberChars, hkey hk, hv, ← List.reverse_cons]
    rfl
  | cons m more ih =>
    obtain ⟨k', v'⟩ := m
    have hv := h (k, v) List.mem_cons_self (.record acc k false :: frames)
      (',' :: memberChars ((k', v') :: more) ('\x7d' :: rest))
      (by rw [List.length_cons]; omega) (unembedded_record acc k false frames) (closes_comma v _)
    have hrest := ih (k := k') (v := v') (fun u hu => h u (List.mem_cons_of_mem (k, v) hu))
      ((k, v) :: acc) k (fun h => nomatch h)
    rw [List.reverse_cons, List.append_assoc, List.singleton_append] at hrest
    rw [memberChars, hkey hk, hv, ← hrest]
    · rfl
    · simp

/-- A writable value is read back, whatever text follows. -/
theorem Writable.reads {v : Json} (h : v.Writable d) : Reads mode d v := by
  induction h with
  | null d => exact .null
  | bool d b => exact .bool b
  | nat d hn => exact .nat hn
  | str d s => exact .str s
  | @arr d items h ih =>
    intro frames rest hlen hopen _
    have hstart : step mode ⟨frames, .value⟩ '['.toUInt8 = .ok ⟨.list [] :: frames, .item⟩ :=
      openFrame_of_unembedded hopen (by omega) (.list []) .item
    rw [chars, Text.utf8_cons]
    show run mode _ ('['.toUInt8 :: utf8 (itemChars items (']' :: rest))) = _
    rw [run_cons_of_eq hstart]
    cases items with
    | nil => rfl
    | cons v more =>
      have hfirst : run mode ⟨.list [] :: frames, .item⟩
          (utf8 (itemChars (v :: more) (']' :: rest))) =
            run mode ⟨.list [] :: frames, .value⟩ (utf8 (itemChars (v :: more) (']' :: rest))) := by
        cases more with
        | nil => exact (h v List.mem_cons_self).run_item _ _
        | cons w more => exact (h v List.mem_cons_self).run_item _ _
      rw [hfirst, run_items hlen ih [] rest]
      rfl
  | @obj d members hk _ h ih =>
    intro frames rest hlen hopen _
    have hstart : step mode ⟨frames, .value⟩ '\x7b'.toUInt8 =
        .ok ⟨.record [] "" false :: frames, .member⟩ :=
      openFrame_of_unembedded hopen (by omega) (.record [] "" false) .member
    rw [chars, Text.utf8_cons]
    show run mode _ ('\x7b'.toUInt8 :: utf8 (memberChars members ('\x7d' :: rest))) = _
    rw [run_cons_of_eq hstart]
    cases members with
    | nil => rfl
    | cons m more =>
      obtain ⟨k, v⟩ := m
      -- only the key that comes first could announce embedded text
      have hk' : k ≠ embeddedKey := fun he => hk (by rw [he]; rfl)
      have hfirst : run mode ⟨.record [] "" false :: frames, .member⟩
          (utf8 (memberChars ((k, v) :: more) ('\x7d' :: rest))) =
            run mode ⟨.record [] "" false :: frames, .key⟩
              (utf8 (memberChars ((k, v) :: more) ('\x7d' :: rest))) := by
        cases more <;> rfl
      rw [hfirst, run_members hlen ih [] "" (fun _ => hk') rest]
      rfl

/-- A deeper bound holds as well. -/
theorem Writable.mono {v : Json} {e : Nat} (h : v.Writable d) (hle : d ≤ e) : v.Writable e := by
  induction h generalizing e with
  | null => exact .null e
  | bool _ b => exact .bool e b
  | nat _ hn => exact .nat e hn
  | str _ s => exact .str e s
  | arr _ ih =>
    obtain ⟨e, rfl⟩ : ∃ k, e = k + 1 := ⟨e - 1, by omega⟩
    exact .arr fun w hw => ih w hw (by omega)
  | obj hk hn _ ih =>
    obtain ⟨e, rfl⟩ : ∃ k, e = k + 1 := ⟨e - 1, by omega⟩
    exact .obj hk hn fun m hm => ih m hm (by omega)

theorem itemsDenote_of_forall {items : List Json} (h : ∀ v ∈ items, v.denotes = true) :
    itemsDenote items = true := by
  induction items with
  | nil => rfl
  | cons v rest ih =>
    rw [itemsDenote, h v List.mem_cons_self, ih fun w hw => h w (List.mem_cons_of_mem v hw)]
    rfl

theorem membersDenote_of_forall {members : List (String × Json)}
    (h : ∀ m ∈ members, m.2.denotes = true) : membersDenote members = true := by
  induction members with
  | nil => rfl
  | cons m rest ih =>
    rw [membersDenote, h m List.mem_cons_self, ih fun n hn => h n (List.mem_cons_of_mem m hn)]
    rfl

theorem depthOfItems_le {items : List Json} (h : ∀ v ∈ items, v.depth ≤ d) :
    depthOfItems items ≤ d := by
  induction items with
  | nil => exact Nat.zero_le d
  | cons v rest ih =>
    exact Nat.max_le.2 ⟨h v List.mem_cons_self, ih fun w hw => h w (List.mem_cons_of_mem v hw)⟩

theorem depthOfMembers_le {members : List (String × Json)} (h : ∀ m ∈ members, m.2.depth ≤ d) :
    depthOfMembers members ≤ d := by
  induction members with
  | nil => exact Nat.zero_le d
  | cons m rest ih =>
    exact Nat.max_le.2 ⟨h m List.mem_cons_self, ih fun n hn => h n (List.mem_cons_of_mem m hn)⟩

/-- A value that can be written denotes something, and is no deeper than its bound. -/
theorem Writable.denotes_and_depth_le {v : Json} (h : v.Writable d) :
    v.denotes = true ∧ v.depth ≤ d := by
  induction h with
  | null | bool | nat | str => exact ⟨rfl, Nat.zero_le _⟩
  | arr _ ih =>
    exact ⟨itemsDenote_of_forall fun v hv => (ih v hv).1,
      Nat.succ_le_succ (depthOfItems_le fun v hv => (ih v hv).2)⟩
  | obj _ _ _ ih =>
    exact ⟨membersDenote_of_forall fun m hm => (ih m hm).1,
      Nat.succ_le_succ (depthOfMembers_le fun m hm => (ih m hm).2)⟩

/-- A value that can be written is taken in where there is room for it. -/
theorem Writable.sound_of_le {v : Json} (h : v.Writable d) {above : Nat}
    (hle : d + above ≤ depthLimit) : v.sound above = true := by
  obtain ⟨hdenotes, hdepth⟩ := h.denotes_and_depth_le
  rw [sound, hdenotes, Bool.true_and, decide_eq_true_eq]
  omega

/-! ### Documents -/

/-- The text of a value that is not a number takes a reader to its end. -/
theorem run_render {v : Json} (h : v.Writable depthLimit) (hv : ∀ n, v ≠ .nat n) :
    run mode start v.render.toUTF8.toList = .ok ⟨[], .done v⟩ := by
  have hreads : Reads mode depthLimit v := h.reads
  have hread := hreads [] [] (Nat.le_refl _) unembedded_nil (fun n hn => absurd hn (hv n))
  rw [render, Text.toList_toUTF8_ofList, start, hread]
  rfl

/-- A value that is not a number is read back from its text. -/
theorem read_render {v : Json} (h : v.Writable depthLimit) (hv : ∀ n, v ≠ .nat n) :
    read mode v.render.toUTF8.toList = .ok v := by
  show run mode start _ >>= finish mode = _
  rw [run_render h hv]
  rfl

/-- A document is read back as a finite map sees it. -/
theorem readDocument_render {v : Json} (h : v.Writable depthLimit) (hv : ∀ n, v ≠ .nat n) :
    readDocument v.render.toUTF8.toList = .ok v.collapse := by
  have hread (n : Nat) : readEmbedding n v.render.toUTF8.toList = .ok v := by
    cases n <;> exact read_render h hv
  rw [readDocument, hread]
  rfl

end Json

end Perdure
