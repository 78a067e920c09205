import Perdure.Proofs.Failure
import Perdure.Proofs.Json.Reader

/-!
# Text that ends too early

A reader tells text that merely ends too early from text that no continuation could mend.  For text
that was written, every beginning is of the first kind.  Seen from the front this would need a look
at every place where a text can be cut.  Seen from the back it does not: whatever a reader holds on
its way through a written text ends up in the value that was written, so it is sound as that is.

## Main definitions

* `Json.Reader.State.Amid` — all that a reader holds can be written.

## Main results

* `Json.Reader.amid_of_run` — who comes from a state to the end of a written text holds only what
  can be written.
* `Json.readDocument_of_prefix` — the beginning of a written text ends too early.
-/

namespace Perdure

namespace Json

open Reader
open Text (utf8)

/-! ### The end of a text -/

/-- What follows a value comes last in its text. -/
theorem suffix_itemChars {items : List Json} (h : ∀ v ∈ items, ∀ rest, rest <:+ v.chars rest)
    (rest : List Char) : rest <:+ itemChars items rest := by
  induction items with
  | nil => exact List.suffix_refl rest
  | cons v more ih =>
    have hmore := ih fun w hw => h w (List.mem_cons_of_mem v hw)
    cases more with
    | nil => exact h v List.mem_cons_self rest
    | cons w more =>
      have hv := h v List.mem_cons_self (',' :: itemChars (w :: more) rest)
      rw [itemChars]
      · exact (hmore.trans (List.suffix_cons ',' _)).trans hv
      · exact List.cons_ne_nil w more

theorem suffix_memberChars {members : List (String × Json)}
    (h : ∀ m ∈ members, ∀ rest, rest <:+ m.2.chars rest) (rest : List Char) :
    rest <:+ memberChars members rest := by
  have hkey (k : String) (cs : List Char) : cs <:+ quoted k ++ ':' :: cs :=
    (List.suffix_cons ':' cs).trans (List.suffix_append _ _)
  induction members with
  | nil => exact List.suffix_refl rest
  | cons m more ih =>
    obtain ⟨k, v⟩ := m
    have hmore := ih fun w hw => h w (List.mem_cons_of_mem (k, v) hw)
    cases more with
    | nil => exact (h (k, v) List.mem_cons_self rest).trans (hkey k _)
    | cons w more =>
      have hv := h (k, v) List.mem_cons_self (',' :: memberChars (w :: more) rest)
      rw [memberChars]
      · exact ((hmore.trans (List.suffix_cons ',' _)).trans hv).trans (hkey k _)
      · exact List.cons_ne_nil w more

theorem suffix_chars (v : Json) (rest : List Char) : rest <:+ v.chars rest := by
  induction v using Json.induction generalizing rest with
  | null | nat | number | str | undenoted => exact List.suffix_append _ _
  | bool b => cases b <;> exact List.suffix_append _ _
  | arr items ih =>
    exact ((List.suffix_cons ']' rest).trans (suffix_itemChars ih _)).trans (List.suffix_cons '[' _)
  | obj members ih =>
    exact ((List.suffix_cons '\x7d' rest).trans (suffix_memberChars ih _)).trans
      (List.suffix_cons '\x7b' _)

/-- The text of an object ends with its bracket. -/
theorem exists_render_eq (members : List (String × Json)) :
    ∃ bytes, (render (.obj members)).toUTF8.toList = bytes ++ ['\x7d'.toUInt8] := by
  have hsuffix : ['\x7d'] <:+ memberChars members ['\x7d'] :=
    suffix_memberChars (fun m _ => suffix_chars m.2) _
  obtain ⟨cs, hcs⟩ := hsuffix
  refine ⟨utf8 ('\x7b' :: cs), ?_⟩
  rw [render, Text.toList_toUTF8_ofList, chars, ← hcs, ← List.cons_append, Text.utf8_append]
  rfl

namespace Reader

/-! ### Numbers -/

/-- Digit bytes are the bytes of digits. -/
theorem exists_digits {bytes : List UInt8} (h : bytes.all isDigit = true) :
    ∃ cs : List Char, cs.map Char.toUInt8 = bytes ∧ cs.all Char.isDigit = true := by
  induction bytes with
  | nil => exact ⟨[], rfl, rfl⟩
  | cons b bs ih =>
    rw [List.all_cons, Bool.and_eq_true] at h
    obtain ⟨cs, hmap, hall⟩ := ih h.2
    obtain ⟨d, hd, rfl⟩ := exists_of_isDigit h.1
    refine ⟨Char.ofNat (48 + d) :: cs, ?_, ?_⟩
    · rw [List.map_cons, hmap]
      interval_cases d <;> rfl
    · rw [List.all_cons, hall, Bool.and_true]
      interval_cases d <;> rfl

/-- Digits that make a word are read as the word. -/
theorem numberValue_of_digits {bytes : List UInt8} (hd : bytes.all isDigit = true)
    (hv : digitsValue bytes < 2 ^ 64) : numberValue bytes.reverse = .nat (digitsValue bytes) := by
  obtain ⟨cs, rfl, hcs⟩ := exists_digits hd
  rw [digitsValue_map hcs] at hv
  have hm := magnitude_map hcs hv
  rw [numberValue, List.reverse_reverse, hm, Magnitude.isFinite_word hv, hd]
  rfl

/-- A literal that denotes a natural number has digits only. -/
theorem digits_of_numberValue {bytes : List UInt8} {n : Nat} (h : numberValue bytes = .nat n) :
    bytes.reverse.all isDigit = true ∧ digitsValue bytes.reverse = n := by
  unfold numberValue at h
  dsimp only at h
  split at h
  · cases h
  · split at h
    · next hd =>
      cases h
      exact ⟨hd, rfl⟩
    · cases h

/-- A literal that is a word was one before its last digit. -/
theorem exists_numberValue_tail {b : UInt8} {bytes : List UInt8} {n : Nat}
    (h : numberValue (b :: bytes) = .nat n) (hn : n < 2 ^ 64) :
    ∃ m < 2 ^ 64, numberValue bytes = .nat m := by
  obtain ⟨hd, hv⟩ := digits_of_numberValue h
  rw [List.reverse_cons, List.all_append, Bool.and_eq_true] at hd
  have hle : digitsValue bytes.reverse ≤ digitsValue (b :: bytes).reverse := by
    rw [List.reverse_cons, digitsValue, digitsValue, List.foldl_append, List.foldl_cons,
      List.foldl_nil]
    split <;> omega
  have hlt : digitsValue bytes.reverse < 2 ^ 64 := by omega
  have hnat := numberValue_of_digits hd.1 hlt
  rw [List.reverse_reverse] at hnat
  exact ⟨_, hlt, hnat⟩

/-- What a literal can denote. -/
theorem numberValue_cases (bytes : List UInt8) : numberValue bytes = .undenoted ∨
    (∃ n, numberValue bytes = .nat n) ∨ ∃ literal, numberValue bytes = .number literal := by
  unfold numberValue
  dsimp only
  split
  · exact .inl rfl
  · split
    · exact .inr (.inl ⟨_, rfl⟩)
    · exact .inr (.inr ⟨_, rfl⟩)

/-! ### What a reader holds -/

/-- The values that an open list or object holds. -/
def Frame.values : Frame → List Json
  | .list items => items
  | .record members _ _ => members.map Prod.snd
  | .embedding _ => []

/-- All values that the open lists and objects hold can be written. -/
def Held (frames : List Frame) : Prop := ∀ f ∈ frames, ∀ v ∈ f.values, ∃ d, v.Writable d

/-- A reader that is on its way through the text of an object that was written. -/
structure State.Amid (s : State) : Prop where
  held : Held s.frames
  /-- A number is an item or a member, and a word as far as it was read. -/
  number : ∀ part bytes, s.spot = .number part bytes →
    (s.frames ≠ [] ∧ Unembedded s.frames) ∧ ∃ n < 2 ^ 64, numberValue bytes = .nat n
  done : ∀ v, s.spot = .done v → (∃ members, v = .obj members) ∧ ∃ d, v.Writable d

variable {mode : Mode} {frames : List Frame} {s t : State}

theorem Held.tail {f : Frame} (h : Held (f :: frames)) : Held frames :=
  fun g hg => h g (List.mem_cons_of_mem f hg)

theorem Held.cons {f : Frame} (hf : ∀ v ∈ f.values, ∃ d, v.Writable d) (h : Held frames) :
    Held (f :: frames) := by
  intro g hg
  rcases List.mem_cons.1 hg with rfl | hg
  · exact hf
  · exact h g hg

/-- A value that is completed on the way can be written; only an object stands alone. -/
theorem held_of_complete {v : Json} (h : complete mode frames v = .ok t) (ht : t.Amid) :
    Held frames ∧ (∃ d, v.Writable d) ∧ (frames = [] → ∃ members, v = .obj members) := by
  unfold complete at h
  split at h
  · cases h
    obtain ⟨hobj, hw⟩ := ht.done v rfl
    exact ⟨nofun, hw, fun _ => hobj⟩
  · next items rest =>
    cases h
    have hvalues := ht.held _ List.mem_cons_self
    refine ⟨ht.held.tail.cons ?_, hvalues v List.mem_cons_self, nofun⟩
    exact fun w hw => hvalues w (List.mem_cons_of_mem v hw)
  · next members key broken rest =>
    cases h
    have hvalues := ht.held _ List.mem_cons_self
    refine ⟨ht.held.tail.cons ?_, hvalues v List.mem_cons_self, nofun⟩
    exact fun w hw => hvalues w (List.mem_cons_of_mem v hw)
  · next old rest =>
    split at h
    · next hv =>
      cases h
      -- only a string stands for embedded text
      cases v with
      | str s => exact ⟨ht.held.tail.cons nofun, ⟨0, .str 0 s⟩, nofun⟩
      | _ => cases hv
    · cases h

theorem held_of_closeWith {b : UInt8} (h : closeWith mode frames b = .ok t) (ht : t.Amid) :
    Held frames := by
  unfold closeWith at h
  split at h
  · next items rest =>
    split at h
    · obtain ⟨hrest, ⟨d, hw⟩, -⟩ := held_of_complete h ht
      cases hw with
      | arr hitems => exact hrest.cons fun v hv => ⟨_, hitems v (List.mem_reverse.2 hv)⟩
    · cases h
  · next members key broken rest =>
    split at h
    · obtain ⟨hrest, ⟨d, hw⟩, -⟩ := held_of_complete h ht
      cases broken with
      | true => cases hw
      | false =>
        cases hw with
        | obj _ _ hmembers =>
          refine hrest.cons ?_
          intro v hv
          obtain ⟨m, hm, rfl⟩ := List.mem_map.1 hv
          exact ⟨_, hmembers m (List.mem_reverse.2 hm)⟩
    · cases h
  · split at h
    · obtain ⟨hrest, -, -⟩ := held_of_complete h ht
      exact hrest.cons nofun
    · cases h
  · cases h

theorem held_of_openFrame {frame : Frame} {spot : Spot}
    (h : openFrame mode frames frame spot = .ok t) (ht : t.Amid) : Held frames := by
  unfold openFrame at h
  split at h
  · cases h
  · split at h
    · cases h
    · cases h
      exact ht.held.tail

theorem held_of_beginValue {b : UInt8} (h : beginValue mode frames b = .ok t) (ht : t.Amid) :
    Held frames := by
  unfold beginValue at h
  split_ifs at h
  all_goals first
    | exact held_of_openFrame h ht
    | (cases h; exact ht.held)

theorem held_of_completeKey {s : String} {broken : Bool}
    (h : completeKey mode frames s broken = .ok t) (ht : t.Amid) : Held frames := by
  unfold completeKey at h
  split at h
  · next members key wasBroken rest =>
    split at h
    · next hk =>
      cases h
      rw [Bool.and_eq_true, Bool.and_eq_true, List.isEmpty_iff] at hk
      obtain ⟨⟨-, rfl⟩, -⟩ := hk
      exact ht.held.tail.cons nofun
    · cases h
      have hvalues := ht.held _ List.mem_cons_self
      exact ht.held.tail.cons hvalues
  · cases h

theorem held_of_completeText {isKey broken : Bool} {bytes : List UInt8}
    (h : completeText mode frames isKey bytes broken = .ok t) (ht : t.Amid) : Held frames := by
  unfold completeText at h
  split at h
  · cases h
  · split at h
    · exact held_of_completeKey h ht
    · exact (held_of_complete h ht).1

theorem held_of_textStep {isKey broken : Bool} {bytes : List UInt8} {escape : Escape} {b : UInt8}
    (h : textStep mode frames isKey bytes broken escape b = .ok t) (ht : t.Amid) :
    Held frames := by
  -- within a string nothing changes but the place
  have hinside {isKey broken : Bool} {bytes : List UInt8} {escape : Escape}
      (h : .ok ⟨frames, .text isKey bytes broken escape⟩ = (.ok t : Except ReadError State)) :
      Held frames := by
    cases h
    exact ht.held
  cases escape with
  | none =>
    simp only [textStep] at h
    split_ifs at h
    · exact held_of_completeText h ht
    · exact hinside h
    · exact hinside h
  | begun =>
    simp only [textStep] at h
    split_ifs at h
    · exact hinside h
    · split at h
      · exact hinside h
      · cases h
  | hex digits lead =>
    simp only [textStep] at h
    split_ifs at h
    · exact hinside h
    · split at h
      · cases h
      · obtain ⟨_, -, h⟩ := exists_of_bind_eq_ok h
        exact hinside h
  | lead n =>
    simp only [textStep] at h
    split_ifs at h
    · exact hinside h
    · exact held_of_completeText h ht
    · exact hinside h
  | leadBegun n =>
    simp only [textStep] at h
    split_ifs at h
    · exact hinside h
    · split at h
      · exact hinside h
      · cases h

theorem held_of_afterStep {b : UInt8} (h : afterStep mode frames b = .ok t) (ht : t.Amid) :
    Held frames := by
  unfold afterStep at h
  split_ifs at h
  · cases h
    exact ht.held
  · split at h
    · cases h
      exact ht.held
    · cases h
      exact ht.held
    · cases h
  · exact held_of_closeWith h ht

/-- Whatever is held after a byte outside numbers was held before. -/
theorem held_of_plainStep {b : UInt8} (h : plainStep mode s b = .ok t) (ht : t.Amid) :
    Held s.frames := by
  obtain ⟨frames, spot⟩ := s
  have hstay {spot : Spot} (h : .ok ⟨frames, spot⟩ = (.ok t : Except ReadError State)) :
      Held frames := by
    cases h
    exact ht.held
  cases spot with
  | value =>
    simp only [plainStep] at h
    split_ifs at h
    · exact hstay h
    · exact held_of_beginValue h ht
  | item =>
    simp only [plainStep] at h
    split_ifs at h
    · exact hstay h
    · exact held_of_closeWith h ht
    · exact held_of_beginValue h ht
  | member =>
    simp only [plainStep] at h
    split_ifs at h
    · exact hstay h
    · exact held_of_closeWith h ht
    · exact hstay h
  | key | colon | done =>
    simp only [plainStep] at h
    split_ifs at h
    all_goals exact hstay h
  | after => exact held_of_afterStep h ht
  | word left v =>
    simp only [plainStep] at h
    split at h
    · cases h
    · split_ifs at h
      · exact (held_of_complete h ht).1
      · exact hstay h
  | number => cases h
  | text isKey bytes broken escape => exact held_of_textStep h ht

theorem amid_of_plainStep {b : UInt8} (h : plainStep mode s b = .ok t) (ht : t.Amid) : s.Amid where
  held := held_of_plainStep h ht
  number part bytes hs := by
    unfold plainStep at h
    rw [hs] at h
    cases h
  done v hs := by
    unfold plainStep at h
    rw [hs] at h
    dsimp only at h
    split_ifs at h
    cases h
    exact ht.done v hs

/-- A number that is completed on the way is a word, and an item or a member. -/
theorem number_of_endNumber {bytes : List UInt8} (h : endNumber mode frames bytes = .ok t)
    (ht : t.Amid) : Held frames ∧ (frames ≠ [] ∧ Unembedded frames) ∧
      ∃ n < 2 ^ 64, numberValue bytes = .nat n := by
  have hcomplete : complete mode frames (numberValue bytes) = .ok t := by
    unfold endNumber at h
    split at h
    · next hv =>
      rw [hv]
      split_ifs at h
      exact h
    · exact h
  obtain ⟨hheld, ⟨d, hw⟩, halone⟩ := held_of_complete hcomplete ht
  -- of what a literal can denote, only a word can be written
  obtain ⟨n, hn, hv⟩ : ∃ n < 2 ^ 64, numberValue bytes = .nat n := by
    rcases numberValue_cases bytes with hv | ⟨n, hv⟩ | ⟨literal, hv⟩
    · rw [hv] at hw
      cases hw
    · rw [hv] at hw
      cases hw with
      | nat _ hn => exact ⟨n, hn, hv⟩
    · rw [hv] at hw
      cases hw
  rw [hv] at hcomplete halone
  refine ⟨hheld, ⟨?_, ?_⟩, n, hn, hv⟩
  · rintro rfl
    obtain ⟨members, hobj⟩ := halone rfl
    cases hobj
  · rintro v rest rfl
    cases hcomplete

/-- Who is on the way through a written text after a byte was so before. -/
theorem amid_of_step {b : UInt8} (h : step mode s b = .ok t) (ht : t.Amid) : s.Amid := by
  obtain ⟨frames, spot⟩ := s
  cases spot with
  | number part bytes =>
    rw [step_number] at h
    split at h
    · cases h
    · next next _ =>
      cases h
      obtain ⟨hframes, n, hn, hv⟩ := ht.number _ _ rfl
      refine { held := ht.held, number := ?_, done := nofun }
      rintro _ _ ⟨⟩
      exact ⟨hframes, exists_numberValue_tail hv hn⟩
    · obtain ⟨middle, hend, h⟩ := exists_of_bind_eq_ok h
      obtain ⟨hheld, hnumber⟩ := number_of_endNumber hend (amid_of_plainStep h ht)
      refine { held := hheld, number := ?_, done := nofun }
      rintro _ _ ⟨⟩
      exact hnumber
  | value | item | member | key | colon | after | word | text | done =>
    refine amid_of_plainStep (?_ : plainStep mode _ b = .ok t) ht
    exact h

/-- Who is on the way through a written text after some bytes was so before. -/
theorem amid_of_run {bytes : List UInt8} (h : run mode s bytes = .ok t) (ht : t.Amid) : s.Amid := by
  induction bytes generalizing s with
  | nil =>
    cases h
    exact ht
  | cons b bs ih =>
    rw [run_cons] at h
    obtain ⟨middle, hstep, h⟩ := exists_of_bind_eq_ok h
    exact amid_of_step hstep (ih h)

/-! ### The end -/

/-- After the end of a value there are only blanks. -/
theorem isSpace_of_run_done {v : Json} (hs : s.spot = .done v) {bytes : List UInt8}
    (h : run mode s bytes = .ok t) : ∀ b ∈ bytes, isSpace b = true := by
  obtain ⟨frames, spot⟩ := s
  cases hs
  induction bytes with
  | nil => exact nofun
  | cons b bs ih =>
    rw [run_cons] at h
    obtain ⟨middle, hstep, h⟩ := exists_of_bind_eq_ok h
    have hb : (if isSpace b then .ok ⟨frames, .done v⟩ else .error .malformed) =
      (.ok middle : Except ReadError State) := hstep
    split_ifs at hb with hspace
    cases hb
    intro c hc
    rcases List.mem_cons.1 hc with rfl | hc
    · exact hspace
    · exact ih h c hc

/-- Text that stops on the way through a written text ends too early. -/
theorem finish_of_amid (h : s.Amid) (hs : ∀ v, s.spot ≠ .done v) :
    finish mode s = .error .early := by
  obtain ⟨frames, spot⟩ := s
  cases spot with
  | done v => exact absurd rfl (hs v)
  | number part bytes =>
    obtain ⟨⟨hne, hopen⟩, n, -, hv⟩ := h.number part bytes rfl
    unfold finish
    dsimp only
    split
    · rfl
    · rw [endNumber, hv]
      cases frames with
      | nil => exact absurd rfl hne
      | cons f rest =>
        cases f with
        | list | record => rfl
        | embedding v => exact absurd rfl (hopen v rest)
  | value | item | member | key | colon | after | word | text => rfl

end Reader

/-- **The beginning of a written text ends too early.** -/
theorem readDocument_of_prefix {members : List (String × Json)}
    (h : (Json.obj members).Writable depthLimit) {bytes : List UInt8}
    (hp : bytes <+: (render (.obj members)).toUTF8.toList)
    (hne : bytes ≠ (render (.obj members)).toUTF8.toList) :
    readDocument bytes = .error .early := by
  obtain ⟨rest, hrest⟩ := hp
  have hread (mode : Mode) : read mode bytes = .error .early := by
    have hrun : run mode start (bytes ++ rest) = .ok ⟨[], .done (.obj members)⟩ := by
      rw [hrest]
      exact run_render h fun _ => nofun
    rw [run_append] at hrun
    obtain ⟨s, hbegin, hrun⟩ := exists_of_bind_eq_ok hrun
    have hamid : s.Amid := by
      refine amid_of_run hrun { held := nofun, number := nofun, done := ?_ }
      rintro _ ⟨⟩
      exact ⟨⟨members, rfl⟩, _, h⟩
    have hopen (v : Json) : s.spot ≠ .done v := by
      intro hs
      have hspaces := isSpace_of_run_done hs hrun
      obtain ⟨first, hlast⟩ := exists_render_eq members
      rw [hlast] at hrest
      rcases List.eq_nil_or_concat rest with rfl | ⟨more, b, rfl⟩
      · rw [List.append_nil] at hrest
        exact hne (hrest.trans hlast.symm)
      · rw [List.concat_eq_append, ← List.append_assoc] at hrest
        obtain ⟨-, hb⟩ := List.append_inj' hrest rfl
        rw [List.cons.injEq] at hb
        have hspace := hspaces b (by simp)
        rw [hb.1] at hspace
        exact absurd hspace (by decide)
    show run mode start bytes >>= finish mode = _
    rw [hbegin]
    exact finish_of_amid hamid hopen
  have hembedding (depth : Nat) : readEmbedding depth bytes = .error .early := by
    cases depth <;> exact hread _
  rw [readDocument, hembedding]
  rfl

end Json

end Perdure
