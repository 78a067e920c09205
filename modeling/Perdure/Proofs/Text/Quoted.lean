import Perdure.Instance.Requests
import Perdure.Proofs.Text.Hexadecimal

/-!
# Quoted text is read in one way only

A character inside quoted text takes one of three forms: a backslash and a letter, a backslash and
its number in braces, or the character itself.  The first characters of a form tell which of the
three it is, and each form says where it ends, so the text is taken apart from its beginning in one
way only.  A quote that stands alone is no form of a character: it is the end of the text, whatever
follows it.  This is why a separator between quoted texts needs no care of its own, and may occur
inside of them.

Nothing here depends on which characters lack a glyph.

## Main definitions

* `Text.Form` — the forms of a character inside quoted text.

## Main results

* `Text.Form.append_inj` — the form at the beginning of a text names one character.
* `Text.quoted_append_inj` — a quoted text ends where it ends, whatever follows it.
* `RequestKey.text_eq_iff` — conversations with one text are one conversation.
-/

namespace Perdure

namespace Text

/-! ### Forms of a character -/

/-- The character that a letter after a backslash stands for. -/
def unescaped (letter : Char) : Char :=
  if letter = 'n' then '\n'
  else if letter = 'r' then '\r'
  else if letter = 't' then '\t'
  else if letter = '0' then '\x00'
  else letter

/-- The forms that a character may take inside quoted text. -/
inductive Form (c : Char) : List Char → Prop
  | letter {e : Char} (he : e ≠ 'u') (hc : unescaped e = c) : Form c ['\\', e]
  | number : Form c ('\\' :: 'u' :: '\x7b' :: Nat.toDigits 16 c.toNat ++ ['\x7d'])
  | itself (hb : c ≠ '\\') (hq : c ≠ '"') : Form c [c]

/-- Every character is written in one of the forms. -/
theorem form_quotedChar (c : Char) : Form c (quotedChar c) := by
  unfold quotedChar
  split
  · next h => exact .letter (by decide) h.symm
  split
  · next h => exact .letter (by decide) h.symm
  split
  · next h => exact .letter (by decide) h.symm
  split
  · next h => exact .letter (by decide) h.symm
  split
  · next h => exact .letter (by decide) h.symm
  split
  · next h => exact .letter (by decide) (Char.toNat_inj.1 h.symm)
  split
  · exact .number
  · next hq hb _ _ _ _ _ => exact .itself hb hq

/-- A form at the beginning of a text names one character, and tells where the rest begins. -/
theorem Form.append_inj {c d : Char} {x y r r' : List Char} (hx : Form c x) (hy : Form d y)
    (h : x ++ r = y ++ r') : c = d ∧ r = r' := by
  cases hx with
  | letter he hc =>
    cases hy with
    | letter _ hd =>
      obtain ⟨rfl, rfl⟩ := List.cons.inj (List.cons.inj h).2
      exact ⟨hc.symm.trans hd, rfl⟩
    | number => exact absurd (List.cons.inj (List.cons.inj h).2).1 he
    | itself hb => exact absurd (List.cons.inj h).1.symm hb
  | number =>
    cases hy with
    | letter he => exact absurd (List.cons.inj (List.cons.inj h).2).1.symm he
    | number =>
      have hdigits : Nat.toDigits 16 c.toNat ++ '\x7d' :: r =
          Nat.toDigits 16 d.toNat ++ '\x7d' :: r' := by simpa using h
      obtain ⟨hnumber, hrest⟩ := toDigits_sixteen_append_inj hdigits
      exact ⟨Char.toNat_inj.1 hnumber, hrest⟩
    | itself hb => exact absurd (List.cons.inj h).1.symm hb
  | itself hb =>
    cases hy with
    | letter => exact absurd (List.cons.inj h).1 hb
    | number => exact absurd (List.cons.inj h).1 hb
    | itself => exact List.cons.inj h

/-- No form of a character begins with a quote. -/
theorem Form.ne_quote {c : Char} {x r r' : List Char} (hx : Form c x) : x ++ r ≠ '"' :: r' := by
  intro h
  cases hx with
  | letter => exact absurd (List.cons.inj h).1 (by decide)
  | number => exact absurd (List.cons.inj h).1 (by decide)
  | itself _ hq => exact hq (List.cons.inj h).1

/-! ### Whole texts -/

/-- Characters in their forms, up to the quote that ends them. -/
theorem flatMap_quotedChar_append_inj {cs ds r r' : List Char}
    (h : cs.flatMap quotedChar ++ '"' :: r = ds.flatMap quotedChar ++ '"' :: r') :
    cs = ds ∧ r = r' := by
  induction cs generalizing ds with
  | nil =>
    cases ds with
    | nil => exact ⟨rfl, (List.cons.inj h).2⟩
    | cons d ds =>
      rw [List.flatMap_cons, List.append_assoc] at h
      exact absurd h.symm (form_quotedChar d).ne_quote
  | cons c cs ih =>
    rw [List.flatMap_cons, List.append_assoc] at h
    cases ds with
    | nil => exact absurd h (form_quotedChar c).ne_quote
    | cons d ds =>
      rw [List.flatMap_cons, List.append_assoc] at h
      obtain ⟨rfl, hafter⟩ := (form_quotedChar c).append_inj (form_quotedChar d) h
      obtain ⟨rfl, hrest⟩ := ih hafter
      exact ⟨rfl, hrest⟩

theorem toList_quoted_append (s : String) (r : List Char) :
    (quoted s).toList ++ r = '"' :: (s.toList.flatMap quotedChar ++ '"' :: r) := by
  rw [quoted, String.toList_ofList, List.append_assoc]
  rfl

/-- A quoted text at the beginning of another text is told from what follows it. -/
theorem quoted_append_inj {s t : String} {r r' : List Char}
    (h : (quoted s).toList ++ r = (quoted t).toList ++ r') : s = t ∧ r = r' := by
  rw [toList_quoted_append, toList_quoted_append] at h
  obtain ⟨hchars, hrest⟩ := flatMap_quotedChar_append_inj (List.cons.inj h).2
  exact ⟨String.toList_inj.1 hchars, hrest⟩

end Text

namespace RequestKey

/-! ### The text of a conversation -/

/-- What the text of a conversation says of its correlation key. -/
def correlationChars : Option String → List Char
  | none => []
  | some c => '/' :: (Text.quoted c).toList

theorem toList_text (k : RequestKey) :
    k.text.toList = (Text.quoted k.partnerLink).toList ++
      '/' :: ((Text.quoted k.operation).toList ++ correlationChars k.correlationKey) := by
  obtain ⟨partnerLink, operation, correlationKey⟩ := k
  cases correlationKey <;> simp [text, correlationChars]

theorem correlationChars_inj {c d : Option String} (h : correlationChars c = correlationChars d) :
    c = d := by
  cases c with
  | none =>
    cases d with
    | none => rfl
    | some d => cases h
  | some c =>
    cases d with
    | none => cases h
    | some d =>
      have hquoted : (Text.quoted c).toList ++ [] = (Text.quoted d).toList ++ [] := by
        rw [List.append_nil, List.append_nil]
        exact (List.cons.inj h).2
      rw [(Text.quoted_append_inj hquoted).1]

/-- **The text of a conversation names it.**  Two conversations have one text only if they agree on
the partner link, the operation, and on the correlation key or its absence, whatever characters
these are made of. -/
theorem text_eq_iff (k l : RequestKey) : k.text = l.text ↔ k = l := by
  constructor
  · intro h
    have hchars := congrArg String.toList h
    rw [toList_text, toList_text] at hchars
    obtain ⟨hpartner, hchars⟩ := Text.quoted_append_inj hchars
    obtain ⟨hoperation, hchars⟩ := Text.quoted_append_inj (List.cons.inj hchars).2
    have hcorrelation := correlationChars_inj hchars
    obtain ⟨partnerLink, operation, correlationKey⟩ := k
    cases hpartner
    cases hoperation
    cases hcorrelation
    rfl
  · rintro rfl
    rfl

/-- A slash and a quote inside a part are told from those around it. -/
example : (⟨"a/b", "c\"", some ""⟩ : RequestKey).text = "\"a/b\"/\"c\\\"\"/\"\"" := by
  decide +kernel

end RequestKey

end Perdure
