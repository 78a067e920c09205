import Perdure.Text.Digits
import Perdure.Text.Unprintable

/-!
# Quoted text

Text in quotes for people to read: quotes, backslashes and the common controls are escaped by a
letter, characters without a glyph by their number, and nothing else is.  Every character is
written by itself, so different texts have different quoted forms.

## Main definitions

* `Text.quotedChar` — one character.
* `Text.quoted` — a whole text.
-/

namespace Perdure

namespace Text

/-- A character inside quoted text. -/
def quotedChar (c : Char) : List Char :=
  if c = '"' then ['\\', '"']
  else if c = '\\' then ['\\', '\\']
  else if c = '\n' then ['\\', 'n']
  else if c = '\r' then ['\\', 'r']
  else if c = '\t' then ['\\', 't']
  else if c.toNat = 0 then ['\\', '0']
  else if isUnprintable c then '\\' :: 'u' :: '\x7b' :: Nat.toDigits 16 c.toNat ++ ['\x7d']
  else [c]

/-- Text in quotes. -/
def quoted (s : String) : String := String.ofList ('"' :: s.toList.flatMap quotedChar ++ ['"'])

end Text

end Perdure
