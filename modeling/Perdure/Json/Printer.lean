import Perdure.Json.Basic
import Perdure.Text.Digits

/-!
# JSON as text

The compact written form: no blanks, members in the order they stand in.  A string escapes the
quote, the backslash and the control characters below U+0020, and nothing else.
-/

namespace Perdure

namespace Json

/-- A character inside a written string. -/
def escaped (c : Char) : List Char :=
  if c = '"' then ['\\', '"']
  else if c = '\\' then ['\\', '\\']
  else if c.toNat = 8 then ['\\', 'b']
  else if c.toNat = 9 then ['\\', 't']
  else if c.toNat = 10 then ['\\', 'n']
  else if c.toNat = 12 then ['\\', 'f']
  else if c.toNat = 13 then ['\\', 'r']
  else if c.toNat < 32 then
    ['\\', 'u', '0', '0', Nat.digitChar (c.toNat / 16), Nat.digitChar (c.toNat % 16)]
  else [c]

/-- A string in quotes. -/
def quoted (s : String) : List Char := '"' :: s.toList.flatMap escaped ++ ['"']

mutual

/-- The characters of a written value, before those that follow it. -/
def chars : Json → List Char → List Char
  | .null, rest => "null".toList ++ rest
  | .bool true, rest => "true".toList ++ rest
  | .bool false, rest => "false".toList ++ rest
  | .nat n, rest => Nat.toDigits 10 n ++ rest
  | .number literal, rest => literal.toList ++ rest
  | .str s, rest => quoted s ++ rest
  | .arr items, rest => '[' :: itemChars items (']' :: rest)
  | .obj members, rest => '\x7b' :: memberChars members ('\x7d' :: rest)
  | .undenoted, rest => "null".toList ++ rest

/-- Items with commas between them. -/
def itemChars : List Json → List Char → List Char
  | [], rest => rest
  | [v], rest => v.chars rest
  | v :: more, rest => v.chars (',' :: itemChars more rest)

/-- Members with commas between them. -/
def memberChars : List (String × Json) → List Char → List Char
  | [], rest => rest
  | [(k, v)], rest => quoted k ++ ':' :: v.chars rest
  | (k, v) :: more, rest => quoted k ++ ':' :: v.chars (',' :: memberChars more rest)

end

/-- The compact written form of a value. -/
def render (v : Json) : String := String.ofList (v.chars [])

end Json

end Perdure
