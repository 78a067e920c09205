import Perdure.Text.Digits

/-!
# Names of instances

An instance is named by 128 bits.  They are written as five groups of hexadecimal digits with
hyphens between them, and also read without hyphens, in braces or as a resource name.

## Main definitions

* `InstanceId` — the name of an instance.
* `InstanceId.text` — the written form.
* `InstanceId.ofText?` — the name that a text denotes.
-/

namespace Perdure

/-- The name of an instance. -/
abbrev InstanceId := BitVec 128

namespace InstanceId

open Std

/-! Names are in the order of their bits. -/

instance : TransOrd InstanceId := inferInstance

instance : LawfulEqOrd InstanceId := inferInstance

/-- The 32 hexadecimal digits of a name. -/
def digits (id : InstanceId) : List Char :=
  let ds := Nat.toDigits 16 id.toNat
  List.replicate (32 - ds.length) '0' ++ ds

/-- Cut a list into pieces of the given lengths and a rest, with hyphens between them. -/
def hyphenated : List Nat → List Char → List Char
  | [], cs => cs
  | n :: lengths, cs => cs.take n ++ '-' :: hyphenated lengths (cs.drop n)

/-- The lengths of the groups before a hyphen. -/
def groups : List Nat := [8, 4, 4, 4]

/-- The written form. -/
def text (id : InstanceId) : String := String.ofList (hyphenated groups id.digits)

/-- Take out the hyphens that stand where groups end. -/
def unhyphenated? : List Nat → List Char → Option (List Char)
  | [], cs => some cs
  | n :: lengths, cs => match cs.drop n with
    | '-' :: rest => (unhyphenated? lengths rest).map (cs.take n ++ ·)
    | _ => none

/-- The name that 32 hexadecimal digits of either case denote. -/
def ofDigits? (cs : List Char) : Option InstanceId := do
  if cs.length ≠ 32 then none
  let ds ← cs.mapM Text.hexDigit?
  pure (BitVec.ofNat 128 (ds.foldl (fun n d => 16 * n + d) 0))

/-- The name that groups of digits denote. -/
def ofGroups? (cs : List Char) : Option InstanceId := do ofDigits? (← unhyphenated? groups cs)

/-- What a resource name begins with, in letters of either case. -/
def resource : String := "urn:uuid:"

/-- The name that a text denotes. -/
def ofText? (s : String) : Option InstanceId :=
  let (lead, rest) := s.toList.splitAt resource.length
  if lead.map Char.toLower = resource.toList then ofGroups? rest
  else match s.toList with
    | '\x7b' :: rest => if rest.getLast? = some '\x7d' then ofGroups? rest.dropLast else none
    | cs => if cs.length = 32 then ofDigits? cs else ofGroups? cs

end InstanceId

end Perdure
