import Perdure.Instance.Json
import Perdure.RemapTable

/-!
# Checkpoints

The stored form of a soup: six letters, a format version of two bytes, and the soup as JSON.
Reading tells a checkpoint that was cut short from one that was never a checkpoint, and resolves
renamed shapes before it looks at them.

## Main definitions

* `Checkpoint.write` — the bytes of a soup.
* `Checkpoint.read` — the soup of stored bytes.
* `CorruptState` — why stored bytes hold no soup.
-/

namespace Perdure

/-- Why stored bytes hold no soup. -/
inductive CorruptState where
  /-- The bytes end too early. -/
  | truncated (length : Nat)
  /-- The bytes do not begin as a checkpoint does. -/
  | badMagic
  /-- The format is newer than what can be read. -/
  | unsupportedVersion (found : Nat)
  /-- A shape whose replacements run in a circle. -/
  | unresolvedShape (shape : String)
  /-- The body is no soup. -/
  | malformed
deriving DecidableEq, Repr

/-- The wording of an unresolved shape. -/
def UnresolvedShape.message (e : UnresolvedShape) : String :=
  s!"shape '{e.shape}' cannot be resolved through the remap table"

namespace Checkpoint

/-- The first bytes of a checkpoint. -/
def magic : List UInt8 := "TWSOUP".toUTF8.toList

/-- The newest format that is read, and the one that is written. -/
def version : Nat := 1

/-- The bytes before the body of the given format version. -/
def header (version : Nat) : List UInt8 :=
  magic ++ [UInt8.ofNat (version / 256), UInt8.ofNat version]

/-- The JSON text of a soup. -/
def body (s : InstanceSoup) : String := (InstanceSoup.toJson s).render

/-- The bytes of a soup. -/
def write (s : InstanceSoup) : List UInt8 := header version ++ (body s).toUTF8.toList

/-- The document inside stored bytes. -/
def document (bytes : List UInt8) : Except CorruptState Json :=
  if bytes.length < magic.length + 2 then
    if bytes.take magic.length <+: magic then .error (.truncated bytes.length)
    else .error .badMagic
  else if bytes.take magic.length ≠ magic then .error .badMagic
  else
    let found := (bytes.drop magic.length).take 2 |>.foldl (fun n b => 256 * n + b.toNat) 0
    if version < found then .error (.unsupportedVersion found)
    else match Json.readDocument (bytes.drop (magic.length + 2)) with
      | .ok v => .ok v
      | .error .early => .error (.truncated bytes.length)
      | .error .malformed => .error .malformed

/-- The soup of stored bytes. -/
def read (t : RemapTable) (bytes : List UInt8) : Except CorruptState InstanceSoup := do
  let v ← document bytes
  let v ← (t.apply v).mapError fun e => .unresolvedShape e.shape
  match InstanceSoup.ofJson? v with
  | some s => pure s
  | none => throw .malformed

end Checkpoint

/-- The wording of a fault in stored bytes. -/
def CorruptState.message : CorruptState → String
  | .truncated length => s!"execution state truncated after {length} bytes"
  | .badMagic => "execution state does not start with the soup magic"
  | .unsupportedVersion found =>
    s!"execution state format {found} is newer than supported format {Checkpoint.version}"
  | .unresolvedShape shape => UnresolvedShape.message ⟨shape⟩
  | .malformed => "malformed execution state"

end Perdure
