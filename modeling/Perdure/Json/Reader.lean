import Perdure.Json.Basic
import Perdure.Json.Magnitude
import Perdure.Text.Digits

/-!
# JSON text

A reader of RFC 8259 text, one byte at a time: the open lists and objects are a stack, and the
place inside the innermost value is a `Spot`.  Every fault is found at the byte where the text
stops being the beginning of a value, so that text which merely ends too early is told apart from
text that no continuation could mend.

A document may hold other text that is already JSON, unread, as a string: the object around it has
`embeddedKey` as its first and only key.  A reader of documents takes the value of that text in the
object's place.  What is wrong with the text inside is a fault of the document, and so is anything
else than a string under that key.

## Main definitions

* `Json.Mode` — is a text read as a document, or by its grammar alone?
* `Json.Reader.step` — the state after one more byte.
* `Json.read` — the value of a whole text.
* `Json.readDocument` — the value of a document and of the texts embedded in it.
-/

namespace Perdure

namespace Json

/-- How text is read. -/
inductive Mode where
  /-- Every part denotes something, nesting keeps to `depthLimit`, and embedded text is replaced by
  its value, which the function finds. -/
  | document (embedded : String → Option Json)
  /-- Grammar alone; parts that denote nothing are marked. -/
  | grammar

/-- Is a fault whatever denotes nothing? -/
def Mode.isStrict : Mode → Bool
  | .document _ => true
  | .grammar => false

/-- The value of embedded text. -/
def Mode.embedded? : Mode → String → Option Json
  | .document embedded, s => embedded s
  | .grammar, _ => none

/-- The key of an object that stands for the text it embeds. -/
def embeddedKey : String := "$serde_json::private::RawValue"

/-- Why text is no value. -/
inductive ReadError where
  /-- The text is the beginning of a value. -/
  | early
  /-- No value begins like this. -/
  | malformed
deriving DecidableEq, Repr

namespace Reader

/-- An open list or object. -/
inductive Frame where
  /-- The items so far, last first. -/
  | list (items : List Json)
  /-- The members so far, last first, and the key whose value is awaited.  `broken` once a key
  denotes nothing. -/
  | record (members : List (String × Json)) (key : String) (broken : Bool)
  /-- An object that stands for embedded text: the value of the text, once it is read. -/
  | embedding (v : Option Json)
deriving Repr

/-- How far a number literal has come. -/
inductive NumberPart where
  | sign
  | zero
  | whole
  | point
  | fraction
  | mark
  | markSign
  | exponent
deriving DecidableEq, Repr

/-- How far an escape inside a string has come. -/
inductive Escape where
  | none
  | begun
  /-- The digits of a hexadecimal escape, last first, and a leading surrogate before it. -/
  | hex (digits : List UInt8) (lead : Option Nat)
  /-- A leading surrogate awaits its other half. -/
  | lead (n : Nat)
  | leadBegun (n : Nat)
deriving Repr

/-- The place inside the innermost open value. -/
inductive Spot where
  /-- A value must come. -/
  | value
  /-- The first item or the end of the list. -/
  | item
  /-- The first key or the end of the object. -/
  | member
  /-- A key must come. -/
  | key
  | colon
  /-- A value inside a list or object is complete. -/
  | after
  /-- The rest of `null`, `true` or `false`. -/
  | word (left : List UInt8) (v : Json)
  | number (part : NumberPart) (bytes : List UInt8)
  /-- Inside a string: its bytes, last first. -/
  | text (isKey : Bool) (bytes : List UInt8) (broken : Bool) (escape : Escape)
  /-- The outermost value is complete. -/
  | done (v : Json)
deriving Repr

/-- A reader between two bytes. -/
structure State where
  frames : List Frame
  spot : Spot
deriving Repr

/-- The state before the first byte. -/
def start : State := ⟨[], .value⟩

/-- A value has been completed below the open frames. -/
def complete (mode : Mode) (frames : List Frame) (v : Json) : Except ReadError State :=
  match frames with
  | [] => .ok ⟨[], .done v⟩
  | .list items :: rest => .ok ⟨.list (v :: items) :: rest, .after⟩
  | .record members key broken :: rest =>
    .ok ⟨.record ((key, v) :: members) key broken :: rest, .after⟩
  | .embedding _ :: rest => match v.string?.bind mode.embedded? with
    | some v => .ok ⟨.embedding (some v) :: rest, .after⟩
    | none => .error .malformed

/-- Close the innermost frame by the bracket `b`. -/
def closeWith (mode : Mode) (frames : List Frame) (b : UInt8) : Except ReadError State :=
  match frames with
  | .list items :: rest =>
    if b == ']'.toUInt8 then complete mode rest (.arr items.reverse) else .error .malformed
  | .record members _ broken :: rest =>
    if b == '\x7d'.toUInt8 then
      complete mode rest (if broken then .undenoted else .obj members.reverse)
    else .error .malformed
  | .embedding (some v) :: rest =>
    if b == '\x7d'.toUInt8 then complete mode rest v else .error .malformed
  | _ => .error .malformed

/-- The blanks between tokens. -/
def isSpace (b : UInt8) : Bool := b == 0x20 || b == 0x09 || b == 0x0A || b == 0x0D

/-- Is the byte a decimal digit? -/
def isDigit (b : UInt8) : Bool := '0'.toUInt8 ≤ b && b ≤ '9'.toUInt8

/-- Open a list or object, if the nesting allows it; embedded text is neither. -/
def openFrame (mode : Mode) (frames : List Frame) (frame : Frame) (spot : Spot) :
    Except ReadError State :=
  match frames with
  | .embedding _ :: _ => .error .malformed
  | _ =>
    if mode.isStrict && depthLimit ≤ frames.length then .error .malformed
    else .ok ⟨frame :: frames, spot⟩

/-- The first byte of a value. -/
def beginValue (mode : Mode) (frames : List Frame) (b : UInt8) :
    Except ReadError State :=
  if b == '"'.toUInt8 then .ok ⟨frames, .text false [] false .none⟩
  else if b == '['.toUInt8 then openFrame mode frames (.list []) .item
  else if b == '\x7b'.toUInt8 then openFrame mode frames (.record [] "" false) .member
  else if b == 'n'.toUInt8 then .ok ⟨frames, .word "ull".toUTF8.toList .null⟩
  else if b == 't'.toUInt8 then .ok ⟨frames, .word "rue".toUTF8.toList (.bool true)⟩
  else if b == 'f'.toUInt8 then .ok ⟨frames, .word "alse".toUTF8.toList (.bool false)⟩
  else if b == '-'.toUInt8 then .ok ⟨frames, .number .sign [b]⟩
  else if b == '0'.toUInt8 then .ok ⟨frames, .number .zero [b]⟩
  else if isDigit b then .ok ⟨frames, .number .whole [b]⟩
  else .error .malformed

/-! ### Numbers -/

/-- The part of a literal that a byte leads to: `some none` where the literal ends before the
byte, `none` where no literal goes on like this. -/
def NumberPart.next (part : NumberPart) (b : UInt8) : Option (Option NumberPart) :=
  let digit := isDigit b
  let isMark := b == 'e'.toUInt8 || b == 'E'.toUInt8
  let isSign := b == '+'.toUInt8 || b == '-'.toUInt8
  let afterWhole : Option NumberPart :=
    if b == '.'.toUInt8 then some .point else if isMark then some .mark else none
  match part with
  | .sign =>
    if b == '0'.toUInt8 then some (some .zero) else if digit then some (some .whole) else none
  | .zero => if digit then none else some afterWhole
  | .whole => if digit then some (some .whole) else some afterWhole
  | .point => if digit then some (some .fraction) else none
  | .fraction =>
    if digit then some (some .fraction) else if isMark then some (some .mark) else some none
  | .mark =>
    if digit then some (some .exponent) else if isSign then some (some .markSign) else none
  | .markSign => if digit then some (some .exponent) else none
  | .exponent => if digit then some (some .exponent) else some none

/-- May a literal end in this part? -/
def NumberPart.isLast : NumberPart → Bool
  | .zero | .whole | .fraction | .exponent => true
  | _ => false

/-- The number that digit bytes denote. -/
def digitsValue (bytes : List UInt8) : Nat :=
  bytes.foldl (fun n b => if isDigit b then 10 * n + (b - '0'.toUInt8).toNat else n) 0

/-- The digits among bytes. -/
def digitsOf (bytes : List UInt8) : List Nat :=
  (bytes.filter isDigit).map fun b => (b - '0'.toUInt8).toNat

/-- The magnitude of a complete literal. -/
def magnitude (literal : List UInt8) : Magnitude :=
  let isMark (b : UInt8) : Bool := b == 'e'.toUInt8 || b == 'E'.toUInt8
  let amount := literal.takeWhile fun b => !isMark b
  let power := literal.dropWhile fun b => !isMark b
  let exponent : Int := digitsValue power
  Magnitude.ofDigits (digitsOf (amount.takeWhile (· != '.'.toUInt8)))
    (digitsOf (amount.dropWhile (· != '.'.toUInt8)))
    (if power.contains '-'.toUInt8 then -exponent else exponent)

/-- The value of a complete literal, its bytes last first. -/
def numberValue (bytes : List UInt8) : Json :=
  let literal := bytes.reverse
  if !(magnitude literal).isFinite then .undenoted
  else if literal.all isDigit then .nat (digitsValue literal)
  else .number (String.ofList (literal.map fun b => Char.ofNat b.toNat))

/-! ### Strings -/

/-- The bytes of a character, last first, before those already read. -/
def pushChar (n : Nat) (bytes : List UInt8) : List UInt8 :=
  (String.utf8EncodeChar (Char.ofNat n)).reverse ++ bytes

/-- The number that four hexadecimal digits denote, last digit first. -/
def hexValue? (digits : List UInt8) : Option Nat :=
  digits.foldr
    (fun b acc => do pure (16 * (← acc) + (← Text.hexDigit? (Char.ofNat b.toNat)))) (some 0)

/-- The character that a one letter escape stands for. -/
def letterEscape? (b : UInt8) : Option Nat :=
  if b == '"'.toUInt8 || b == '\\'.toUInt8 || b == '/'.toUInt8 then some b.toNat
  else if b == 'b'.toUInt8 then some 8
  else if b == 'f'.toUInt8 then some 12
  else if b == 'n'.toUInt8 then some 10
  else if b == 'r'.toUInt8 then some 13
  else if b == 't'.toUInt8 then some 9
  else none

/-- Is the number the first half of a surrogate pair? -/
def isLead (n : Nat) : Bool := 0xD800 ≤ n && n ≤ 0xDBFF

/-- Is the number the second half of a surrogate pair? -/
def isTrail (n : Nat) : Bool := 0xDC00 ≤ n && n ≤ 0xDFFF

/-- The character that a surrogate pair stands for. -/
def paired (lead trail : Nat) : Nat := 0x10000 + (lead - 0xD800) * 0x400 + (trail - 0xDC00)

/-- A key has been completed. -/
def completeKey (mode : Mode) (frames : List Frame) (s : String) (broken : Bool) :
    Except ReadError State :=
  match frames with
  | .record members _ wasBroken :: rest =>
    if mode.isStrict && members.isEmpty && s = embeddedKey then
      .ok ⟨.embedding none :: rest, .colon⟩
    else .ok ⟨.record members s (wasBroken || broken) :: rest, .colon⟩
  | _ => .error .malformed

/-- A string has been completed: a key, or a value below the open frames. -/
def completeText (mode : Mode) (frames : List Frame) (isKey : Bool) (bytes : List UInt8)
    (broken : Bool) : Except ReadError State :=
  match String.fromUTF8? (ByteArray.mk bytes.reverse.toArray) with
  | none => .error .malformed
  | some s =>
    if isKey then completeKey mode frames s broken
    else complete mode frames (if broken then .undenoted else .str s)

/-- What the four digits of a hexadecimal escape make of the string. -/
def hexEscape (mode : Mode) (bytes : List UInt8) (broken : Bool) (lead : Option Nat)
    (n : Nat) : Except ReadError (List UInt8 × Bool × Escape) :=
  match lead with
  | some first =>
    if isTrail n then .ok (pushChar (paired first n) bytes, broken, .none)
    else if mode.isStrict then .error .malformed
    else .ok (bytes, true, .none)
  | none =>
    if isLead n then .ok (bytes, broken, .lead n)
    else if isTrail n then
      if mode.isStrict then .error .malformed else .ok (bytes, true, .none)
    else .ok (pushChar n bytes, broken, .none)

/-- The state after one more byte of a string. -/
def textStep (mode : Mode) (frames : List Frame) (isKey : Bool) (bytes : List UInt8)
    (broken : Bool) (escape : Escape) (b : UInt8) : Except ReadError State :=
  let inText (bytes : List UInt8) (broken : Bool) (escape : Escape) : Except ReadError State :=
    .ok ⟨frames, .text isKey bytes broken escape⟩
  let plain (broken : Bool) : Except ReadError State :=
    if b == '"'.toUInt8 then completeText mode frames isKey bytes broken
    else if b == '\\'.toUInt8 then inText bytes broken .begun
    else if b < 0x20 then .error .malformed
    else inText (b :: bytes) broken .none
  let afterSlash (broken : Bool) : Except ReadError State :=
    if b == 'u'.toUInt8 then inText bytes broken (.hex [] none)
    else match letterEscape? b with
      | some n => inText (pushChar n bytes) broken .none
      | none => .error .malformed
  match escape with
  | .none => plain broken
  | .begun => afterSlash broken
  | .hex digits lead =>
    let digits := b :: digits
    if digits.length < 4 then inText bytes broken (.hex digits lead)
    else match hexValue? digits with
      | none => .error .malformed
      | some n => do
        let (bytes, broken, escape) ← hexEscape mode bytes broken lead n
        inText bytes broken escape
  | .lead n =>
    if b == '\\'.toUInt8 then inText bytes broken (.leadBegun n)
    else if mode.isStrict then .error .malformed
    else plain true
  | .leadBegun n =>
    if b == 'u'.toUInt8 then inText bytes broken (.hex [] (some n))
    else if mode.isStrict then .error .malformed
    else afterSlash true

/-! ### The steps -/

/-- The state after a byte that follows a complete value. -/
def afterStep (mode : Mode) (frames : List Frame) (b : UInt8) : Except ReadError State :=
  if isSpace b then .ok ⟨frames, .after⟩
  else if b == ','.toUInt8 then
    match frames with
    | .list _ :: _ => .ok ⟨frames, .value⟩
    | .record .. :: _ => .ok ⟨frames, .key⟩
    | _ => .error .malformed
  else closeWith mode frames b

/-- A literal ends before the byte `b`. -/
def endNumber (mode : Mode) (frames : List Frame) (bytes : List UInt8) :
    Except ReadError State :=
  match numberValue bytes with
  | .undenoted => if mode.isStrict then .error .malformed else complete mode frames .undenoted
  | v => complete mode frames v

/-- The state after a byte that is outside numbers. -/
def plainStep (mode : Mode) (s : State) (b : UInt8) : Except ReadError State :=
  match s.spot with
  | .value => if isSpace b then .ok s else beginValue mode s.frames b
  | .item =>
    if isSpace b then .ok s
    else if b == ']'.toUInt8 then closeWith mode s.frames b
    else beginValue mode s.frames b
  | .member =>
    if isSpace b then .ok s
    else if b == '\x7d'.toUInt8 then closeWith mode s.frames b
    else if b == '"'.toUInt8 then .ok ⟨s.frames, .text true [] false .none⟩
    else .error .malformed
  | .key =>
    if isSpace b then .ok s
    else if b == '"'.toUInt8 then .ok ⟨s.frames, .text true [] false .none⟩
    else .error .malformed
  | .colon =>
    if isSpace b then .ok s
    else if b == ':'.toUInt8 then .ok ⟨s.frames, .value⟩
    else .error .malformed
  | .after => afterStep mode s.frames b
  | .word left v => match left with
    | [] => .error .malformed
    | c :: rest =>
      if b != c then .error .malformed
      else if rest.isEmpty then complete mode s.frames v
      else .ok ⟨s.frames, .word rest v⟩
  | .number _ _ => .error .malformed
  | .text isKey bytes broken escape => textStep mode s.frames isKey bytes broken escape b
  | .done _ => if isSpace b then .ok s else .error .malformed

/-- The state after one more byte. -/
def step (mode : Mode) (s : State) (b : UInt8) : Except ReadError State :=
  match s.spot with
  | .number part bytes => match part.next b with
    | none => .error .malformed
    | some (some part) => .ok ⟨s.frames, .number part (b :: bytes)⟩
    | some none => do plainStep mode (← endNumber mode s.frames bytes) b
  | _ => plainStep mode s b

/-- The value of the text that ends here. -/
def finish (mode : Mode) (s : State) : Except ReadError Json :=
  match s.spot with
  | .done v => .ok v
  | .number part bytes =>
    if !part.isLast then .error .early
    else do
      let s ← endNumber mode s.frames bytes
      match s.spot with
      | .done v => .ok v
      | _ => .error .early
  | _ => .error .early

end Reader

/-- The value of a whole text. -/
def read (mode : Mode) (bytes : List UInt8) : Except ReadError Json := do
  Reader.finish mode (← bytes.foldlM (Reader.step mode) Reader.start)

/-- The value of a document in which texts are embedded in each other up to the given depth. -/
def readEmbedding : Nat → List UInt8 → Except ReadError Json
  | 0 => read (.document fun _ => none)
  | depth + 1 => read (.document fun s => (readEmbedding depth s.toUTF8.toList).toOption)

/-- The value of a document in which every part denotes something, as a finite map sees it.  Texts
cannot be embedded deeper than the document is long, as each is shorter than the one around it. -/
def readDocument (bytes : List UInt8) : Except ReadError Json :=
  (readEmbedding bytes.length bytes).map collapse

/-- The value of text, as written. -/
def readText? (text : String) : Option Json :=
  (read .grammar text.toUTF8.toList).toOption

end Json

end Perdure
