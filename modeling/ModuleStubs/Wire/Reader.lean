import ModuleStubs.Json.Reader
import ModuleStubs.Text.Blank
import ModuleStubs.Wire.Position

/-!
# Reading the wire format

The wire format is JSON as a game log carries it: any code points may stand raw
in strings, escaped surrogates are not joined, form feeds and vertical tabs are
blanks too, and `NaN`, `Infinity` and `-Infinity` are numbers. The reader here works
on what is left of a text and gives what is left after a value. A fault says how
much was left at its place; `ReadFault` turns that into a position. Documents are
read by positions instead (`Wire.Page`); both readers agree.
-/

set_option autoImplicit false

namespace ModuleStubs

namespace Wire

/-- What a text lacks to be in the wire format. -/
inductive Cause where
  /-- A string has no closing quote. -/
  | closingQuote
  /-- A backslash is followed by no escape. -/
  | escape
  /-- A value is missing in a list or after a colon. -/
  | value
  /-- A field has no name. -/
  | propertyName
  /-- A name is followed by no colon. -/
  | colon
  /-- A field is followed by neither a comma nor the end of the object. -/
  | fieldComma
  /-- An item is followed by neither a comma nor the end of the list; reported one
  code point later. -/
  | itemComma
deriving DecidableEq

/-- The wording of a cause. -/
def Cause.message : Cause → Text
  | .closingQuote => lit "'NoneType' object has no attribute 'end'"
  | .escape => lit "Invalid \\escape"
  | .value => lit "Expecting object"
  | .propertyName => lit "Expecting property name"
  | .colon => lit "Expecting : delimiter"
  | .fieldComma => lit "Expecting , delimiter"
  | .itemComma => lit "Expecting , delimiter"

/-- How far behind its place a cause is reported. -/
def Cause.offset : Cause → Nat
  | .itemComma => 1
  | _ => 0

/-- A fault inside a text: the cause, and how many code points are left from its
place on. -/
structure Stop where
  cause : Cause
  left : Nat
deriving DecidableEq

/-- The text without the blanks at its start. -/
def skipBlanks (t : Text) : Text := t.dropWhile isSpace

/-- The string after its opening quote, and the rest after the closing one. The
escapes of one letter are those of standard JSON; an escaped code unit stands for
itself. -/
def stringBody : Text → Except Stop (Text × Text)
  | [] => .error ⟨.closingQuote, 0⟩
  | c :: t =>
    if c = '"' then .ok ([], t)
    else if c = '\\' then
      match t with
      | [] => .error ⟨.escape, 0⟩
      | e :: r =>
        if e = 'u' then
          match r with
          | x :: y :: z :: w :: rest =>
            match Json.hexQuad? x y z w with
            | none => .error ⟨.escape, r.length + 1⟩
            | some n => (stringBody rest).map fun (s, rest) => (CodePoint.ofNat n :: s, rest)
          | _ => .error ⟨.escape, r.length + 1⟩
        else
          match Json.shortEscape? e with
          | none => .error ⟨.escape, r.length + 1⟩
          | some p => (stringBody r).map fun (s, rest) => (p :: s, rest)
    else (stringBody t).map fun (s, rest) => (c :: s, rest)

mutual

/-- The value at the start of a text and the rest, if a value starts there. -/
def readValue : Nat → Text → Except Stop (Option (Json × Text))
  | 0, _ => .ok none
  | fuel + 1, t =>
    match Json.named? t with
    | some r => .ok (some r)
    | none =>
      match Json.numeral? t with
      | some r => .ok (some r)
      | none =>
        match t with
        | [] => .ok none
        | c :: r =>
          if c = '"' then (stringBody r).map fun (s, rest) => some (.str s, rest)
          else if c = '[' then
            (readList fuel r).map fun (items, rest) => some (.list items, rest)
          else if c = '\x7b' then
            (readObject fuel r).map fun (fields, rest) => some (.object fields, rest)
          else .ok none

/-- The list after its opening bracket, and the rest after the closing one. -/
def readList : Nat → Text → Except Stop (List Json × Text)
  | 0, t => .error ⟨.value, t.length⟩
  | fuel + 1, t =>
    match skipBlanks t with
    | [] => .error ⟨.value, 0⟩
    | c :: r => if c = ']' then .ok ([], r) else readItems fuel (c :: r)

/-- The items of a list from one item on, and the rest after the closing bracket. -/
def readItems : Nat → Text → Except Stop (List Json × Text)
  | 0, t => .error ⟨.value, t.length⟩
  | fuel + 1, t => do
    match ← readValue fuel t with
    | none => .error ⟨.value, t.length⟩
    | some (v, rest) =>
      match skipBlanks rest with
      | [] => .error ⟨.itemComma, 0⟩
      | c :: r =>
        if c = ']' then .ok ([v], r)
        else if c = ',' then
          let (vs, rest) ← readItems fuel (skipBlanks r)
          .ok (v :: vs, rest)
        else .error ⟨.itemComma, r.length + 1⟩

/-- The object after its opening brace, and the rest after the closing one. -/
def readObject : Nat → Text → Except Stop (Record Json × Text)
  | 0, t => .error ⟨.propertyName, t.length⟩
  | fuel + 1, t =>
    match skipBlanks t with
    | [] => .error ⟨.propertyName, 0⟩
    | c :: r => if c = '\x7d' then .ok ([], r) else readFields fuel [] (c :: r)

/-- The fields of an object from one field on, added to those before, and the rest
after the closing brace. -/
def readFields : Nat → Record Json → Text → Except Stop (Record Json × Text)
  | 0, _, t => .error ⟨.propertyName, t.length⟩
  | fuel + 1, fields, t =>
    match t with
    | [] => .error ⟨.propertyName, 0⟩
    | c :: r =>
      if c ≠ '"' then .error ⟨.propertyName, r.length + 1⟩
      else do
        let (key, rest) ← stringBody r
        match skipBlanks rest with
        | [] => .error ⟨.colon, 0⟩
        | d :: r =>
          if d ≠ ':' then .error ⟨.colon, r.length + 1⟩
          else do
            let start := skipBlanks r
            match ← readValue fuel start with
            | none => .error ⟨.value, start.length⟩
            | some (v, rest) =>
              let fields := Record.set key v fields
              match skipBlanks rest with
              | [] => .error ⟨.fieldComma, 0⟩
              | e :: r =>
                if e = '\x7d' then .ok (fields, r)
                else if e = ',' then readFields fuel fields (skipBlanks r)
                else .error ⟨.fieldComma, r.length + 1⟩

end

/-- Enough fuel for a text: no two steps in a row leave it as long as it was. -/
def fuelFor (t : Text) : Nat := 3 * t.length + 3

/-! ## Documents -/

/-- A fault of a document. -/
inductive ReadFault where
  /-- No value starts where one is asked for. -/
  | nothing
  /-- A cause at a position. -/
  | at (cause : Cause) (position : Nat)
  /-- Text behind the value. -/
  | extraData (start stop : Nat)
deriving DecidableEq

/-- The wording of a fault of a document. A string without end has no position. -/
def ReadFault.message (doc : Text) : ReadFault → Text
  | .nothing => lit "No JSON object could be decoded"
  | .at .closingQuote _ => Cause.message .closingQuote
  | .at cause position => messageAt cause.message doc position
  | .extraData start stop => messageBetween (lit "Extra data") doc start stop

/-- The fault of a document with `total` code points. -/
def ReadFault.ofStop (total : Nat) (s : Stop) : ReadFault :=
  .at s.cause (total - s.left + s.cause.offset)

/-- The text from a position on; a position outside the text counts as the
nearer end of it. -/
def dropTo (doc : Text) (position : Int) : Text := doc.drop position.toNat

end Wire

end ModuleStubs
