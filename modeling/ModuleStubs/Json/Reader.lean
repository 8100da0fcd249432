import ModuleStubs.Json.Numeral

/-!
# Reading standard JSON

The reader of input and configuration files. It accepts standard JSON and the
three names of non-finite numbers, joins the two halves of an escaped surrogate
pair, and keeps the last value of a repeated key in the key's first place. A
fault names what was expected and how much of the text was left there; `parse`
turns this into a position.
-/

set_option autoImplicit false

namespace ModuleStubs

namespace Json

/-- What a text lacks to be JSON. -/
inductive ReadCause where
  | value
  | propertyName
  | colon
  | comma
  | extraData
  | unterminatedString
  | controlPoint
  | escape
  | unicodeEscape
  | byteOrderMark
deriving DecidableEq

/-- The wording of a cause. -/
def ReadCause.message : ReadCause → Text
  | .value => lit "Expecting value"
  | .propertyName => lit "Expecting property name enclosed in double quotes"
  | .colon => lit "Expecting ':' delimiter"
  | .comma => lit "Expecting ',' delimiter"
  | .extraData => lit "Extra data"
  | .unterminatedString => lit "Unterminated string starting at"
  | .controlPoint => lit "Invalid control character at"
  | .escape => lit "Invalid \\escape"
  | .unicodeEscape => lit "Invalid \\uXXXX escape"
  | .byteOrderMark => lit "Unexpected UTF-8 BOM (decode using utf-8-sig)"

/-- A fault inside a text: the cause, and how many code points are left from its
place on. -/
abbrev ReadStop := ReadCause × Nat

/-- A fault of a text: the cause, the position, and the line and the column of
the position, both counted from one. -/
structure ReadFault where
  cause : ReadCause
  position : Nat
  line : Nat
  column : Nat
deriving DecidableEq

/-- The wording of a fault. -/
def ReadFault.message (f : ReadFault) : Text :=
  f.cause.message ++ lit ": line " ++ decimal f.line ++ lit " column " ++ decimal f.column ++
    lit " (char " ++ decimal f.position ++ lit ")"

/-- The fault at a position of a document. -/
def ReadFault.locate (doc : Text) (cause : ReadCause) (position : Nat) : ReadFault :=
  let before := doc.take position
  ⟨cause, position, Text.countOf '\n' before + 1, (Text.lastPiece '\n' before).length + 1⟩

/-- Blanks between the tokens of JSON. -/
def isGap (c : CodePoint) : Bool :=
  c.val == 32 || c.val == 9 || c.val == 10 || c.val == 13

/-- The text without the blanks at its start. -/
def skipGap (t : Text) : Text := t.dropWhile isGap

/-- The code point of a one-letter escape. -/
def shortEscape? (c : CodePoint) : Option CodePoint :=
  if c = '"' ∨ c = '\\' ∨ c = '/' then some c
  else if c = 'b' then some (CodePoint.ofNat 8)
  else if c = 'f' then some (CodePoint.ofNat 12)
  else if c = 'n' then some (CodePoint.ofNat 10)
  else if c = 'r' then some (CodePoint.ofNat 13)
  else if c = 't' then some (CodePoint.ofNat 9)
  else none

/-- The code point of the two halves of a surrogate pair. -/
def joinSurrogates (high low : Nat) : CodePoint :=
  CodePoint.ofNat (0x10000 + (high - 0xD800) * 0x400 + (low - 0xDC00))

/-- The low half of a pair that follows its high half. A second escape that is no
low half is left alone; one that is broken is a fault, unless the text ends with it. -/
def lowHalf? (t : Text) : Except ReadStop (Option Nat) :=
  match t with
  | c :: d :: r =>
    if c = '\\' ∧ d = 'u' ∧ !(r.drop 4).isEmpty then
      match fourHex? r with
      | none => .error (.unicodeEscape, r.length + 1)
      | some (n, _) => if 0xDC00 ≤ n ∧ n ≤ 0xDFFF then .ok (some n) else .ok none
    else .ok none
  | _ => .ok none

/-- The code point of an escape after its `u`, and how many code points it takes
from there on: four, or ten for a pair. -/
def unicodeEscape (t : Text) : Except ReadStop (CodePoint × Nat) :=
  match fourHex? t with
  | none => .error (.unicodeEscape, t.length + 1)
  | some (n, rest) =>
    if rest.isEmpty then .error (.unicodeEscape, t.length + 1)
    else if 0xD800 ≤ n ∧ n ≤ 0xDBFF then
      match lowHalf? rest with
      | .error e => .error e
      | .ok (some low) => .ok (joinSurrogates n low, 10)
      | .ok none => .ok (CodePoint.ofNat n, 4)
    else .ok (CodePoint.ofNat n, 4)

/-- The string after its opening quote, and the rest after the closing one. The
first `known` code points belong to an escape that was read already. The error is
none if the text ends inside the string. -/
def stringBody : Nat → Text → Except (Option ReadStop) (Text × Text)
  | _, [] => .error none
  | known + 1, _ :: t => stringBody known t
  | 0, c :: t =>
    if c = '"' then .ok ([], t)
    else if c = '\\' then
      match t with
      | [] => .error none
      | e :: r =>
        if e = 'u' then
          match unicodeEscape r with
          | .error s => .error (some s)
          | .ok (p, width) => (stringBody width r).map fun (s, rest) => (p :: s, rest)
        else
          match shortEscape? e with
          | none => .error (some (.escape, t.length + 1))
          | some p => (stringBody 0 r).map fun (s, rest) => (p :: s, rest)
    else if c.val < 0x20 then .error (some (.controlPoint, t.length + 1))
    else (stringBody 0 t).map fun (s, rest) => (c :: s, rest)

/-- The string at the start of a text, from its opening quote on. An unterminated
string is reported at that quote. -/
def readString (t : Text) : Except ReadStop (Text × Text) :=
  match stringBody 0 (t.drop 1) with
  | .error none => .error (.unterminatedString, t.length)
  | .error (some s) => .error s
  | .ok r => .ok r

/-- The names that stand for values. -/
def names : List (Text × Json) :=
  [(lit "null", .null),
   (lit "true", .bool true),
   (lit "false", .bool false),
   (lit "NaN", .float Binary64.nan),
   (lit "Infinity", .float (Binary64.infinity false)),
   (lit "-Infinity", .float (Binary64.infinity true))]

/-- The value of a name at the start of a text, and the rest. -/
def named? (t : Text) : Option (Json × Text) :=
  names.findSome? fun (name, v) => (Text.afterPrefix? name t).map fun rest => (v, rest)

mutual

/-- The value at the start of a text, and the rest. -/
def readValue : Nat → Text → Except ReadStop (Json × Text)
  | 0, t => .error (.value, t.length)
  | fuel + 1, t =>
    match t with
    | [] => .error (.value, 0)
    | c :: r =>
      if c = '"' then (readString t).map fun (s, rest) => (.str s, rest)
      else if c = '\x7b' then
        match skipGap r with
        | [] => .error (.propertyName, 0)
        | d :: r' =>
          if d = '\x7d' then .ok (.object [], r')
          else (readFields fuel [] (d :: r')).map fun (fs, rest) => (.object fs, rest)
      else if c = '[' then
        match skipGap r with
        | [] => .error (.value, 0)
        | d :: r' =>
          if d = ']' then .ok (.list [], r')
          else (readItems fuel (d :: r')).map fun (items, rest) => (.list items, rest)
      else
        match named? t with
        | some r => .ok r
        | none =>
          match numeral? t with
          | some r => .ok r
          | none => .error (.value, t.length)

/-- The items of a list from one item on, and the rest after the closing bracket. -/
def readItems : Nat → Text → Except ReadStop (List Json × Text)
  | 0, t => .error (.value, t.length)
  | fuel + 1, t => do
    let (v, rest) ← readValue fuel t
    match skipGap rest with
    | [] => .error (.comma, 0)
    | c :: r =>
      if c = ']' then .ok ([v], r)
      else if c = ',' then
        let (vs, rest) ← readItems fuel (skipGap r)
        .ok (v :: vs, rest)
      else .error (.comma, r.length + 1)

/-- The fields of an object from one field on, added to those before, and the rest
after the closing brace. -/
def readFields : Nat → Record Json → Text → Except ReadStop (Record Json × Text)
  | 0, _, t => .error (.value, t.length)
  | fuel + 1, fields, t =>
    match t with
    | [] => .error (.propertyName, 0)
    | c :: _ =>
      if c ≠ '"' then .error (.propertyName, t.length)
      else do
        let (key, rest) ← readString t
        match skipGap rest with
        | [] => .error (.colon, 0)
        | d :: r =>
          if d ≠ ':' then .error (.colon, r.length + 1)
          else do
            let (v, rest) ← readValue fuel (skipGap r)
            let fields := Record.set key v fields
            match skipGap rest with
            | [] => .error (.comma, 0)
            | e :: r =>
              if e = '\x7d' then .ok (fields, r)
              else if e = ',' then readFields fuel fields (skipGap r)
              else .error (.comma, r.length + 1)

end

/-- The value of a document. -/
def parse (doc : Text) : Except ReadFault Json :=
  let stop (s : ReadStop) : ReadFault := .locate doc s.1 (doc.length - s.2)
  if doc.head? = some (CodePoint.ofNat 0xFEFF) then .error (.locate doc .byteOrderMark 0)
  else
    let t := skipGap doc
    match readValue (2 * t.length + 2) t with
    | .error s => .error (stop s)
    | .ok (v, rest) =>
      match skipGap rest with
      | [] => .ok v
      | c :: r => .error (stop (.extraData, (c :: r).length))

end Json

end ModuleStubs
