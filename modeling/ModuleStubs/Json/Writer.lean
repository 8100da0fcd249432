import ModuleStubs.Json.Basic

/-!
# Writing standard JSON

The writer of output files: one element a line, indented by tabs, in ASCII. Code
points outside ASCII are escaped as UTF-16 units.
-/

set_option autoImplicit false

namespace ModuleStubs

namespace Json

/-- The escape of one UTF-16 unit. -/
def unitEscape (n : Nat) : Text := lit "\\u" ++ Text.hexFixed 4 n

/-- The escape of a code point by its UTF-16 units. -/
def pointEscape (c : CodePoint) : Text :=
  if c.val < 0x10000 then unitEscape c.val
  else
    let n := c.val - 0x10000
    unitEscape (0xD800 + n / 0x400) ++ unitEscape (0xDC00 + n % 0x400)

/-- One code point inside a string. -/
def writtenPoint (c : CodePoint) : Text :=
  if c = '"' then lit "\\\""
  else if c = '\\' then lit "\\\\"
  else if c = '\n' then lit "\\n"
  else if c = '\r' then lit "\\r"
  else if c = '\t' then lit "\\t"
  else if c.val = 12 then lit "\\f"
  else if c.val = 8 then lit "\\b"
  else if 32 ≤ c.val ∧ c.val ≤ 126 then [c]
  else pointEscape c

/-- A string between its quotes. -/
def writtenString (s : Text) : Text := lit "\"" ++ s.flatMap writtenPoint ++ lit "\""

/-- The text of a number. -/
def writtenFloat (x : Binary64) : Text :=
  match x.parts with
  | .nan => lit "NaN"
  | .infinite negative => if negative then lit "-Infinity" else lit "Infinity"
  | .finite _ _ _ => x.text

/-- A line break with an indent. -/
def lineBreak (depth : Nat) : Text := '\n' :: List.replicate depth '\t'

mutual

/-- A value at a depth. -/
def written (depth : Nat) : Json → Text
  | .null => lit "null"
  | .bool b => if b then lit "true" else lit "false"
  | .int n => decimalInt n
  | .float x => writtenFloat x
  | .str s => writtenString s
  | .list [] => lit "[]"
  | .list (v :: vs) => lit "[" ++ writtenItems (depth + 1) (v :: vs) ++ lineBreak depth ++ lit "]"
  | .object [] => lit "\x7b\x7d"
  | .object (f :: fs) =>
    lit "\x7b" ++ writtenFields (depth + 1) (f :: fs) ++ lineBreak depth ++ lit "\x7d"

/-- The items of a list, each on a line of its own. -/
def writtenItems (depth : Nat) : List Json → Text
  | [] => []
  | [v] => lineBreak depth ++ written depth v
  | v :: w :: vs =>
    lineBreak depth ++ written depth v ++ lit "," ++ writtenItems depth (w :: vs)

/-- The fields of an object, each on a line of its own. -/
def writtenFields (depth : Nat) : List (Text × Json) → Text
  | [] => []
  | [(k, v)] => lineBreak depth ++ writtenString k ++ lit ": " ++ written depth v
  | (k, v) :: f :: fs =>
    lineBreak depth ++ writtenString k ++ lit ": " ++ written depth v ++ lit "," ++
      writtenFields depth (f :: fs)

end

/-- The document of a value. -/
def document (v : Json) : Text := written 0 v

/-! ## On one line -/

mutual

/-- A value on one line. -/
def inline : Json → Text
  | .null => lit "null"
  | .bool b => if b then lit "true" else lit "false"
  | .int n => decimalInt n
  | .float x => writtenFloat x
  | .str s => writtenString s
  | .list items => lit "[" ++ Text.join (lit ", ") (inlineItems items) ++ lit "]"
  | .object fields => lit "\x7b" ++ Text.join (lit ", ") (inlineFields fields) ++ lit "\x7d"

/-- The items of a list. -/
def inlineItems : List Json → List Text
  | [] => []
  | v :: vs => inline v :: inlineItems vs

/-- The fields of an object. -/
def inlineFields : List (Text × Json) → List Text
  | [] => []
  | (k, v) :: fs => (writtenString k ++ lit ": " ++ inline v) :: inlineFields fs

end

end Json

end ModuleStubs
