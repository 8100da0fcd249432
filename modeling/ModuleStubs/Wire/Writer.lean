import ModuleStubs.Trace
import ModuleStubs.Wire.Datum

/-!
# Writing the wire format

The writer gives a document in chunks; the chunks written before a fault count.
A container that is met again inside itself is refused when the options ask for
it: the writer keeps a table of the containers that are open, enters each one
when it opens and removes it when it closes. Without the check a container inside
itself has no end.
-/

set_option autoImplicit false

namespace ModuleStubs

namespace Wire

/-- What becomes of foreign objects. -/
inductive Fallback where
  /-- They are refused. -/
  | refuse
  /-- A dictionary with their name is written in their place. -/
  | named
  /-- A list of the object itself is written in its place. -/
  | wrapped
deriving DecidableEq

/-- What the writer does where there is a choice. -/
structure Options where
  /-- Entries under keys that have no text are left out. -/
  skipKeys : Bool := false
  /-- Only ASCII is written. -/
  ascii : Bool := true
  /-- Containers inside themselves are refused. -/
  checkCircular : Bool := true
  /-- Numbers that are none are written. -/
  allowNaN : Bool := true
  fallback : Fallback := .refuse

/-- What cannot be written. -/
inductive WriteFault where
  | circular
  | foreign (name : Text)
  | key (k : Key)
  | outOfRange (x : Binary64)
  | unescapable (c : CodePoint)
  | endless

/-- The wording of a fault. -/
def WriteFault.message : WriteFault → Text
  | .circular => lit "Circular reference detected"
  | .foreign name => Atom.literal (.foreign name) ++ lit " is not JSON serializable"
  | .key k => lit "key " ++ k.literal ++ lit " is not a string"
  | .outOfRange x => lit "Out of range float values are not JSON compliant: " ++ x.text
  | .unescapable c => Text.quoted [c]
  | .endless => lit "maximum recursion depth exceeded"

/-- Writing in chunks. -/
abbrev Writing := Trace Text WriteFault

/-! ## Texts -/

/-- The escape of one letter of a code point. -/
def letterEscape? (c : CodePoint) : Option Text :=
  if c = '\\' then some (lit "\\\\")
  else if c = '"' then some (lit "\\\"")
  else if c.val = 8 then some (lit "\\b")
  else if c.val = 12 then some (lit "\\f")
  else if c.val = 10 then some (lit "\\n")
  else if c.val = 13 then some (lit "\\r")
  else if c.val = 9 then some (lit "\\t")
  else none

/-- The escape of a code point by its number. -/
def numberEscape (c : CodePoint) : Text := lit "\\u" ++ Text.hexFour c.val

/-- A code point inside a string of ASCII only. -/
def asciiPoint (c : CodePoint) : Text :=
  match letterEscape? c with
  | some e => e
  | none => if 32 ≤ c.val ∧ c.val ≤ 126 then [c] else numberEscape c

/-- A code point inside a string of any code points. The control points from 20 to
25 have no escape; those after them are written as they are. -/
def rawPoint (c : CodePoint) : Except WriteFault Text :=
  match letterEscape? c with
  | some e => .ok e
  | none =>
    if c.val < 20 then .ok (numberEscape c)
    else if c.val < 26 then .error (.unescapable c)
    else .ok [c]

/-- Text between quotes. -/
def inQuotes (t : Text) : Text := lit "\"" ++ t ++ lit "\""

/-- A string of ASCII only. -/
def asciiString (t : Text) : Text := inQuotes (t.flatMap asciiPoint)

/-- A string of any code points. -/
def rawString (t : Text) : Except WriteFault Text := do
  let pieces ← t.mapM rawPoint
  return inQuotes (Text.concat pieces)

/-- A string. -/
def writtenString (o : Options) (t : Text) : Except WriteFault Text :=
  if o.ascii then .ok (asciiString t) else rawString t

/-! ## Numbers -/

/-- The text of a number that is odd or none. -/
def specialFloat (x : Binary64) : Text :=
  if x.isNaN ∨ x.isZero then lit "NaN"
  else if x.belowZero then lit "-Infinity"
  else lit "Infinity"

/-- The text of a number. It is written as it is if a digit is its first code
point, or the second one of a number below zero; zero with a minus sign is not. -/
def writtenFloat (allowNaN : Bool) (x : Binary64) (odd : Bool) : Except WriteFault Text :=
  let s := if odd then lit "odd" else x.text
  let first := (s.head?).any CodePoint.isDigit
  let second := ((s.drop 1).head?).any CodePoint.isDigit
  if (x.belowZero && second) || first then .ok s
  else if allowNaN then .ok (specialFloat x)
  else .error (.outOfRange x)

/-- The text of an atom that is not foreign. -/
def writtenAtom (o : Options) : Atom → Except WriteFault Text
  | .null => .ok (lit "null")
  | .bool b => .ok (if b then lit "true" else lit "false")
  | .int n => .ok (decimalInt n)
  | .float x odd => writtenFloat o.allowNaN x odd
  | .str s => writtenString o s
  | .foreign name => .error (.foreign name)

/-- The text of a key, if it has one. -/
def keyText (o : Options) : Key → Except WriteFault (Option Text)
  | .atom (.str s) => .ok (some s)
  | .atom (.float x odd) => (writtenFloat o.allowNaN x odd).map some
  | .atom (.int n) => .ok (some (decimalInt n))
  | .atom (.bool b) => .ok (some (Json.boolLiteral b))
  | .atom .null => .ok (some (lit "null"))
  | k => if o.skipKeys then .ok none else .error (.key k)

/-! ## Containers -/

/-- The numbers of the containers that are open. -/
abbrev Open := List Nat

variable {ρ : Type}

/-- Something written inside a container: refused if the container is open
already. -/
def enclosed (o : Options) (number? : Option Nat) (inside : Open → Writing Open) (marks : Open) :
    Writing Open :=
  match number? with
  | none => inside marks
  | some n =>
    if !o.checkCircular then inside marks
    else if marks.contains n then Trace.fail .circular
    else do
      let marks ← inside (n :: marks)
      return marks.erase n

/-- The items of a list, with a comma before all but the first. -/
def writeItems (write : ρ → Open → Writing Open) : Bool → List ρ → Open → Writing Open
  | _, [], marks => return marks
  | isFirst, v :: vs, marks => do
    if !isFirst then Trace.say (lit ", ")
    let marks ← write v marks
    writeItems write false vs marks

/-- The entries of a dictionary, with a comma before all but the first. -/
def writeFields (o : Options) (write : ρ → Open → Writing Open) :
    Bool → List (Key × ρ) → Open → Writing Open
  | _, [], marks => return marks
  | isFirst, (k, v) :: fs, marks => do
    match ← (keyText o k : Except WriteFault (Option Text)) with
    | none => writeFields o write isFirst fs marks
    | some key =>
      if !isFirst then Trace.say (lit ", ")
      Trace.say (← (writtenString o key : Except WriteFault Text))
      Trace.say (lit ":")
      let marks ← write v marks
      writeFields o write false fs marks

/-- What is written for a foreign object. `again` writes the object once more. -/
def writeForeign (o : Options) (name : Text) (again : Open → Writing Open) (marks : Open) :
    Writing Open :=
  match o.fallback with
  | .refuse => Trace.fail (.foreign name)
  | .named => do
    Trace.say (lit "\x7b")
    Trace.say (← (writtenString o (lit "opaque") : Except WriteFault Text))
    Trace.say (lit ":")
    Trace.say (← (writtenString o name : Except WriteFault Text))
    Trace.say (lit "\x7d")
    return marks
  | .wrapped => do
    Trace.say (lit "[")
    let marks ← again marks
    Trace.say (lit "]")
    return marks

/-- A value of a store, to a depth at most the fuel; the open containers before
and after. -/
def writeValue (s : Store ρ) (o : Options) : Nat → ρ → Open → Writing Open
  | 0, _, _ => Trace.fail .endless
  | fuel + 1, v, marks =>
    match s.shape v with
    | .atom (.foreign name) =>
      enclosed o (s.number? v) (writeForeign o name (writeValue s o fuel v)) marks
    | .atom a => do
      Trace.say (← (writtenAtom o a : Except WriteFault Text))
      return marks
    | .items [] => do
      Trace.say (lit "[]")
      return marks
    | .items parts =>
      enclosed o (s.number? v) (fun marks => do
        Trace.say (lit "[")
        let marks ← writeItems (writeValue s o fuel) true parts marks
        Trace.say (lit "]")
        return marks) marks
    | .fields [] => do
      Trace.say (lit "\x7b\x7d")
      return marks
    | .fields parts =>
      enclosed o (s.number? v) (fun marks => do
        Trace.say (lit "\x7b")
        let marks ← writeFields o (writeValue s o fuel) true parts marks
        Trace.say (lit "\x7d")
        return marks) marks

/-! ## Documents -/

/-- The chunks of a tree. -/
def Datum.chunks (o : Options) (d : Datum) : Writing Open :=
  writeValue Datum.store o (d.depth + 1) d []

/-- The chunks of a value in a heap. No container is entered more often than there
are containers, and a foreign object is written at most twice. -/
def Heap.chunks (h : Heap) (o : Options) (root : Ref) : Writing Open :=
  writeValue h.store o (h.length + 2) root []

/-- The document of a writing that succeeds. -/
def document (w : Writing Open) : Except WriteFault Text :=
  w.result.map fun _ => Text.concat w.log

/-- The document of a tree. -/
def Datum.written (o : Options) (d : Datum) : Except WriteFault Text := document (d.chunks o)

end Wire

end ModuleStubs
