import ModuleStubs.Wire.Reader

/-!
# Reading the wire format at a position

The reader of documents. It keeps the whole text and works on positions in it: it
asks what stands at a position, and every part of it gives the position after what
it has read. Faults name positions of the text. `Page.readValue` is the value at a
position; `readAt`, `parse`, `stringAt` and `afterBlanks` are asked for texts.
-/

set_option autoImplicit false

namespace ModuleStubs

namespace Wire

/-- A text whose code points are looked up by position. -/
abbrev Page := Array CodePoint

namespace Page

/-! ## Tokens -/

/-- The position after the code points of a class from a position on, at most so
many of them. -/
def spanAtMost (s : Page) (p : CodePoint → Bool) : Nat → Nat → Nat
  | 0, i => i
  | n + 1, i =>
    match s[i]? with
    | none => i
    | some c => if p c then spanAtMost s p n (i + 1) else i

/-- The position after the code points of a class from a position on. -/
def span (s : Page) (p : CodePoint → Bool) (i : Nat) : Nat := s.spanAtMost p (s.size - i) i

/-- The text between two positions. -/
def slice (s : Page) (i j : Nat) : Text := (s.extract i j).toList

/-- A word stands at a position. -/
def startsAt (s : Page) : Text → Nat → Bool
  | [], _ => true
  | c :: word, i => s[i]? == some c && s.startsAt word (i + 1)

/-- The value of a name at a position, and the position after it. -/
def named? (s : Page) (i : Nat) : Option (Json × Nat) :=
  Json.names.findSome? fun (name, v) =>
    if s.startsAt name i then some (v, i + name.length) else none

/-- The position after the digits of a whole part. -/
def wholeEnd? (s : Page) (i : Nat) : Option Nat :=
  match s[i]? with
  | none => none
  | some c =>
    if c = '0' then some (i + 1)
    else if c.isDigit then some (s.span CodePoint.isDigit i)
    else none

/-- The position after a fraction, which has digits behind its point. Without a
fraction it is the position as given. -/
def fractionEnd (s : Page) (i : Nat) : Nat :=
  match s[i]? with
  | none => i
  | some c =>
    let e := s.span CodePoint.isDigit (i + 1)
    if c = '.' ∧ i + 1 < e then e else i

/-- The position after the sign of an exponent, if it has one. -/
def signEnd (s : Page) (i : Nat) : Nat :=
  match s[i]? with
  | none => i
  | some c => if c = '-' ∨ c = '+' then i + 1 else i

/-- The position after an exponent, which has digits behind its mark and its sign.
Without an exponent it is the position as given. -/
def exponentEnd (s : Page) (i : Nat) : Nat :=
  match s[i]? with
  | none => i
  | some c =>
    let start := s.signEnd (i + 1)
    let e := s.span CodePoint.isDigit start
    if (c = 'e' ∨ c = 'E') ∧ start < e then e else i

/-- The number of an exponent after its mark. -/
def exponentValue (t : Text) : Int :=
  let (negative, ds) := Json.exponentSign t
  if negative then -(digitsValue ds : Int) else digitsValue ds

/-- The number whose whole part starts at a position, and the position after it. -/
def unsignedNumber? (s : Page) (negative : Bool) (i : Nat) : Option (Json × Nat) :=
  (s.wholeEnd? i).map fun j =>
    let k := s.fractionEnd j
    let e := s.exponentEnd k
    let fraction := if j < k then some (s.slice (j + 1) k) else none
    let exponent := if k < e then some (exponentValue (s.slice (k + 1) e)) else none
    (Json.ofNumeral negative (s.slice i j) fraction exponent, e)

/-- The number at a position, and the position after it. -/
def number? (s : Page) (i : Nat) : Option (Json × Nat) :=
  if s[i]? = some (CodePoint.ofChar '-') then s.unsignedNumber? true (i + 1)
  else s.unsignedNumber? false i

/-- The number of the four hexadecimal digits at a position. -/
def hexQuad? (s : Page) (i : Nat) : Option Nat := do
  Json.hexQuad? (← s[i]?) (← s[i + 1]?) (← s[i + 2]?) (← s[i + 3]?)

/-- The string whose body starts at a position, and the position after its closing
quote. The first argument bounds the number of its code points. -/
def stringWithin (s : Page) : Nat → Nat → Except ReadFault (Text × Nat)
  | 0, i => .error (.at .closingQuote i)
  | n + 1, i =>
    match s[i]? with
    | none => .error (.at .closingQuote i)
    | some c =>
      if c = '"' then .ok ([], i + 1)
      else if c = '\\' then
        match s[i + 1]? with
        | none => .error (.at .escape (i + 1))
        | some e =>
          if e = 'u' then
            match s.hexQuad? (i + 2) with
            | none => .error (.at .escape (i + 1))
            | some u => (s.stringWithin n (i + 6)).map fun (t, e) => (CodePoint.ofNat u :: t, e)
          else
            match Json.shortEscape? e with
            | none => .error (.at .escape (i + 1))
            | some p => (s.stringWithin n (i + 2)).map fun (t, e) => (p :: t, e)
      else (s.stringWithin n (i + 1)).map fun (t, e) => (c :: t, e)

/-- The string whose body starts at a position, and the position after its closing
quote. -/
def string (s : Page) (i : Nat) : Except ReadFault (Text × Nat) :=
  s.stringWithin (s.size - i) i

/-! ## Values -/

mutual

/-- The value at a position and the position after it, if a value starts there. -/
def readValue (s : Page) : Nat → Nat → Except ReadFault (Option (Json × Nat))
  | 0, _ => .ok none
  | fuel + 1, i =>
    match s.named? i with
    | some r => .ok (some r)
    | none =>
      match s.number? i with
      | some r => .ok (some r)
      | none =>
        match s[i]? with
        | none => .ok none
        | some c =>
          if c = '"' then (s.string (i + 1)).map fun (t, e) => some (.str t, e)
          else if c = '[' then (s.readList fuel (i + 1)).map fun (vs, e) => some (.list vs, e)
          else if c = '\x7b' then
            (s.readObject fuel (i + 1)).map fun (fields, e) => some (.object fields, e)
          else .ok none

/-- The list whose opening bracket stands before a position, and the position after
its closing one. -/
def readList (s : Page) : Nat → Nat → Except ReadFault (List Json × Nat)
  | 0, i => .error (.at .value i)
  | fuel + 1, i =>
    let j := s.span isSpace i
    if s[j]? = some (CodePoint.ofChar ']') then .ok ([], j + 1) else s.readItems fuel j

/-- The items of a list from the one at a position on, and the position after the
closing bracket. The position is moved past the delimiter before that is looked at,
and a fault names the moved one. -/
def readItems (s : Page) : Nat → Nat → Except ReadFault (List Json × Nat)
  | 0, i => .error (.at .value i)
  | fuel + 1, i => do
    match ← s.readValue fuel i with
    | none => .error (.at .value i)
    | some (v, e) =>
      let j := s.span isSpace e
      if s[j]? = some (CodePoint.ofChar ']') then .ok ([v], j + 1)
      else if s[j]? = some (CodePoint.ofChar ',') then
        let (vs, e) ← s.readItems fuel (s.span isSpace (j + 1))
        .ok (v :: vs, e)
      else .error (.at .itemComma (j + 1))

/-- The object whose opening brace stands before a position, and the position after
its closing one. -/
def readObject (s : Page) : Nat → Nat → Except ReadFault (Record Json × Nat)
  | 0, i => .error (.at .propertyName i)
  | fuel + 1, i =>
    let j := s.span isSpace i
    if s[j]? = some (CodePoint.ofChar '\x7d') then .ok ([], j + 1) else s.readFields fuel [] j

/-- The fields of an object from the one at a position on, added to those before,
and the position after the closing brace. -/
def readFields (s : Page) : Nat → Record Json → Nat → Except ReadFault (Record Json × Nat)
  | 0, _, i => .error (.at .propertyName i)
  | fuel + 1, fields, i =>
    if s[i]? = some (CodePoint.ofChar '"') then do
      let (key, e) ← s.string (i + 1)
      let j := s.span isSpace e
      if s[j]? = some (CodePoint.ofChar ':') then do
        let start := s.span isSpace (j + 1)
        match ← s.readValue fuel start with
        | none => .error (.at .value start)
        | some (v, e) =>
          let fields := Record.set key v fields
          let j := s.span isSpace e
          if s[j]? = some (CodePoint.ofChar '\x7d') then .ok (fields, j + 1)
          else if s[j]? = some (CodePoint.ofChar ',') then
            s.readFields fuel fields (s.span isSpace (j + 1))
          else .error (.at .fieldComma j)
      else .error (.at .colon j)
    else .error (.at .propertyName i)

end

/-- The value at a position and the position after it. -/
def valueAt (s : Page) (i : Nat) : Except ReadFault (Json × Nat) := do
  match ← s.readValue (3 * (s.size - i) + 3) i with
  | none => .error .nothing
  | some r => .ok r

/-- The place that a position stands for: one outside the text counts as the nearer
end of it. -/
def place (s : Page) (position : Int) : Nat := min position.toNat s.size

end Page

/-! ## Documents -/

/-- The value at a position of a document, and the position after it. -/
def readAt (doc : Text) (position : Int) : Except ReadFault (Json × Nat) :=
  let s : Page := doc.toArray
  s.valueAt (s.place position)

/-- The value of a document, which may have blanks around it. -/
def parse (doc : Text) : Except ReadFault Json := do
  let s : Page := doc.toArray
  let (v, e) ← s.valueAt (s.span isSpace 0)
  let j := s.span isSpace e
  if j = s.size then .ok v else .error (.extraData j s.size)

/-- The string whose body starts at a position, and the position after it. -/
def stringAt (doc : Text) (position : Int) : Except ReadFault (Text × Nat) :=
  let s : Page := doc.toArray
  s.string (s.place position)

/-- The position after the blanks at a position. Without blanks it is the position
as given. -/
def afterBlanks (doc : Text) (position : Int) : Int :=
  let s : Page := doc.toArray
  let i := s.place position
  let j := s.span isSpace i
  if j = i then position else j

end Wire

end ModuleStubs
