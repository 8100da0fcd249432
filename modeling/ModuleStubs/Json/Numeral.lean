import ModuleStubs.Json.Basic

/-!
# Numerals in JSON texts

A numeral is an optional minus sign, a whole part without needless zeros, an
optional fraction and an optional exponent. Without fraction and exponent it is
an integer, otherwise a binary64 number. A point or an exponent mark that is not
followed by a digit does not belong to the numeral. Both JSON readers share it.
-/

set_option autoImplicit false

namespace ModuleStubs

namespace Json

/-- The whole part of a numeral and the rest. -/
def wholePart? : Text → Option (Text × Text)
  | [] => none
  | c :: t =>
    if c = '0' then some ([c], t)
    else if c.isDigit then some (spanDigits (c :: t))
    else none

/-- The digits of a fraction and the rest. -/
def fraction? : Text → Option (Text × Text)
  | [] => none
  | c :: t =>
    if c = '.' then
      let (ds, rest) := spanDigits t
      if ds.isEmpty then none else some (ds, rest)
    else none

/-- A sign at the start of an exponent: whether it is a minus, and the rest. -/
def exponentSign : Text → Bool × Text
  | [] => (false, [])
  | c :: t => if c = '-' then (true, t) else if c = '+' then (false, t) else (false, c :: t)

/-- An exponent and the rest. -/
def exponent? : Text → Option (Int × Text)
  | [] => none
  | c :: t =>
    if c = 'e' ∨ c = 'E' then
      let (negative, t) := exponentSign t
      let (ds, rest) := spanDigits t
      if ds.isEmpty then none
      else some (if negative then -(digitsValue ds : Int) else digitsValue ds, rest)
    else none

/-- The number of the parts of a numeral. -/
def ofNumeral (negative : Bool) (whole : Text) (fraction : Option Text) (exponent : Option Int) :
    Json :=
  match fraction, exponent with
  | none, none =>
    .int (if negative then -(digitsValue whole : Int) else digitsValue whole)
  | _, _ => .float (Binary64.ofDigits negative whole (fraction.getD []) (exponent.getD 0))

/-- A numeral after its sign, and the rest. -/
def unsignedNumeral? (negative : Bool) (t : Text) : Option (Json × Text) := do
  let (whole, rest) ← wholePart? t
  let (fraction, rest) : Option Text × Text :=
    match fraction? rest with
    | some (ds, r) => (some ds, r)
    | none => (none, rest)
  let (exponent, rest) : Option Int × Text :=
    match exponent? rest with
    | some (e, r) => (some e, r)
    | none => (none, rest)
  return (ofNumeral negative whole fraction exponent, rest)

/-- The number at the start of a text, and the rest. -/
def numeral? (t : Text) : Option (Json × Text) :=
  match t with
  | [] => none
  | c :: r => if c = '-' then unsignedNumeral? true r else unsignedNumeral? false t

/-- The number of four hexadecimal digits. -/
def hexQuad? (a b c d : CodePoint) : Option Nat := do
  let x ← a.hexValue?
  let y ← b.hexValue?
  let z ← c.hexValue?
  let w ← d.hexValue?
  return ((x * 16 + y) * 16 + z) * 16 + w

/-- Four hexadecimal digits at the start of a text, and the rest. -/
def fourHex? : Text → Option (Nat × Text)
  | a :: b :: c :: d :: t => (hexQuad? a b c d).map fun n => (n, t)
  | _ => none

end Json

end ModuleStubs
