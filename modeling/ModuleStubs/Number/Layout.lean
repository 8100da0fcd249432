import ModuleStubs.Number.Shortest

/-!
# Texts of binary64 numbers

`Binary64.text` lays out the shortest digits: positionally when the exponent of
the first digit lies between -4 and 15, in scientific notation otherwise, with a
sign and at least two digits in the exponent. `Binary64.fixed` writes a number
with a given count of decimal places, and `Binary64.ofText?` reads a number.
-/

set_option autoImplicit false

namespace ModuleStubs

namespace Binary64

/-- Zeros in a row. -/
def zeros (n : Nat) : Text := List.replicate n '0'

/-- The exponent part: sign and at least two digits. -/
def exponentText (e : Int) : Text :=
  let digits := decimal e.natAbs
  let sign : CodePoint := if e < 0 then '-' else '+'
  'e' :: sign :: (zeros (2 - digits.length) ++ digits)

/-- Digits with the point after the digit of exponent `e`. -/
def positional (digits : Text) (e : Int) : Text :=
  if e < 0 then lit "0." ++ zeros ((-e).toNat - 1) ++ digits
  else
    let whole := e.toNat + 1
    if digits.length ≤ whole then digits ++ zeros (whole - digits.length) ++ lit ".0"
    else digits.take whole ++ lit "." ++ digits.drop whole

/-- Digits with the point after the first one and an exponent. -/
def scientific (digits : Text) (e : Int) : Text :=
  match digits with
  | [] => []
  | [d] => d :: exponentText e
  | d :: ds => d :: '.' :: (ds ++ exponentText e)

/-- The text of a positive number `m * 2 ^ e`. -/
def magnitudeText (m : Nat) (e : Int) : Text :=
  let (c, p) := shortest m e
  let digits := decimal c
  let first := p + digits.length - 1
  if -4 ≤ first ∧ first < 16 then positional digits first else scientific digits first

/-- The text of a number. -/
def text (x : Binary64) : Text :=
  match x.parts with
  | .nan => lit "nan"
  | .infinite negative => if negative then lit "-inf" else lit "inf"
  | .finite negative m e =>
    let body := if m = 0 then lit "0.0" else magnitudeText m e
    if negative then '-' :: body else body

/-- A number with a fixed count of decimal places, rounded from its exact value. -/
def fixed (places : Nat) (x : Binary64) : Text :=
  match x.toRatio? with
  | none => text x
  | some (a, b) =>
    let digits := decimal (roundDiv (a.natAbs * Nat.pow 10 places) b)
    let padded := zeros (places + 1 - digits.length) ++ digits
    let whole := padded.take (padded.length - places)
    let body := if places = 0 then padded else whole ++ lit "." ++ padded.drop (padded.length - places)
    if x.isNegative then '-' :: body else body

/-- The number of a whole part, a fraction and an exponent, all in digits. -/
def ofDigits (negative : Bool) (whole fraction : Text) (exponent : Int) : Binary64 :=
  ofDecimal negative (digitsValue (whole ++ fraction)) (exponent - fraction.length)

/-- An exponent part, or nothing at the end of the text. -/
def exponentOf? : Text → Option Int
  | [] => some 0
  | c :: t =>
    if c = 'e' ∨ c = 'E' then
      let (negative, digits) : Bool × Text :=
        match t with
        | s :: ds => if s = '-' then (true, ds) else if s = '+' then (false, ds) else (false, t)
        | [] => (false, [])
      if digits.isEmpty || !digits.all CodePoint.isDigit then none
      else some (if negative then -(digitsValue digits : Int) else digitsValue digits)
    else none

/-- A number without a sign. -/
def ofUnsigned? (negative : Bool) (t : Text) : Option Binary64 :=
  if t = lit "inf" then some (infinity negative)
  else if t = lit "nan" then some nan
  else
    let (whole, rest) := spanDigits t
    let (fraction, rest) : Text × Text :=
      match rest with
      | c :: r => if c = '.' then spanDigits r else ([], rest)
      | [] => ([], [])
    if whole.isEmpty && fraction.isEmpty then none
    else (exponentOf? rest).map (ofDigits negative whole fraction)

/-- The number of a text. -/
def ofText? : Text → Option Binary64
  | [] => none
  | c :: t => if c = '-' then ofUnsigned? true t else ofUnsigned? false (c :: t)

end Binary64

end ModuleStubs
