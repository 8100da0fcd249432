import ModuleStubs.Number.Decimal

/-!
# Binary64 numbers

A number is given by its 64 bits. `Binary64.parts` takes them apart;
`Binary64.ofRatio` rounds a quotient of natural numbers to the nearest number,
ties to the even one. Arithmetic works on exact quotients and rounds once, so
nothing here depends on the machine's floating-point unit.
-/

set_option autoImplicit false

namespace ModuleStubs

/-- A binary64 number, by its bits. -/
structure Binary64 where
  bits : UInt64
deriving DecidableEq

/-- The quotient rounded to the nearest natural number, ties to even. -/
def roundDiv (n d : Nat) : Nat :=
  let q := n / d
  let r := n % d
  if 2 * r < d then q
  else if d < 2 * r then q + 1
  else if q % 2 = 0 then q else q + 1

/-- The greatest `e` with `2 ^ e ≤ n / d`, for positive `n` and `d`. -/
def floorLogTwo (n d : Nat) : Int :=
  let e : Int := (n.log2 : Int) - d.log2
  let below := if 0 ≤ e then n < d * Nat.pow 2 e.toNat else n * Nat.pow 2 (-e).toNat < d
  if below then e - 1 else e

namespace Binary64

/-- What the bits say: not a number, an infinity, or `mantissa * 2 ^ exponent`
with a sign. -/
inductive Parts where
  | nan
  | infinite (negative : Bool)
  | finite (negative : Bool) (mantissa : Nat) (exponent : Int)
deriving DecidableEq

/-- The parts of a number. -/
def parts (x : Binary64) : Parts :=
  let n := x.bits.toNat
  let negative := decide (Nat.pow 2 63 ≤ n)
  let e : Nat := n / Nat.pow 2 52 % 2048
  let f : Nat := n % Nat.pow 2 52
  if e = 2047 then (if f = 0 then .infinite negative else .nan)
  else if e = 0 then .finite negative f (-1074)
  else .finite negative (f + Nat.pow 2 52) ((e : Int) - 1075)

/-- The number of a sign and a magnitude given by its bits. -/
def ofMagnitude (negative : Bool) (magnitude : Nat) : Binary64 :=
  ⟨UInt64.ofNat (if negative then magnitude + Nat.pow 2 63 else magnitude)⟩

/-- Not a number. -/
def nan : Binary64 := ofMagnitude false 0x7FF8000000000000

/-- An infinity. -/
def infinity (negative : Bool) : Binary64 := ofMagnitude negative 0x7FF0000000000000

/-- Zero with a sign. -/
def zero (negative : Bool) : Binary64 := ofMagnitude negative 0

/-- The number nearest to `n / d`, ties to even, with a sign; beyond the range
it is an infinity. The divisor is positive. -/
def ofRatio (negative : Bool) (n d : Nat) : Binary64 :=
  if n = 0 then zero negative
  else
    let q := max (floorLogTwo n d - 52) (-1074)
    let m := if 0 ≤ q then roundDiv n (d * Nat.pow 2 q.toNat) else roundDiv (n * Nat.pow 2 (-q).toNat) d
    -- A mantissa that rounds up to the next power of two carries into the exponent.
    let magnitude := (q + 1074).toNat * Nat.pow 2 52 + m
    if 2047 * Nat.pow 2 52 ≤ magnitude then infinity negative else ofMagnitude negative magnitude

/-- The number nearest to `digits * 10 ^ exponent`. -/
def ofDecimal (negative : Bool) (digits : Nat) (exponent : Int) : Binary64 :=
  let scale : Int := exponent + digitCount digits
  if digits = 0 ∨ scale < -400 then zero negative
  else if 400 < scale then infinity negative
  else if 0 ≤ exponent then ofRatio negative (digits * Nat.pow 10 exponent.toNat) 1
  else ofRatio negative digits (Nat.pow 10 (-exponent).toNat)

/-- The number nearest to an integer. -/
def ofInt (n : Int) : Binary64 := ofRatio (decide (n < 0)) n.natAbs 1

/-- The exact value of a finite number, as a quotient. -/
def toRatio? (x : Binary64) : Option (Int × Nat) :=
  match x.parts with
  | .finite negative m e =>
    let n : Int := if 0 ≤ e then ((m * Nat.pow 2 e.toNat : Nat) : Int) else m
    let d : Nat := if 0 ≤ e then 1 else Nat.pow 2 (-e).toNat
    some (if negative then -n else n, d)
  | _ => none

/-- The sign bit. -/
def isNegative (x : Binary64) : Bool := decide (Nat.pow 2 63 ≤ x.bits.toNat)

/-- Not a number. -/
def isNaN (x : Binary64) : Bool := x.parts == .nan

/-- Zero of either sign. -/
def isZero (x : Binary64) : Bool :=
  match x.parts with
  | .finite _ m _ => m == 0
  | _ => false

/-- Neither infinite nor a non-number. -/
def isFinite (x : Binary64) : Bool :=
  match x.parts with
  | .finite _ _ _ => true
  | _ => false

/-- Below zero. -/
def belowZero (x : Binary64) : Bool := x.isNegative && !x.isNaN && !x.isZero

/-- The number nearest to a signed quotient. -/
def ofSigned (n : Int) (d : Nat) : Binary64 := ofRatio (decide (n < 0)) n.natAbs d

/-- The sum. -/
def add (x y : Binary64) : Binary64 :=
  match x.toRatio?, y.toRatio? with
  | some (a, b), some (c, d) =>
    if x.isZero && y.isZero then zero (x.isNegative && y.isNegative)
    else ofSigned (a * d + c * b) (b * d)
  | none, some _ => x
  | some _, none => y
  | none, none => if x = y then x else nan

/-- The number of the opposite sign. -/
def neg (x : Binary64) : Binary64 := ofMagnitude (!x.isNegative) (x.bits.toNat % Nat.pow 2 63)

/-- The difference. -/
def sub (x y : Binary64) : Binary64 := add x (neg y)

/-- The product of finite numbers; anything else is not a number. -/
def mul (x y : Binary64) : Binary64 :=
  match x.toRatio?, y.toRatio? with
  | some (a, b), some (c, d) => ofRatio (x.isNegative != y.isNegative) (a * c).natAbs (b * d)
  | _, _ => nan

/-- The quotient of finite numbers with a divisor other than zero; anything
else is not a number. -/
def div (x y : Binary64) : Binary64 :=
  match x.toRatio?, y.toRatio? with
  | some (a, b), some (c, d) =>
    if c = 0 then nan
    else ofRatio (x.isNegative != y.isNegative) (a.natAbs * d) (b * c.natAbs)
  | _, _ => nan

/-- The order of the numbers; a non-number is below nothing. -/
def lt (x y : Binary64) : Bool :=
  match x.parts, y.parts with
  | .nan, _ => false
  | _, .nan => false
  | .infinite s, .infinite t => s && !t
  | .infinite s, .finite _ _ _ => s
  | .finite _ _ _, .infinite t => !t
  | .finite _ _ _, .finite _ _ _ =>
    match x.toRatio?, y.toRatio? with
    | some (a, b), some (c, d) => decide (a * d < c * b)
    | _, _ => false

/-- The number rounded to decimal places, ties of its exact value to even. -/
def round (places : Nat) (x : Binary64) : Binary64 :=
  match x.toRatio? with
  | some (a, b) => ofRatio x.isNegative (roundDiv (a.natAbs * Nat.pow 10 places) b) (Nat.pow 10 places)
  | none => x

end Binary64

end ModuleStubs
