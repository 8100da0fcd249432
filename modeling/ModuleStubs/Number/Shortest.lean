import ModuleStubs.Number.Binary64

/-!
# Shortest decimals

The decimal with the fewest digits that reads back as a given binary64 number,
and of those the one nearest to it. A number `m * 2 ^ e` stands for the interval
of reals that round to it; on the grid of the multiples of `10 ^ p` only the two
neighbours of the number can be its nearest points in that interval, so each
grid is tested at these two.
-/

set_option autoImplicit false

namespace ModuleStubs

namespace Binary64

/-- The comparison of decimal candidates with a number, in units that make both
sides natural numbers: a candidate `c` weighs `c * unit`, the number and the
ends of its interval weigh `low`, `mid` and `high`. The ends belong to the
interval when `closed` holds. -/
structure Grid where
  unit : Nat
  low : Nat
  mid : Nat
  high : Nat
  closed : Bool

/-- The grid of the multiples of `10 ^ p` for the number `m * 2 ^ e`. -/
def grid (m : Nat) (e p : Int) : Grid :=
  let s := e - 2
  let unit := Nat.pow 10 p.toNat * Nat.pow 2 (-s).toNat
  let scale := Nat.pow 10 (-p).toNat * Nat.pow 2 s.toNat
  -- Below a power of two the numbers lie twice as dense.
  let gap := if m = Nat.pow 2 52 ∧ -1074 < e then 1 else 2
  ⟨unit, (4 * m - gap) * scale, 4 * m * scale, (4 * m + 2) * scale, m % 2 == 0⟩

/-- A candidate lies in the interval. -/
def Grid.holds (g : Grid) (c : Nat) : Bool :=
  if g.closed then g.low ≤ c * g.unit && c * g.unit ≤ g.high
  else g.low < c * g.unit && c * g.unit < g.high

/-- The candidate of a grid: of the two neighbours of the number those in the
interval, of these the nearer one, of two equally near the even one. -/
def Grid.candidate? (g : Grid) : Option Nat :=
  let c := g.mid / g.unit
  match g.holds c, g.holds (c + 1) with
  | true, false => some c
  | false, true => some (c + 1)
  | false, false => none
  | true, true =>
    let below := g.mid - c * g.unit
    let above := (c + 1) * g.unit - g.mid
    if below < above then some c
    else if above < below then some (c + 1)
    else if c % 2 = 0 then some c else some (c + 1)

/-- The greatest `k` with `10 ^ k ≤ n / d`, for positive `n` and `d`. -/
def floorLogTen (n d : Nat) : Int :=
  let k : Int := (digitCount n : Int) - digitCount d
  let reached := if 0 ≤ k then d * Nat.pow 10 k.toNat ≤ n else d ≤ n * Nat.pow 10 (-k).toNat
  if reached then k else k - 1

/-- The search through the grids of one more digit each, from the exponent of
the first digit on. -/
def searchGrids (m : Nat) (e : Int) : Nat → Int → Nat × Int
  | 0, p => (0, p)
  | fuel + 1, p =>
    match (grid m e p).candidate? with
    | some c => (c, p)
    | none => searchGrids m e fuel (p - 1)

/-- Digits without zeros at the end, with the exponent of the last one. -/
def dropZeros (c : Nat) (p : Int) : Nat × Int :=
  if 0 < c ∧ c % 10 = 0 then dropZeros (c / 10) (p + 1) else (c, p)
termination_by c
decreasing_by omega

/-- The shortest decimal `c * 10 ^ p` of `m * 2 ^ e`, for a positive `m`.
Eighteen grids are enough: seventeen digits tell any two numbers apart. -/
def shortest (m : Nat) (e : Int) : Nat × Int :=
  let n := if 0 ≤ e then m * Nat.pow 2 e.toNat else m
  let d := if 0 ≤ e then 1 else Nat.pow 2 (-e).toNat
  let (c, p) := searchGrids m e 18 (floorLogTen n d)
  dropZeros c p

end Binary64

end ModuleStubs
