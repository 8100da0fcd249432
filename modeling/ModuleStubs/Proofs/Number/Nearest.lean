import Mathlib.Algebra.Order.Field.Power
import Mathlib.Data.Rat.Cast.Order
import Mathlib.Tactic.Linarith
import Mathlib.Tactic.NormNum
import Mathlib.Tactic.Positivity
import Mathlib.Tactic.Ring
import ModuleStubs.Number.Shortest

/-!
# Rounding to the nearest number

A positive number is a mantissa and an exponent (`IsNormal`), and stands for an interval of rationals
(`Near`): up to half of the distance to the numbers beside it, with the ends if the mantissa is even.
Every quotient in that interval is rounded to the number (`ofRatio_of_near`). The numbers below a power
of two lie twice as dense as those above it; a quotient that is rounded up to a power of two from below
has a mantissa that carries into the exponent. The bits of a number are its mantissa and its exponent
side by side (`eq_ofMagnitude_of_parts`).
-/

set_option autoImplicit false

namespace ModuleStubs

namespace Binary64

/-! ## Powers with integer exponents -/

/-- A power of an integer exponent, cleared of the negative exponent. -/
theorem pow_toNat {b : ℚ} (hb : b ≠ 0) (p : Int) : b ^ p.toNat = b ^ p * b ^ (-p).toNat := by
  have hexponent : (p.toNat : Int) = p + (-p).toNat := by omega
  rw [← zpow_natCast, ← zpow_natCast, ← zpow_add₀ hb, hexponent]

/-- Whether a power of the base is reached, decided in natural numbers. -/
theorem reached_iff {b : Nat} (hb : 0 < b) (n d : Nat) (k : Int) :
    (if 0 ≤ k then d * b ^ k.toNat ≤ n else d ≤ n * b ^ (-k).toNat) ↔ (b : ℚ) ^ k * d ≤ n := by
  have hbase : (0 : ℚ) < b := by exact_mod_cast hb
  have hpos : (0 : ℚ) < (b : ℚ) ^ (-k).toNat := by positivity
  have hscaled : (b : ℚ) ^ k * d ≤ n ↔ d * b ^ k.toNat ≤ n * b ^ (-k).toNat := by
    rw [← mul_le_mul_iff_left₀ hpos, mul_right_comm, ← pow_toNat hbase.ne', mul_comm]
    norm_cast
  rw [hscaled]
  split
  · rename_i hsign
    rw [show (-k).toNat = 0 by omega, Nat.pow_zero, Nat.mul_one]
  · rename_i hsign
    rw [show k.toNat = 0 by omega, Nat.pow_zero, Nat.mul_one]

/-- The power of two that a quotient reaches, and the next one. -/
theorem floorLogTwo_bounds {n d : Nat} (hn : 0 < n) (hd : 0 < d) :
    (2 : ℚ) ^ floorLogTwo n d * d ≤ n ∧ (n : ℚ) < 2 ^ (floorLogTwo n d + 1) * d := by
  have htwo : (2 : ℚ) ≠ 0 := by norm_num
  have hnlow : (2 : ℚ) ^ (n.log2 : Int) ≤ n := by
    rw [zpow_natCast]
    exact_mod_cast Nat.log2_self_le hn.ne'
  have hnhigh : (n : ℚ) < 2 ^ ((n.log2 : Int) + 1) := by
    exact_mod_cast (Nat.lt_log2_self : n < 2 ^ (n.log2 + 1))
  have hdlow : (2 : ℚ) ^ (d.log2 : Int) ≤ d := by
    rw [zpow_natCast]
    exact_mod_cast Nat.log2_self_le hd.ne'
  have hdhigh : (d : ℚ) < 2 ^ ((d.log2 : Int) + 1) := by
    exact_mod_cast (Nat.lt_log2_self : d < 2 ^ (d.log2 + 1))
  generalize hk : (n.log2 : Int) - d.log2 = k
  have hreached := reached_iff (b := 2) (by decide) n d k
  push_cast at hreached
  by_cases hbelow : if 0 ≤ k then n < d * 2 ^ k.toNat else n * 2 ^ (-k).toNat < d
  · have hfloor : floorLogTwo n d = k - 1 := by
      subst hk
      exact if_pos hbelow
    have hnot : ¬ (2 : ℚ) ^ k * d ≤ n := by
      rw [← hreached]
      split at hbelow
      · rename_i hsign
        rwa [if_pos hsign, Nat.not_le]
      · rename_i hsign
        rwa [if_neg hsign, Nat.not_le]
    rw [hfloor, show k - 1 + 1 = k by omega]
    refine ⟨?_, lt_of_not_ge hnot⟩
    calc (2 : ℚ) ^ (k - 1) * d ≤ 2 ^ (k - 1) * 2 ^ ((d.log2 : Int) + 1) := by
          exact mul_le_mul_of_nonneg_left hdhigh.le (by positivity)
      _ = 2 ^ (n.log2 : Int) := by
          rw [← zpow_add₀ htwo, show k - 1 + ((d.log2 : Int) + 1) = n.log2 by omega]
      _ ≤ n := hnlow
  · have hfloor : floorLogTwo n d = k := by
      subst hk
      exact if_neg hbelow
    have hle : (2 : ℚ) ^ k * d ≤ n := by
      rw [← hreached]
      split at hbelow
      · rename_i hsign
        rwa [if_pos hsign, ← Nat.not_lt]
      · rename_i hsign
        rwa [if_neg hsign, ← Nat.not_lt]
    rw [hfloor]
    refine ⟨hle, ?_⟩
    calc (n : ℚ) < 2 ^ ((n.log2 : Int) + 1) := hnhigh
      _ = 2 ^ (k + 1) * 2 ^ (d.log2 : Int) := by
          rw [← zpow_add₀ htwo, show k + 1 + (d.log2 : Int) = n.log2 + 1 by omega]
      _ ≤ 2 ^ (k + 1) * d := mul_le_mul_of_nonneg_left hdlow (by positivity)

/-! ## Rounding a quotient -/

/-- A quotient within half a unit of a number is rounded to it, at the ends if the number is even. -/
theorem roundDiv_eq {n d k : Nat} (hd : 0 < d) (hlow : 2 * k * d ≤ 2 * n + d)
    (hhigh : 2 * n ≤ 2 * k * d + d)
    (hinside : k % 2 = 1 → 2 * k * d < 2 * n + d ∧ 2 * n < 2 * k * d + d) : roundDiv n d = k := by
  have hdiv : d * (n / d) + n % d = n := Nat.div_add_mod n d
  have hrest : n % d < d := Nat.mod_lt n hd
  have hprod : 2 * k * d = 2 * (d * k) := by ring
  rw [hprod] at hlow hhigh hinside
  rw [roundDiv]
  generalize n / d = q at *
  generalize n % d = r at *
  -- only the quotient and its successor are near enough
  have hle : k ≤ q + 1 := by
    by_contra hgt
    have hmul : d * (q + 2) ≤ d * k := Nat.mul_le_mul_left d (by omega)
    rw [Nat.mul_add] at hmul
    omega
  have hge : q ≤ k := by
    by_contra hlt
    have hmul : d * (k + 1) ≤ d * q := Nat.mul_le_mul_left d (by omega)
    rw [Nat.mul_add] at hmul
    omega
  obtain rfl | rfl : k = q ∨ k = q + 1 := by omega
  · rcases Nat.mod_two_eq_zero_or_one k with heven | hodd
    · have hle : 2 * r ≤ d := by omega
      simp only [heven]
      split
      · rfl
      · rw [if_neg (by omega), if_pos trivial]
    · have hlt : 2 * r < d := by
        have := hinside hodd
        omega
      simp only [hlt, if_true]
  · rw [Nat.mul_add, Nat.mul_one] at hlow hhigh hinside
    have hge : d ≤ 2 * r := by omega
    simp only [Nat.not_lt.2 hge, if_false]
    split
    · rfl
    · rename_i htie
      -- a tie goes to the even number, and that is the successor
      have heven : (q + 1) % 2 ≠ 1 := by
        intro hodd
        have := hinside hodd
        omega
      rw [if_neg (by omega)]

/-- The mantissa of a quotient for a given exponent. -/
theorem scaledMantissa_eq {n d k : Nat} (hd : 0 < d) {q : Int} {r : ℚ} (hr : r * d = n)
    (hlow : (2 * k - 1) * (2 : ℚ) ^ q ≤ 2 * r) (hhigh : 2 * r ≤ (2 * k + 1) * (2 : ℚ) ^ q)
    (hinside : k % 2 = 1 →
      (2 * k - 1) * (2 : ℚ) ^ q < 2 * r ∧ 2 * r < (2 * k + 1) * (2 : ℚ) ^ q) :
    (if 0 ≤ q then roundDiv n (d * 2 ^ q.toNat) else roundDiv (n * 2 ^ (-q).toNat) d) = k := by
  have hdiv : (0 : ℚ) < d := by exact_mod_cast hd
  have hpow : (2 : ℚ) ^ q.toNat = 2 ^ q * 2 ^ (-q).toNat := pow_toNat (by norm_num) q
  -- both cases divide the number by the same power, on one side or on the other
  have hboth : (if 0 ≤ q then roundDiv n (d * 2 ^ q.toNat) else roundDiv (n * 2 ^ (-q).toNat) d) =
      roundDiv (n * 2 ^ (-q).toNat) (d * 2 ^ q.toNat) := by
    split
    · rename_i hsign
      rw [show (-q).toNat = 0 by omega, Nat.pow_zero, Nat.mul_one]
    · rename_i hsign
      rw [show q.toNat = 0 by omega, Nat.pow_zero, Nat.mul_one]
  have hscale : (0 : ℚ) < d * 2 ^ (-q).toNat := by positivity
  have hnum : (2 * (n * 2 ^ (-q).toNat : ℕ) : ℚ) = 2 * r * (d * 2 ^ (-q).toNat) := by
    push_cast
    rw [← hr]
    ring
  have hden : ((d * 2 ^ q.toNat : ℕ) : ℚ) = 2 ^ q * (d * 2 ^ (-q).toNat) := by
    push_cast
    rw [hpow]
    ring
  rw [hboth]
  have hunit : 0 < d * 2 ^ q.toNat := by positivity
  generalize n * 2 ^ (-q).toNat = a at *
  generalize d * 2 ^ q.toNat = b at *
  generalize (d : ℚ) * 2 ^ (-q).toNat = s at *
  refine roundDiv_eq hunit ?_ ?_ ?_
  · have h : (2 * k * b : ℚ) ≤ 2 * a + b := by
      rw [hnum, hden]
      nlinarith [mul_le_mul_of_nonneg_right hlow hscale.le]
    exact_mod_cast h
  · have h : (2 * a : ℚ) ≤ 2 * k * b + b := by
      rw [hnum, hden]
      nlinarith [mul_le_mul_of_nonneg_right hhigh hscale.le]
    exact_mod_cast h
  · intro hodd
    obtain ⟨hgt, hlt⟩ := hinside hodd
    constructor
    · have h : (2 * k * b : ℚ) < 2 * a + b := by
        rw [hnum, hden]
        nlinarith [mul_lt_mul_of_pos_right hgt hscale]
      exact_mod_cast h
    · have h : (2 * a : ℚ) < 2 * k * b + b := by
        rw [hnum, hden]
        nlinarith [mul_lt_mul_of_pos_right hlt hscale]
      exact_mod_cast h

/-! ## The interval of a number -/

/-- A mantissa and an exponent as the bits of a number have them: the mantissa has its full length unless
the exponent is the least one. -/
structure IsNormal (m : Nat) (e : Int) : Prop where
  lt : m < 2 ^ 53
  least : -1074 ≤ e
  greatest : e ≤ 971
  full : 2 ^ 52 ≤ m ∨ e = -1074

/-- The quarters of a unit from a number down to the start of its interval. -/
def gap (m : Nat) (e : Int) : Nat := if m = 2 ^ 52 ∧ -1074 < e then 1 else 2

theorem gap_bounds (m : Nat) (e : Int) : 1 ≤ gap m e ∧ gap m e ≤ 2 := by
  rw [gap]
  split <;> omega

/-- A rational rounds to the number `m * 2 ^ e`. -/
structure Near (m : Nat) (e : Int) (r : ℚ) : Prop where
  low : (4 * m - gap m e) * (2 : ℚ) ^ e ≤ 4 * r
  high : 4 * r ≤ (4 * m + 2) * (2 : ℚ) ^ e
  inside : m % 2 = 1 → (4 * m - gap m e) * (2 : ℚ) ^ e < 4 * r ∧ 4 * r < (4 * m + 2) * (2 : ℚ) ^ e

section Near

variable {m : Nat} {e : Int} {r : ℚ}

theorem Near.pos (h : Near m e r) (hm : 0 < m) : 0 < r := by
  have hpow : (0 : ℚ) < 2 ^ e := by positivity
  have hmantissa : (1 : ℚ) ≤ m := by exact_mod_cast hm
  have hgap : (gap m e : ℚ) ≤ 2 := by exact_mod_cast (gap_bounds m e).2
  nlinarith [h.low]

/-- A quotient that rounds to a number lies below the power of two above that number. -/
theorem Near.lt (h : Near m e r) (hnormal : IsNormal m e) : r < 2 ^ (e + 53) := by
  have hpow : (0 : ℚ) < 2 ^ e := by positivity
  have hmantissa : (m : ℚ) + 1 ≤ 2 ^ 53 := by exact_mod_cast hnormal.lt
  rw [zpow_add₀ (by norm_num)]
  norm_num at hmantissa ⊢
  nlinarith [h.high]

theorem two_zpow_lt {a b : Int} (h : (2 : ℚ) ^ a < 2 ^ b) : a < b :=
  (zpow_lt_zpow_iff_right₀ (by norm_num)).1 h

end Near

/-- The exponent to which a quotient in the interval of a number is rounded: that of the number, or the one
below it where a quotient just below a power of two is rounded up to it. -/
theorem roundedExponent_cases {m : Nat} {e : Int} (hnormal : IsNormal m e) {n d : Nat} (hn : 0 < n)
    (hd : 0 < d) {r : ℚ} (hr : r * d = n) (h : Near m e r) :
    max (floorLogTwo n d - 52) (-1074) = e ∨
      max (floorLogTwo n d - 52) (-1074) = e - 1 ∧ m = 2 ^ 52 ∧ -1074 < e ∧ r < 2 ^ (e + 52) := by
  have hdiv : (0 : ℚ) < d := by exact_mod_cast hd
  have hpow : (0 : ℚ) < 2 ^ e := by positivity
  obtain ⟨hlow, hhigh⟩ := floorLogTwo_bounds hn hd
  rw [← hr] at hlow hhigh
  replace hlow : (2 : ℚ) ^ floorLogTwo n d ≤ r := le_of_mul_le_mul_right hlow hdiv
  replace hhigh : r < (2 : ℚ) ^ (floorLogTwo n d + 1) := lt_of_mul_lt_mul_right hhigh hdiv.le
  generalize floorLogTwo n d = k at *
  have hupper : k < e + 53 := two_zpow_lt (hlow.trans_lt (h.lt hnormal))
  have hleast := hnormal.least
  -- with the least exponent there is nothing below
  by_cases hlast : e = -1074
  · left
    omega
  have hfull : 2 ^ 52 ≤ m := hnormal.full.resolve_right hlast
  by_cases hpower : m = 2 ^ 52
  · have hlower : e + 51 < k + 1 := by
      refine two_zpow_lt (lt_of_le_of_lt ?_ hhigh)
      have hstart := h.low
      rw [gap, if_pos ⟨hpower, by omega⟩, hpower] at hstart
      rw [zpow_add₀ (by norm_num)]
      norm_num at hstart ⊢
      nlinarith
    by_cases hbelow : k = e + 51
    · right
      refine ⟨by omega, hpower, by omega, ?_⟩
      rwa [hbelow, show e + 51 + 1 = e + 52 by omega] at hhigh
    · left
      omega
  · have hlower : e + 52 < k + 1 := by
      refine two_zpow_lt (lt_of_le_of_lt ?_ hhigh)
      have hmantissa : (2 : ℚ) ^ 52 + 1 ≤ m := by
        exact_mod_cast (show 2 ^ 52 + 1 ≤ m by omega)
      have hscaled := mul_le_mul_of_nonneg_right hmantissa hpow.le
      have hstart := h.low
      rw [gap, if_neg (by omega)] at hstart
      rw [zpow_add₀ (by norm_num)]
      norm_num at hstart hscaled ⊢
      linarith
    left
    omega

/-- A quotient in the interval of a number is rounded to it. -/
theorem ofRatio_of_near {m : Nat} {e : Int} (hnormal : IsNormal m e) (hm : 0 < m) {n d : Nat}
    (hd : 0 < d) {r : ℚ} (hr : r * d = n) (h : Near m e r) (negative : Bool) :
    ofRatio negative n d = ofMagnitude negative ((e + 1074).toNat * 2 ^ 52 + m) := by
  have hdiv : (0 : ℚ) < d := by exact_mod_cast hd
  have hpow : (0 : ℚ) < 2 ^ e := by positivity
  have hn : 0 < n := by
    have hprod : 0 < r * d := mul_pos (h.pos hm) hdiv
    rw [hr] at hprod
    exact_mod_cast hprod
  have hgap : (gap m e : ℚ) ≤ 2 := by exact_mod_cast (gap_bounds m e).2
  have hlt := hnormal.lt
  have hleast := hnormal.least
  have hgreatest := hnormal.greatest
  rw [ofRatio, if_neg hn.ne']
  rcases roundedExponent_cases hnormal hn hd hr h with hexponent | ⟨hexponent, hpower, hlast, hbelow⟩
  · have hmantissa := scaledMantissa_eq (k := m) hd (q := e) hr (by nlinarith [h.low])
      (by nlinarith [h.high]) (fun hodd => by
        obtain ⟨hstart, hend⟩ := h.inside hodd
        constructor <;> nlinarith)
    simp only [hexponent, hmantissa, Nat.pow_eq]
    rw [if_neg (by omega)]
  · -- the mantissa is rounded up to the next power of two
    have hhalf : (2 : ℚ) ^ e = 2 ^ (e - 1) * 2 := by
      rw [← zpow_add_one₀ (by norm_num), show e - 1 + 1 = e by omega]
    have hmantissa := scaledMantissa_eq (k := 2 ^ 53) hd (q := e - 1) hr
      (by
        have hstart := h.low
        rw [gap, if_pos ⟨hpower, hlast⟩, hpower, hhalf] at hstart
        push_cast at hstart ⊢
        linarith)
      (by
        rw [zpow_add₀ (by norm_num), hhalf] at hbelow
        norm_num at hbelow ⊢
        have hpos : (0 : ℚ) < 2 ^ (e - 1) := by positivity
        linarith)
      (fun hodd => absurd hodd (by decide))
    have hcarry : (e - 1 + 1074).toNat * 2 ^ 52 + 2 ^ 53 = (e + 1074).toNat * 2 ^ 52 + m := by omega
    simp only [hexponent, hmantissa, Nat.pow_eq]
    rw [if_neg (by omega), hcarry]

/-! ## The parts of a number -/

section Parts

variable {x : Binary64} {negative : Bool} {m : Nat} {e : Int}

theorem isNormal_of_parts (h : x.parts = .finite negative m e) : IsNormal m e := by
  have hfraction : x.bits.toNat % 2 ^ 52 < 2 ^ 52 := Nat.mod_lt _ (by decide)
  have hexponent : x.bits.toNat / 2 ^ 52 % 2048 < 2048 := Nat.mod_lt _ (by decide)
  simp only [parts, Nat.pow_eq] at h
  split at h
  · split at h <;> contradiction
  · split at h
    · obtain ⟨-, rfl, rfl⟩ := Parts.finite.inj h
      constructor <;> omega
    · obtain ⟨-, rfl, rfl⟩ := Parts.finite.inj h
      constructor <;> omega

/-- A number is made of the bits that its sign and its magnitude give. -/
theorem eq_ofMagnitude {k : Nat}
    (h : x.bits.toNat = if negative then k + 2 ^ 63 else k) : x = ofMagnitude negative k := by
  have hbits : x.bits = UInt64.ofNat (if negative then k + 2 ^ 63 else k) := by
    rw [← h, UInt64.ofNat_toNat]
  cases x
  rw [ofMagnitude]
  exact congrArg Binary64.mk hbits

theorem eq_ofMagnitude_of_parts (h : x.parts = .finite negative m e) :
    x = ofMagnitude negative ((e + 1074).toNat * 2 ^ 52 + m) := by
  have hlt : x.bits.toNat < 2 ^ 64 := x.bits.toNat_lt
  apply eq_ofMagnitude
  simp only [parts, Nat.pow_eq] at h
  split at h
  · split at h <;> contradiction
  · split at h
    · obtain ⟨rfl, rfl, rfl⟩ := Parts.finite.inj h
      simp only [decide_eq_true_eq]
      split <;> omega
    · obtain ⟨rfl, rfl, rfl⟩ := Parts.finite.inj h
      simp only [decide_eq_true_eq]
      split <;> omega

theorem eq_infinity_of_parts (h : x.parts = .infinite negative) : x = infinity negative := by
  have hlt : x.bits.toNat < 2 ^ 64 := x.bits.toNat_lt
  apply eq_ofMagnitude
  simp only [parts, Nat.pow_eq] at h
  split at h
  · split at h
    · obtain rfl := Parts.infinite.inj h
      simp only [decide_eq_true_eq]
      split <;> omega
    · contradiction
  · split at h <;> contradiction

end Parts

theorem bits_of_parts_nan {x : Binary64} (h : x.parts = .nan) :
    x.bits.toNat / 2 ^ 52 % 2048 = 2047 ∧ x.bits.toNat % 2 ^ 52 ≠ 0 := by
  simp only [parts, Nat.pow_eq] at h
  split at h
  · rename_i hexponent
    split at h
    · contradiction
    · rename_i hfraction
      exact ⟨hexponent, hfraction⟩
  · split at h <;> contradiction

/-- Magnitudes up to that of an infinity are numbers. -/
theorem isNaN_ofMagnitude (negative : Bool) {k : Nat} (hk : k ≤ 2047 * 2 ^ 52) :
    (ofMagnitude negative k).isNaN = false := by
  have hbits : (ofMagnitude negative k).bits.toNat = if negative then k + 2 ^ 63 else k := by
    simp only [ofMagnitude, UInt64.toNat_ofNat', Nat.pow_eq]
    split <;> omega
  refine beq_eq_false_iff_ne.2 fun hnan => ?_
  obtain ⟨hexponent, hfraction⟩ := bits_of_parts_nan hnan
  rw [hbits] at hexponent hfraction
  cases negative with
  | true =>
      rw [if_pos rfl] at hexponent hfraction
      omega
  | false =>
      rw [if_neg Bool.false_ne_true] at hexponent hfraction
      omega

theorem isNaN_ofRatio (negative : Bool) (n d : Nat) : (ofRatio negative n d).isNaN = false := by
  have hlargest : 0x7FF0000000000000 ≤ 2047 * 2 ^ 52 := by norm_num
  have hcapped : ∀ k, (if 2047 * 2 ^ 52 ≤ k then infinity negative
      else ofMagnitude negative k).isNaN = false := by
    intro k
    split
    · exact isNaN_ofMagnitude negative hlargest
    · rename_i hfinite
      exact isNaN_ofMagnitude negative (Nat.le_of_lt (Nat.lt_of_not_le hfinite))
  rw [ofRatio]
  split
  · exact isNaN_ofMagnitude negative (Nat.zero_le _)
  · exact hcapped _

end Binary64

end ModuleStubs
