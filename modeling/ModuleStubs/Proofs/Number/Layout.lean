import Mathlib.Tactic.GCongr
import ModuleStubs.Number.Layout
import ModuleStubs.Proofs.Grammar.Tokens
import ModuleStubs.Proofs.Number.Nearest

/-!
# The texts of finite numbers

The text of a finite number is a numeral that denotes it (`numeral_text`), in either of the two layouts.
What is laid out are the digits of a decimal that rounds to the number (`near_shortest`). The search for
them ends before it runs out of grids, because the grid of seventeen digits behind the first one is finer
than the interval of the reals that round to the number (`mid_add_unit_lt`).
-/

set_option autoImplicit false

namespace ModuleStubs

namespace Binary64

open Grammar (Digits Exponent Fraction Numeral Whole digits_decimal whole_of_digits)

/-! ## The grid that is fine enough -/

/-- The exponent of the first digit is not too large. -/
theorem ten_pow_floorLogTen_le {n d : Nat} (hn : 0 < n) :
    (10 : ℚ) ^ floorLogTen n d * d ≤ n := by
  have hten : (10 : ℚ) ≠ 0 := by norm_num
  have hd : (d : ℚ) < 10 ^ (digitCount d : Int) := by
    rw [zpow_natCast]
    exact_mod_cast lt_ten_pow_digitCount d
  have hn : (10 : ℚ) ^ (digitCount n : Int) ≤ 10 * n := by
    rw [zpow_natCast]
    exact_mod_cast ten_pow_digitCount_le hn
  generalize hk : (digitCount n : Int) - digitCount d = k
  by_cases hreached : if 0 ≤ k then d * 10 ^ k.toNat ≤ n else d ≤ n * 10 ^ (-k).toNat
  · have hfloor : floorLogTen n d = k := by
      subst hk
      exact if_pos hreached
    rw [hfloor]
    exact_mod_cast (reached_iff (by decide) n d k).1 hreached
  · have hfloor : floorLogTen n d = k - 1 := by
      subst hk
      exact if_neg hreached
    have hpos : (0 : ℚ) < 10 ^ (k - 1) := by positivity
    rw [hfloor]
    calc (10 : ℚ) ^ (k - 1) * d ≤ 10 ^ (k - 1) * 10 ^ (digitCount d : Int) :=
          mul_le_mul_of_nonneg_left hd.le hpos.le
      _ = 10 ^ (digitCount n : Int) / 10 := by
          rw [← zpow_add₀ hten, show k - 1 + digitCount d = (digitCount n : Int) - 1 by omega,
            zpow_sub_one₀ hten, div_eq_mul_inv]
      _ ≤ n := by linarith

section Grid

variable (m : Nat) (e p : Int)

theorem grid_unit : (grid m e p).unit = 10 ^ p.toNat * 2 ^ (-(e - 2)).toNat := rfl

theorem grid_low :
    (grid m e p).low = (4 * m - gap m e) * (10 ^ (-p).toNat * 2 ^ (e - 2).toNat) := rfl

theorem grid_high : (grid m e p).high = (4 * m + 2) * (10 ^ (-p).toNat * 2 ^ (e - 2).toNat) := rfl

end Grid

/-- On a grid that is finer than half of the distance to the next number, the next point above the number
rounds to it. -/
theorem mid_add_unit_lt {m : Nat} {e p : Int} (h : 2 * (10 : ℚ) ^ p < 2 ^ e) :
    (grid m e p).mid + (grid m e p).unit < (grid m e p).high := by
  have htwo : (2 : ℚ) ≠ 0 := by norm_num
  have hpos : (0 : ℚ) < 10 ^ (-p).toNat * 2 ^ (-(e - 2)).toNat := by positivity
  have hunit : (10 : ℚ) ^ p.toNat * 2 ^ (-(e - 2)).toNat <
      2 * (10 ^ (-p).toNat * 2 ^ (e - 2).toNat) := by
    calc (10 : ℚ) ^ p.toNat * 2 ^ (-(e - 2)).toNat
        = 10 ^ p * (10 ^ (-p).toNat * 2 ^ (-(e - 2)).toNat) := by
          rw [pow_toNat (by norm_num) p, mul_assoc]
      _ < 2 ^ e / 2 * (10 ^ (-p).toNat * 2 ^ (-(e - 2)).toNat) :=
          mul_lt_mul_of_pos_right (by linarith) hpos
      _ = 2 * (10 ^ (-p).toNat * (2 ^ (e - 2) * 2 ^ (-(e - 2)).toNat)) := by
          rw [zpow_sub₀ htwo]
          ring
      _ = 2 * (10 ^ (-p).toNat * 2 ^ (e - 2).toNat) := by rw [pow_toNat htwo (e - 2)]
  have hnat : 10 ^ p.toNat * 2 ^ (-(e - 2)).toNat < 2 * (10 ^ (-p).toNat * 2 ^ (e - 2).toNat) := by
    exact_mod_cast hunit
  simp only [grid, Nat.pow_eq]
  rw [Nat.add_mul]
  omega

/-- The interval starts below the number. -/
theorem low_lt_mid {m : Nat} (hm : 0 < m) (e p : Int) : (grid m e p).low < (grid m e p).mid := by
  have hscale : 0 < 10 ^ (-p).toNat * 2 ^ (e - 2).toNat := by positivity
  have hgap := (gap_bounds m e).1
  exact Nat.mul_lt_mul_of_pos_right (show 4 * m - gap m e < 4 * m by omega) hscale

/-! ## The search -/

/-- The next point above the number is a candidate. -/
theorem Grid.isSome_candidate? {g : Grid} (hlow : g.low < g.mid) (hunit : 0 < g.unit)
    (hhigh : g.mid + g.unit < g.high) : g.candidate?.isSome = true := by
  have habove : g.mid < (g.mid / g.unit + 1) * g.unit :=
    Nat.lt_mul_of_div_lt (Nat.lt_succ_self _) hunit
  have hnear : (g.mid / g.unit + 1) * g.unit ≤ g.mid + g.unit := by
    rw [Nat.succ_mul]
    exact Nat.add_le_add_right (Nat.div_mul_le_self g.mid g.unit) g.unit
  have hholds : g.holds (g.mid / g.unit + 1) = true := by
    rw [Grid.holds]
    split <;> simp <;> omega
  simp only [Grid.candidate?, hholds]
  cases g.holds (g.mid / g.unit) with
  | false => rfl
  | true =>
      simp only
      split
      · rfl
      · split
        · rfl
        · split <;> rfl

/-- A candidate lies in the interval. -/
theorem Grid.holds_of_candidate? {g : Grid} {c : Nat} (h : g.candidate? = some c) :
    g.holds c = true := by
  simp only [Grid.candidate?] at h
  grind

/-- A point of a grid that lies in the interval rounds to the number. -/
theorem near_of_holds {m : Nat} (hm : 0 < m) {e p : Int} {c : Nat}
    (h : (grid m e p).holds c = true) : Near m e (c * 10 ^ p) := by
  have hten := pow_toNat (b := 10) (by norm_num) p
  have htwo := pow_toNat (b := 2) (by norm_num) (e - 2)
  have hquarter : (2 : ℚ) ^ e = 2 ^ (e - 2) * 4 := by
    rw [zpow_sub₀ (by norm_num)]
    norm_num
  have hscale : (0 : ℚ) < 10 ^ (-p).toNat * 2 ^ (-(e - 2)).toNat := by positivity
  -- what the grid compares are the two sides times one and the same factor
  have hunit : ((c * (10 ^ p.toNat * 2 ^ (-(e - 2)).toNat) : ℕ) : ℚ) =
      c * 10 ^ p * (10 ^ (-p).toNat * 2 ^ (-(e - 2)).toNat) := by
    push_cast
    rw [hten]
    ring
  have hlevel : ∀ k : Nat, ((k * (10 ^ (-p).toNat * 2 ^ (e - 2).toNat) : ℕ) : ℚ) =
      k * 2 ^ (e - 2) * (10 ^ (-p).toNat * 2 ^ (-(e - 2)).toNat) := by
    intro k
    push_cast
    rw [htwo]
    ring
  have hlow : ((4 * m - gap m e : ℕ) : ℚ) = 4 * m - gap m e := by
    have hle := (gap_bounds m e).2
    rw [Nat.cast_sub (by omega)]
    push_cast
    ring
  have hle : ∀ {a b : ℚ}, a * (10 ^ (-p).toNat * 2 ^ (-(e - 2)).toNat) ≤
      b * (10 ^ (-p).toNat * 2 ^ (-(e - 2)).toNat) ↔ a ≤ b := mul_le_mul_iff_left₀ hscale
  have hlt : ∀ {a b : ℚ}, a * (10 ^ (-p).toNat * 2 ^ (-(e - 2)).toNat) <
      b * (10 ^ (-p).toNat * 2 ^ (-(e - 2)).toNat) ↔ a < b := mul_lt_mul_iff_left₀ hscale
  rw [Grid.holds] at h
  split at h
  · rename_i heven
    replace heven : m % 2 = 0 := beq_iff_eq.1 heven
    simp only [Bool.and_eq_true, decide_eq_true_eq] at h
    rw [grid_low, grid_high, grid_unit] at h
    rw [← Nat.cast_le (α := ℚ), ← Nat.cast_le (α := ℚ), hunit, hlevel, hlevel, hle, hle, hlow] at h
    push_cast at h
    obtain ⟨hstart, hend⟩ := h
    refine ⟨?_, ?_, fun hodd => absurd hodd (by omega)⟩
    · rw [hquarter]
      linarith
    · rw [hquarter]
      linarith
  · simp only [Bool.and_eq_true, decide_eq_true_eq] at h
    rw [grid_low, grid_high, grid_unit] at h
    rw [← Nat.cast_lt (α := ℚ), ← Nat.cast_lt (α := ℚ), hunit, hlevel, hlevel, hlt, hlt, hlow] at h
    push_cast at h
    obtain ⟨hstart, hend⟩ := h
    have hinside : (4 * m - gap m e) * (2 : ℚ) ^ e < 4 * (c * 10 ^ p) ∧
        4 * (c * 10 ^ p) < (4 * m + 2) * (2 : ℚ) ^ e := by
      rw [hquarter]
      constructor <;> linarith
    exact ⟨hinside.1.le, hinside.2.le, fun _ => hinside⟩

/-- The search ends with a decimal that rounds to the number, if the last grid has one. -/
theorem near_searchGrids {m : Nat} (hm : 0 < m) {e : Int} (fuel : Nat) (p : Int)
    (h : (grid m e (p - fuel)).candidate?.isSome = true) :
    Near m e ((searchGrids m e (fuel + 1) p).1 * 10 ^ (searchGrids m e (fuel + 1) p).2) := by
  induction fuel generalizing p with
  | zero =>
      obtain ⟨c, hc⟩ := Option.isSome_iff_exists.1 h
      rw [show p - (0 : Nat) = p by omega] at hc
      rw [searchGrids, hc]
      exact near_of_holds hm (Grid.holds_of_candidate? hc)
  | succ fuel ih =>
      rw [searchGrids]
      split
      · rename_i c hc
        exact near_of_holds hm (Grid.holds_of_candidate? hc)
      · refine ih (p - 1) ?_
        rwa [show p - 1 - fuel = p - (fuel + 1 : Nat) by omega]

/-- Zeros at the end do not count. -/
theorem value_dropZeros (c : Nat) (p : Int) :
    ((dropZeros c p).1 : ℚ) * 10 ^ (dropZeros c p).2 = c * 10 ^ p := by
  fun_induction dropZeros c p with
  | case1 c p h ih =>
      have hdigits : (c : ℚ) = (c / 10 : ℕ) * 10 := by exact_mod_cast (show c = c / 10 * 10 by omega)
      rw [ih, zpow_add_one₀ (by norm_num), hdigits]
      ring
  | case2 c p h => rfl

/-- The exponent with which the search starts is not too large. -/
theorem ten_pow_start_le {m : Nat} (hm : 0 < m) (e : Int) :
    (10 : ℚ) ^ floorLogTen (if 0 ≤ e then m * 2 ^ e.toNat else m)
      (if 0 ≤ e then 1 else 2 ^ (-e).toNat) ≤ m * 2 ^ e := by
  have hpow := pow_toNat (b := 2) (by norm_num) e
  by_cases hsign : 0 ≤ e
  · rw [if_pos hsign, if_pos hsign]
    have hle := ten_pow_floorLogTen_le (n := m * 2 ^ e.toNat) (d := 1) (by positivity)
    rw [show (-e).toNat = 0 by omega, pow_zero, mul_one] at hpow
    push_cast at hle
    rwa [mul_one, hpow] at hle
  · rw [if_neg hsign, if_neg hsign]
    have hle := ten_pow_floorLogTen_le (n := m) (d := 2 ^ (-e).toNat) hm
    have hpos : (0 : ℚ) < 2 ^ (-e).toNat := by positivity
    rw [show e.toNat = 0 by omega, pow_zero] at hpow
    push_cast at hle
    refine le_of_mul_le_mul_right ?_ hpos
    rwa [mul_assoc, ← hpow, mul_one]

/-- Seventeen digits behind the first one are enough. -/
theorem two_mul_ten_pow_lt {m : Nat} (hbound : m < 2 ^ 53) {e k : Int}
    (h : (10 : ℚ) ^ k ≤ m * 2 ^ e) : 2 * (10 : ℚ) ^ (k - 17) < 2 ^ e := by
  have hpos : (0 : ℚ) < 2 ^ e := by positivity
  have hm : (m : ℚ) ≤ 2 ^ 53 := by exact_mod_cast hbound.le
  have hk : (10 : ℚ) ^ k ≤ 2 ^ 53 * 2 ^ e := h.trans (mul_le_mul_of_nonneg_right hm hpos.le)
  calc 2 * (10 : ℚ) ^ (k - 17) = 2 * 10 ^ k / 10 ^ 17 := by
        rw [zpow_sub₀ (by norm_num), mul_div_assoc]
        norm_cast
    _ ≤ 2 * (2 ^ 53 * 2 ^ e) / 10 ^ 17 := by gcongr
    _ = 2 ^ 54 / 10 ^ 17 * 2 ^ e := by ring
    _ < 2 ^ e := (mul_lt_iff_lt_one_left hpos).2 (by norm_num)

/-- The shortest decimal of a positive number rounds to it. -/
theorem near_shortest {m : Nat} (hm : 0 < m) (hbound : m < 2 ^ 53) (e : Int) :
    Near m e ((shortest m e).1 * 10 ^ (shortest m e).2) := by
  simp only [shortest, Nat.pow_eq]
  have hstart := ten_pow_start_le hm e
  generalize floorLogTen _ _ = k at hstart ⊢
  have hunit : 0 < (grid m e (k - 17)).unit := by
    simp only [grid, Nat.pow_eq]
    positivity
  have hlast := Grid.isSome_candidate? (low_lt_mid hm e _) hunit
    (mid_add_unit_lt (two_mul_ten_pow_lt hbound hstart))
  rw [value_dropZeros]
  exact near_searchGrids hm 17 k hlast

theorem shortest_pos {m : Nat} (hm : 0 < m) (hbound : m < 2 ^ 53) (e : Int) :
    0 < (shortest m e).1 := by
  have hpos := (near_shortest hm hbound e).pos hm
  refine Nat.pos_of_ne_zero fun hzero => ?_
  rw [hzero, Nat.cast_zero, zero_mul] at hpos
  exact lt_irrefl _ hpos

/-! ## Layouts -/

/-- A numeral without a sign that is not that of an integer, and what it is worth. -/
def IsUnsigned (t : Text) (r : ℚ) : Prop :=
  ∃ w f e fraction exponent, t = w ++ (f ++ e) ∧ Whole w ∧ Fraction f fraction ∧
    Exponent e exponent ∧ (fraction.isSome ∨ exponent.isSome) ∧
    r = digitsValue (w ++ fraction.getD []) * 10 ^ (exponent.getD 0 - (fraction.getD []).length)

theorem digitsValue_append (s t : Text) :
    digitsValue (s ++ t) = digitsValue s * 10 ^ t.length + digitsValue t := by
  induction t using List.reverseRecOn with
  | nil => simp [digitsValue]
  | append_singleton t c ih =>
      simp only [digitsValue, List.foldl_append, List.foldl_cons, List.foldl_nil,
        List.length_append, List.length_singleton] at ih ⊢
      rw [ih, Nat.pow_succ]
      ring

theorem digitsValue_zeros (n : Nat) : digitsValue (zeros n) = 0 := by
  induction n with
  | zero => rfl
  | succ n ih =>
      rw [show zeros (n + 1) = zeros 1 ++ zeros n from rfl, digitsValue_append, ih,
        show digitsValue (zeros 1) = 0 from rfl, Nat.zero_mul]

theorem digitsValue_zeros_append (n : Nat) (t : Text) :
    digitsValue (zeros n ++ t) = digitsValue t := by
  rw [digitsValue_append, digitsValue_zeros, Nat.zero_mul, Nat.zero_add]

theorem digits_zeros_append (n : Nat) {ds : Text} (h : Digits ds) : Digits (zeros n ++ ds) := by
  refine ⟨List.append_ne_nil_of_right_ne_nil _ h.1, ?_⟩
  intro c hc
  rcases List.mem_append.1 hc with hzero | hdigit
  · rw [List.eq_of_mem_replicate hzero]
    decide
  · exact h.2 c hdigit

theorem digits_zero : Digits (zeros 1) := ⟨List.cons_ne_nil _ [], by decide⟩

theorem isUnsigned_fraction {w ds : Text} (hw : Whole w) (h : Digits ds) :
    IsUnsigned (w ++ CodePoint.ofChar '.' :: ds)
      (digitsValue (w ++ ds) * 10 ^ (-(ds.length : Int))) := by
  refine ⟨w, _, [], _, _, by rw [List.append_nil], hw, .present h, .absent, Or.inl rfl, ?_⟩
  simp only [Option.getD_some, Option.getD_none, zero_sub]

theorem exponent_exponentText (e : Int) : Exponent (exponentText e) (some e) := by
  have hdigits := digits_zeros_append (2 - (decimal e.natAbs).length) (digits_decimal e.natAbs)
  have hvalue : digitsValue (zeros (2 - (decimal e.natAbs).length) ++ decimal e.natAbs) = e.natAbs := by
    rw [digitsValue_zeros_append, digitsValue_decimal]
  rw [exponentText]
  split
  · have hexponent := Exponent.minus (c := CodePoint.ofChar 'e') (Or.inl rfl) hdigits
    rwa [hvalue, show -(e.natAbs : Int) = e by omega] at hexponent
  · have hexponent := Exponent.plus (c := CodePoint.ofChar 'e') (Or.inl rfl) hdigits
    rwa [hvalue, show (e.natAbs : Int) = e by omega] at hexponent

section Layouts

variable {ds : Text} (h : Digits ds) (hhead : ∀ c ∈ ds.head?, c ≠ '0')
include h hhead

theorem isUnsigned_positional (e : Int) :
    IsUnsigned (positional ds e) (digitsValue ds * 10 ^ (e + 1 - ds.length)) := by
  obtain ⟨hne, hdigits⟩ := h
  have hheads : ∀ t, (ds ++ t).head? = ds.head? := fun t => List.head?_append_of_ne_nil ds hne
  rw [positional]
  split
  · have hunsigned := isUnsigned_fraction .zero (digits_zeros_append ((-e).toNat - 1) ⟨hne, hdigits⟩)
    have hvalue : digitsValue ([CodePoint.ofChar '0'] ++ (zeros ((-e).toNat - 1) ++ ds)) =
        digitsValue ds := by
      rw [show [CodePoint.ofChar '0'] = zeros 1 from rfl, digitsValue_zeros_append,
        digitsValue_zeros_append]
    have hexponent : -((zeros ((-e).toNat - 1) ++ ds).length : Int) = e + 1 - ds.length := by
      rw [List.length_append, zeros, List.length_replicate]
      omega
    rwa [hvalue, hexponent] at hunsigned
  · simp only
    split
    · have hw : Whole (ds ++ zeros (e.toNat + 1 - ds.length)) := by
        refine whole_of_digits ⟨List.append_ne_nil_of_left_ne_nil hne _, ?_⟩ ?_
        · intro c hc
          rcases List.mem_append.1 hc with hdigit | hzero
          · exact hdigits c hdigit
          · rw [List.eq_of_mem_replicate hzero]
            decide
        · rwa [hheads]
      have hunsigned := isUnsigned_fraction hw digits_zero
      have hvalue : (digitsValue (ds ++ zeros (e.toNat + 1 - ds.length) ++ zeros 1) : ℚ) =
          digitsValue ds * 10 ^ (e + 2 - ds.length) := by
        rw [List.append_assoc, digitsValue_append, zeros, zeros, ← List.replicate_add,
          ← zeros, digitsValue_zeros, zeros, List.length_replicate]
        push_cast
        rw [add_zero, ← zpow_natCast]
        congr 2
        omega
      rw [hvalue, mul_assoc, ← zpow_add₀ (by norm_num)] at hunsigned
      rwa [show e + 2 - (ds.length : Int) + -((zeros 1).length : Int) = e + 1 - ds.length by
        rw [zeros, List.length_replicate]; omega] at hunsigned
    · rename_i hlength
      have htake : Whole (ds.take (e.toNat + 1)) := by
        refine whole_of_digits ⟨?_, fun c hc => hdigits c (List.mem_of_mem_take hc)⟩ ?_
        · simpa using hne
        · rwa [List.head?_take, if_neg (Nat.succ_ne_zero _)]
      have hdrop : Digits (ds.drop (e.toNat + 1)) := by
        refine ⟨?_, fun c hc => hdigits c (List.mem_of_mem_drop hc)⟩
        rw [Ne, List.drop_eq_nil_iff]
        omega
      have hunsigned := isUnsigned_fraction htake hdrop
      rw [List.take_append_drop, List.length_drop,
        show -((ds.length - (e.toNat + 1) : ℕ) : Int) = e + 1 - ds.length by omega] at hunsigned
      rwa [List.append_assoc]

theorem isUnsigned_scientific (e : Int) :
    IsUnsigned (scientific ds e) (digitsValue ds * 10 ^ (e + 1 - ds.length)) := by
  have hexponent := exponent_exponentText e
  obtain ⟨hne, hdigits⟩ := h
  cases ds with
  | nil => contradiction
  | cons d ds =>
      have hfirst : Whole [d] := by
        refine .digits (hhead d rfl) ⟨List.cons_ne_nil d [], ?_⟩
        exact List.forall_mem_singleton.2 (hdigits d List.mem_cons_self)
      cases ds with
      | nil =>
          refine ⟨[d], [], _, none, some e, rfl, hfirst, .absent, hexponent, Or.inr rfl, ?_⟩
          simp
      | cons d' ds =>
          have hlater : Digits (d' :: ds) :=
            ⟨List.cons_ne_nil d' ds, fun c hc => hdigits c (List.mem_cons_of_mem d hc)⟩
          refine ⟨[d], _, _, _, some e, rfl, hfirst, .present hlater, hexponent, Or.inr rfl, ?_⟩
          simp only [Option.getD_some, List.singleton_append, List.length_cons]
          congr 2
          push_cast
          ring

end Layouts

/-- The text of a positive number is worth its shortest decimal. -/
theorem isUnsigned_magnitudeText {m : Nat} (hm : 0 < m) (hbound : m < 2 ^ 53) (e : Int) :
    IsUnsigned (magnitudeText m e) ((shortest m e).1 * 10 ^ (shortest m e).2) := by
  have hdigits := digits_decimal (shortest m e).1
  have hhead := head?_decimal_ne_zero (shortest m e).1 (shortest_pos hm hbound e)
  have hvalue := digitsValue_decimal (shortest m e).1
  simp only [magnitudeText]
  generalize decimal (shortest m e).1 = ds at *
  generalize hfirst : (shortest m e).2 + (ds.length : Int) - 1 = first
  rw [← hvalue, show (shortest m e).2 = first + 1 - ds.length by omega]
  split
  · exact isUnsigned_positional hdigits hhead first
  · exact isUnsigned_scientific hdigits hhead first

/-- A decimal that rounds to a number denotes it. -/
theorem nearest_of_near {m : Nat} {e : Int} (hnormal : IsNormal m e) (hm : 0 < m) {n : Nat} {p : Int}
    (h : Near m e (n * 10 ^ p)) (negative : Bool) :
    Grammar.nearest negative n p = ofMagnitude negative ((e + 1074).toNat * 2 ^ 52 + m) := by
  refine ofRatio_of_near hnormal hm (by positivity) ?_ h negative
  push_cast
  rw [pow_toNat (b := 10) (by norm_num) p]
  ring

/-- The text of a finite number is a numeral that denotes it. -/
theorem numeral_text {x : Binary64} {negative : Bool} {m : Nat} {e : Int}
    (h : x.parts = .finite negative m e) : Numeral x.text (.float x) := by
  have hnormal := isNormal_of_parts h
  have hbits := eq_ofMagnitude_of_parts h
  -- the text without the sign, and why it denotes the number
  obtain ⟨r, hunsigned, hnear⟩ : ∃ r : ℚ,
      IsUnsigned (if m = 0 then lit "0.0" else magnitudeText m e) r ∧
      ∀ (n : Nat) (p : Int), r = n * 10 ^ p → Grammar.nearest negative n p = x := by
    split
    · rename_i hzero
      have hleast : e = -1074 := hnormal.full.resolve_left (by omega)
      have hunsigned := isUnsigned_fraction .zero digits_zero
      refine ⟨_, hunsigned, fun n p hvalue => ?_⟩
      have hn : n = 0 := by
        rw [show [CodePoint.ofChar '0'] ++ zeros 1 = zeros 2 from rfl, digitsValue_zeros,
          Nat.cast_zero, zero_mul] at hvalue
        have hpow : (10 : ℚ) ^ p ≠ 0 := by positivity
        exact_mod_cast (mul_eq_zero.1 hvalue.symm).resolve_right hpow
      rw [hbits, hzero, hleast, hn, Grammar.nearest, Nat.zero_mul, ofRatio, if_pos rfl]
      rfl
    · rename_i hm
      refine ⟨_, isUnsigned_magnitudeText (Nat.pos_of_ne_zero hm) hnormal.lt e, fun n p hvalue => ?_⟩
      rw [hbits]
      refine nearest_of_near hnormal (Nat.pos_of_ne_zero hm) ?_ negative
      rw [← hvalue]
      exact near_shortest (Nat.pos_of_ne_zero hm) hnormal.lt e
  obtain ⟨w, f, e', fraction, exponent, heq, hw, hf, he, hsome, hvalue⟩ := hunsigned
  have hnumeral := @Numeral.decimal negative _ _ _ _ _ hw hf he hsome
  rw [hnear _ _ hvalue] at hnumeral
  rw [text, h]
  simp only [heq]
  cases negative with
  | true => exact hnumeral
  | false => exact hnumeral

end Binary64

end ModuleStubs
