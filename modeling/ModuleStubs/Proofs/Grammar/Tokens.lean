import ModuleStubs.Proofs.Grammar.Basic
import ModuleStubs.Proofs.Wire.Scalars

/-!
# Tokens and the grammar

Both readers share the tables of names and escapes, which are those of the grammar, and the scanner of
numerals, which takes the longest piece that it can. What it takes is a numeral of the grammar
(`numeral_of_numeral?`), and a numeral of the grammar is taken whole where nothing follows that could
belong to it (`numeral?_of_numeral`). The scanner gives up early on numbers that are far too large or
too small; this changes no number (`Binary64.ofDecimal_eq_nearest`).
-/

set_option autoImplicit false

namespace ModuleStubs

/-! ## Numbers far out of range -/

theorem lt_ten_pow_digitCount (n : Nat) : n < 10 ^ digitCount n := by
  rw [digitCount, decimal]
  split
  · rename_i h
    simpa using h
  · have ih := lt_ten_pow_digitCount (n / 10)
    rw [digitCount] at ih
    rw [List.length_append, List.length_singleton, Nat.pow_succ]
    omega
termination_by n
decreasing_by omega

theorem ten_pow_digitCount_le {n : Nat} (h : 0 < n) : 10 ^ digitCount n ≤ 10 * n := by
  rw [digitCount, decimal]
  split
  · simp only [List.length_singleton]
    omega
  · have ih := ten_pow_digitCount_le (n := n / 10) (by omega)
    rw [digitCount] at ih
    rw [List.length_append, List.length_singleton, Nat.pow_succ]
    omega
termination_by n
decreasing_by omega

theorem two_pow_le_ten_pow (k : Nat) : 2 ^ (3 * k) ≤ 10 ^ k := by
  rw [Nat.pow_mul]
  exact Nat.pow_le_pow_left (by decide) k

namespace Binary64

theorem floorLogTwo_le (n d : Nat) : floorLogTwo n d ≤ (n.log2 : Int) - d.log2 := by
  simp only [floorLogTwo, Nat.pow_eq]
  split <;> omega

theorem le_floorLogTwo (n d : Nat) : (n.log2 : Int) - d.log2 - 1 ≤ floorLogTwo n d := by
  simp only [floorLogTwo, Nat.pow_eq]
  split <;> omega

/-- A number that is larger by a power of two has a logarithm that is larger by the exponent. -/
theorem log2_add_le {m n k : Nat} (hm : m ≠ 0) (h : m * 2 ^ k ≤ n) : m.log2 + k ≤ n.log2 := by
  have hself : 2 ^ m.log2 ≤ m := Nat.log2_self_le hm
  have hmul : 2 ^ m.log2 * 2 ^ k ≤ m * 2 ^ k := Nat.mul_le_mul_right _ hself
  have hpos : 0 < m * 2 ^ k := Nat.mul_pos (Nat.pos_of_ne_zero hm) (Nat.pow_pos (by decide))
  rw [Nat.le_log2 (by omega), Nat.pow_add]
  omega

/-- A quotient far below the least number is rounded to zero. -/
theorem ofRatio_of_small (negative : Bool) {n d k : Nat} (hk : 1075 ≤ k) (h : n * 2 ^ k < d) :
    ofRatio negative n d = zero negative := by
  simp only [ofRatio, Nat.pow_eq]
  split
  · rfl
  · rename_i hn
    have hlog : n.log2 + k ≤ d.log2 := log2_add_le hn (Nat.le_of_lt h)
    have hfloor := floorLogTwo_le n d
    have hq : max (floorLogTwo n d - 52) (-1074) = -1074 := by omega
    -- the mantissa is below one half
    have hround : ∀ j, j + 1 ≤ k → roundDiv (n * 2 ^ j) d = 0 := by
      intro j hj
      have hhalf : 2 * (n * 2 ^ j) < d := by
        have hpow : 2 ^ (j + 1) ≤ 2 ^ k := Nat.pow_le_pow_right (by decide) hj
        have hmul : n * 2 ^ (j + 1) ≤ n * 2 ^ k := Nat.mul_le_mul_left _ hpow
        rw [Nat.pow_succ, ← Nat.mul_assoc] at hmul
        omega
      have hlt : n * 2 ^ j < d := by omega
      simp only [roundDiv, Nat.mod_eq_of_lt hlt, Nat.div_eq_of_lt hlt, if_pos hhalf]
    have hnegative : ¬(0 : Int) ≤ -1074 := by decide
    simp only [hq, if_neg hnegative, hround _ (show (-(-1074) : Int).toNat + 1 ≤ k from hk)]
    rfl

/-- A quotient far beyond the greatest number is rounded to an infinity. -/
theorem ofRatio_of_large (negative : Bool) {n d k : Nat} (hk : 1200 ≤ k) (hd : d ≠ 0)
    (h : d * 2 ^ k ≤ n) : ofRatio negative n d = infinity negative := by
  have hpos : 0 < d * 2 ^ k := Nat.mul_pos (Nat.pos_of_ne_zero hd) (Nat.pow_pos (by decide))
  have hn : n ≠ 0 := by omega
  have hlog : d.log2 + k ≤ n.log2 := log2_add_le hd h
  have hfloor := le_floorLogTwo n d
  have hq : 1147 ≤ max (floorLogTwo n d - 52) (-1074) := by omega
  simp only [ofRatio, if_neg hn, Nat.pow_eq]
  generalize max (floorLogTwo n d - 52) (-1074) = q at hq
  have hexp : 2047 ≤ (q + 1074).toNat := by omega
  have hmul : 2047 * 2 ^ 52 ≤ (q + 1074).toNat * 2 ^ 52 := Nat.mul_le_mul_right _ hexp
  rw [if_pos (Nat.le_trans hmul (Nat.le_add_right _ _))]

/-- Giving up early on numbers out of range changes no number. -/
theorem ofDecimal_eq_nearest (negative : Bool) (n : Nat) (e : Int) :
    ofDecimal negative n e = Grammar.nearest negative n e := by
  simp only [ofDecimal, Grammar.nearest, Nat.pow_eq]
  rcases Nat.eq_zero_or_pos n with rfl | hpos
  · rw [if_pos (Or.inl rfl), Nat.zero_mul, ofRatio, if_pos rfl]
  have hlt := lt_ten_pow_digitCount n
  have hle := ten_pow_digitCount_le hpos
  -- the bound of the early exit, as a variable so that its powers are not evaluated
  obtain ⟨k, hk⟩ : ∃ k : Nat, k = 400 := ⟨_, rfl⟩
  have hscale := two_pow_le_ten_pow k
  split
  · rename_i hsmall
    have hsmall : e + digitCount n < -400 := hsmall.resolve_left (by omega)
    have htoNat : e.toNat = 0 := by omega
    rw [htoNat, Nat.pow_zero, Nat.mul_one]
    refine (ofRatio_of_small negative (k := 3 * k) (by omega) ?_).symm
    calc n * 2 ^ (3 * k) < 10 ^ digitCount n * 10 ^ k :=
          Nat.mul_lt_mul_of_lt_of_le hlt hscale (Nat.pow_pos (by decide))
      _ = 10 ^ (digitCount n + k) := (Nat.pow_add _ _ _).symm
      _ ≤ 10 ^ (-e).toNat := Nat.pow_le_pow_right (by decide) (by omega)
  · split
    · rename_i hlarge
      have hd : 10 ^ (-e).toNat ≠ 0 := Nat.ne_of_gt (Nat.pow_pos (by decide))
      refine (ofRatio_of_large negative (k := 3 * k) (by omega) hd ?_).symm
      have htens : 10 ^ (-e).toNat * 10 ^ k * 10 ≤ 10 ^ digitCount n * 10 ^ e.toNat := by
        rw [← Nat.pow_add, ← Nat.pow_add, ← Nat.pow_succ]
        exact Nat.pow_le_pow_right (by decide) (by omega)
      have hdigits : 10 ^ digitCount n * 10 ^ e.toNat ≤ 10 * n * 10 ^ e.toNat :=
        Nat.mul_le_mul_right _ hle
      have htwos : 10 ^ (-e).toNat * 2 ^ (3 * k) ≤ 10 ^ (-e).toNat * 10 ^ k :=
        Nat.mul_le_mul_left _ hscale
      rw [Nat.mul_assoc 10] at hdigits
      omega
    · split
      · rename_i hnonneg
        have htoNat : (-e).toNat = 0 := by omega
        rw [htoNat, Nat.pow_zero]
      · rename_i hneg
        have htoNat : e.toNat = 0 := by omega
        rw [htoNat, Nat.pow_zero, Nat.mul_one]

end Binary64

open Grammar Json

/-! ## Digits -/

theorem spanDigits_eq {t ds rest : Text} (h : spanDigits t = (ds, rest)) :
    t = ds ++ rest ∧ ∀ c ∈ ds, c.isDigit = true := by
  obtain ⟨rfl, rfl⟩ := Prod.mk.inj h
  exact ⟨List.takeWhile_append_dropWhile.symm, fun c hc => List.all_eq_true.1 List.all_takeWhile c hc⟩

namespace Grammar

theorem digits_of_spanDigits {t ds rest : Text} (h : spanDigits t = (ds, rest))
    (hne : ds.isEmpty = false) : t = ds ++ rest ∧ Digits ds := by
  obtain ⟨heq, hdigits⟩ := spanDigits_eq h
  refine ⟨heq, ?_, hdigits⟩
  rintro rfl
  contradiction

theorem Digits.isEmpty {ds : Text} (h : Digits ds) : ds.isEmpty = false := by
  cases ds with
  | nil => exact absurd rfl h.1
  | cons c ds => rfl

theorem digits_decimal (n : Nat) : Digits (decimal n) :=
  ⟨decimal_ne_nil n, isDigit_of_mem_decimal n⟩

theorem whole_of_digits {ds : Text} (h : Digits ds) (hhead : ∀ c ∈ ds.head?, c ≠ '0') : Whole ds := by
  cases ds with
  | nil => exact absurd rfl h.1
  | cons c ds => exact .digits (hhead c rfl) h

/-! ## The parts of a numeral -/

theorem whole_of_wholePart? {t w rest : Text} (h : wholePart? t = some (w, rest)) :
    t = w ++ rest ∧ Whole w := by
  cases t with
  | nil => simp [wholePart?] at h
  | cons c t =>
      rw [wholePart?] at h
      split at h
      · rename_i hc
        obtain ⟨rfl, rfl⟩ := Prod.mk.inj (Option.some.inj h)
        subst hc
        exact ⟨rfl, .zero⟩
      · rename_i hc
        split at h
        · rename_i hdigit
          -- the first digit is among those taken, so they are not empty
          have hspan := Option.some.inj h
          obtain ⟨heq, hdigits⟩ := spanDigits_eq hspan
          have hw : w = c :: t.takeWhile CodePoint.isDigit := by
            have hfirst := congrArg Prod.fst hspan
            simpa [spanDigits, hdigit] using hfirst.symm
          subst hw
          exact ⟨heq, .digits hc ⟨List.cons_ne_nil _ _, hdigits⟩⟩
        · contradiction

theorem wholePart?_of_whole {w rest : Text} (hw : Whole w)
    (hrest : ∀ c ∈ rest.head?, c.isDigit = false) : wholePart? (w ++ rest) = some (w, rest) := by
  cases hw with
  | zero => rfl
  | @digits c ds hc h =>
      have hdigit : c.isDigit = true := h.2 c List.mem_cons_self
      rw [List.cons_append, wholePart?, if_neg hc, if_pos hdigit, ← List.cons_append,
        spanDigits_of_stop h.2 hrest]

theorem digits_of_fraction? {t ds rest : Text} (h : fraction? t = some (ds, rest)) :
    t = CodePoint.ofChar '.' :: (ds ++ rest) ∧ Digits ds := by
  cases t with
  | nil => simp [fraction?] at h
  | cons c t =>
      by_cases hc : c = '.'
      · subst hc
        obtain ⟨ds', rest', hspan⟩ : ∃ ds' rest', spanDigits t = (ds', rest') := ⟨_, _, rfl⟩
        simp only [fraction?, hspan] at h
        cases hne : ds'.isEmpty with
        | true => simp [hne] at h
        | false =>
            rw [hne, if_neg Bool.false_ne_true] at h
            obtain ⟨rfl, rfl⟩ := Prod.mk.inj (Option.some.inj h)
            obtain ⟨rfl, hds⟩ := digits_of_spanDigits hspan hne
            exact ⟨rfl, hds⟩
      · simp [fraction?, hc] at h

theorem fraction?_of_digits {ds rest : Text} (hds : Digits ds)
    (hrest : ∀ c ∈ rest.head?, c.isDigit = false) :
    fraction? (CodePoint.ofChar '.' :: (ds ++ rest)) = some (ds, rest) := by
  rw [fraction?, if_pos rfl, spanDigits_of_stop hds.2 hrest]
  simp only [hds.isEmpty]
  rfl

/-- A sign in front of an exponent is a minus or a plus, or there is none. -/
theorem exponentSign_cases (t : Text) :
    (∃ u, t = CodePoint.ofChar '-' :: u ∧ exponentSign t = (true, u)) ∨
    (∃ u, t = CodePoint.ofChar '+' :: u ∧ exponentSign t = (false, u)) ∨
    exponentSign t = (false, t) := by
  cases t with
  | nil => exact Or.inr (Or.inr rfl)
  | cons c u =>
      by_cases hminus : c = '-'
      · subst hminus
        exact Or.inl ⟨u, rfl, rfl⟩
      by_cases hplus : c = '+'
      · subst hplus
        exact Or.inr (Or.inl ⟨u, rfl, rfl⟩)
      · exact Or.inr (Or.inr (by rw [exponentSign, if_neg hminus, if_neg hplus]))

/-- An exponent behind its sign. -/
def exponentDigits? (negative : Bool) (t : Text) : Option (Int × Text) :=
  if (spanDigits t).1.isEmpty then none
  else some (if negative then -(digitsValue (spanDigits t).1 : Int) else digitsValue (spanDigits t).1,
    (spanDigits t).2)

theorem exponent?_cons {c : CodePoint} (hc : IsExponentMark c) (t : Text) :
    exponent? (c :: t) = exponentDigits? (exponentSign t).1 (exponentSign t).2 := by
  rw [IsExponentMark] at hc
  rw [exponent?, if_pos hc]
  rfl

theorem digits_of_exponentDigits? {negative : Bool} {t rest : Text} {n : Int}
    (h : exponentDigits? negative t = some (n, rest)) :
    ∃ ds, t = ds ++ rest ∧ Digits ds ∧
      n = if negative then -(digitsValue ds : Int) else digitsValue ds := by
  rw [exponentDigits?] at h
  cases hne : (spanDigits t).1.isEmpty with
  | true => simp [hne] at h
  | false =>
      rw [hne, if_neg Bool.false_ne_true] at h
      obtain ⟨rfl, rfl⟩ := Prod.mk.inj (Option.some.inj h)
      obtain ⟨heq, hds⟩ := digits_of_spanDigits (t := t) rfl hne
      exact ⟨_, heq, hds, rfl⟩

theorem exponentDigits?_of_digits (negative : Bool) {ds rest : Text} (h : Digits ds)
    (hrest : ∀ c ∈ rest.head?, c.isDigit = false) :
    exponentDigits? negative (ds ++ rest) =
      some (if negative then -(digitsValue ds : Int) else digitsValue ds, rest) := by
  rw [exponentDigits?, spanDigits_of_stop h.2 hrest, h.isEmpty, if_neg Bool.false_ne_true]

theorem exponent_of_exponent? {t rest : Text} {n : Int} (h : exponent? t = some (n, rest)) :
    ∃ e, t = e ++ rest ∧ Exponent e (some n) := by
  cases t with
  | nil => simp [exponent?] at h
  | cons c t =>
      by_cases hc : IsExponentMark c
      · rw [exponent?_cons hc] at h
        -- the sign decides which form of an exponent it is
        rcases exponentSign_cases t with ⟨u, rfl, hsign⟩ | ⟨u, rfl, hsign⟩ | hsign
        · rw [hsign] at h
          obtain ⟨ds, rfl, hds, rfl⟩ := digits_of_exponentDigits? h
          exact ⟨_, rfl, .minus hc hds⟩
        · rw [hsign] at h
          obtain ⟨ds, rfl, hds, rfl⟩ := digits_of_exponentDigits? h
          exact ⟨_, rfl, .plus hc hds⟩
        · rw [hsign] at h
          obtain ⟨ds, rfl, hds, rfl⟩ := digits_of_exponentDigits? h
          exact ⟨_, rfl, .unsigned hc hds⟩
      · rw [IsExponentMark] at hc
        rw [exponent?, if_neg hc] at h
        contradiction

/-- Behind its mark and its sign an exponent is a run of digits, whatever follows. -/
theorem Exponent.exists_digits {e : Text} {n : Int} (he : Exponent e (some n)) :
    ∃ negative ds, Digits ds ∧ n = (if negative then -(digitsValue ds : Int) else digitsValue ds) ∧
      ∀ t, exponent? (e ++ t) = exponentDigits? negative (ds ++ t) := by
  cases he with
  | @unsigned c ds hc h =>
      refine ⟨false, ds, h, rfl, fun t => ?_⟩
      -- the first digit is no sign
      have hsign : exponentSign (ds ++ t) = (false, ds ++ t) := by
        cases ds with
        | nil => exact absurd rfl h.1
        | cons d ds =>
            have hd : d.isDigit = true := h.2 d List.mem_cons_self
            rw [List.cons_append, exponentSign, if_neg (CodePoint.ne_of_isDigit hd (by decide)),
              if_neg (CodePoint.ne_of_isDigit hd (by decide))]
      rw [List.cons_append, exponent?_cons hc, hsign]
  | @plus c ds hc h =>
      refine ⟨false, ds, h, rfl, fun t => ?_⟩
      rw [List.cons_append, exponent?_cons hc]
      rfl
  | @minus c ds hc h =>
      refine ⟨true, ds, h, rfl, fun t => ?_⟩
      rw [List.cons_append, exponent?_cons hc]
      rfl

theorem exponent?_of_exponent {e rest : Text} {n : Int} (he : Exponent e (some n))
    (hrest : ∀ c ∈ rest.head?, c.isDigit = false) : exponent? (e ++ rest) = some (n, rest) := by
  obtain ⟨negative, ds, hds, rfl, hexponent⟩ := he.exists_digits
  rw [hexponent, exponentDigits?_of_digits negative hds hrest]

/-! ## Whole numerals -/

/-- A fraction that may be missing, and the rest. -/
def fractionPart (t : Text) : Option Text × Text :=
  match fraction? t with
  | some (ds, rest) => (some ds, rest)
  | none => (none, t)

/-- An exponent that may be missing, and the rest. -/
def exponentPart (t : Text) : Option Int × Text :=
  match exponent? t with
  | some (n, rest) => (some n, rest)
  | none => (none, t)

/-- A numeral is scanned in three parts, of which the last two may be missing. -/
theorem unsignedNumeral?_eq (negative : Bool) (t : Text) :
    unsignedNumeral? negative t = (wholePart? t).map fun whole =>
      (ofNumeral negative whole.1 (fractionPart whole.2).1 (exponentPart (fractionPart whole.2).2).1,
        (exponentPart (fractionPart whole.2).2).2) := by
  rw [unsignedNumeral?]
  cases wholePart? t with
  | none => rfl
  | some whole => rfl

theorem fraction_of_fractionPart {t rest : Text} {fraction : Option Text}
    (h : fractionPart t = (fraction, rest)) : ∃ f, t = f ++ rest ∧ Fraction f fraction := by
  rw [fractionPart] at h
  split at h
  · rename_i ds r hsome
    obtain ⟨rfl, rfl⟩ := Prod.mk.inj h
    obtain ⟨heq, hds⟩ := digits_of_fraction? hsome
    exact ⟨_, heq, .present hds⟩
  · obtain ⟨rfl, rfl⟩ := Prod.mk.inj h
    exact ⟨[], rfl, .absent⟩

theorem exponent_of_exponentPart {t rest : Text} {exponent : Option Int}
    (h : exponentPart t = (exponent, rest)) : ∃ e, t = e ++ rest ∧ Exponent e exponent := by
  rw [exponentPart] at h
  split at h
  · rename_i n r hsome
    obtain ⟨rfl, rfl⟩ := Prod.mk.inj h
    exact exponent_of_exponent? hsome
  · obtain ⟨rfl, rfl⟩ := Prod.mk.inj h
    exact ⟨[], rfl, .absent⟩

/-- An exponent starts with its mark, which is neither a digit nor a point. -/
theorem head?_exponent_mark {e : Text} {n : Int} (he : Exponent e (some n)) (rest : Text) :
    ∀ c ∈ (e ++ rest).head?, c.isDigit = false ∧ c ≠ '.' := by
  have hmark : ∀ c : CodePoint, IsExponentMark c → c.isDigit = false ∧ c ≠ '.' := by
    rintro c (rfl | rfl) <;> exact ⟨by decide, by decide⟩
  intro c hc
  cases he with
  | unsigned hm _ => exact hmark c (Option.some.inj hc ▸ hm)
  | plus hm _ => exact hmark c (Option.some.inj hc ▸ hm)
  | minus hm _ => exact hmark c (Option.some.inj hc ▸ hm)

/-- No digit, and no point, follows where an exponent that may be missing starts. -/
theorem head?_exponent {e rest : Text} {exponent : Option Int} (he : Exponent e exponent)
    (hrest : endsNumeral rest = true) :
    ∀ c ∈ (e ++ rest).head?, c.isDigit = false ∧ c ≠ '.' := by
  cases exponent with
  | some n => exact head?_exponent_mark he rest
  | none =>
      cases he
      intro c hc
      cases rest with
      | nil => simp at hc
      | cons d t =>
          obtain ⟨hd, hpoint, -⟩ := endsNumeral_cons.1 hrest
          obtain rfl := Option.some.inj hc
          exact ⟨hd, hpoint⟩

theorem fractionPart_of_fraction {f t : Text} {fraction : Option Text}
    (hf : Fraction f fraction) (ht : ∀ c ∈ t.head?, c.isDigit = false ∧ c ≠ '.') :
    fractionPart (f ++ t) = (fraction, t) := by
  cases hf with
  | absent =>
      have hnone : fraction? t = none := by
        cases t with
        | nil => rfl
        | cons c t => rw [fraction?, if_neg (ht c rfl).2]
      rw [fractionPart, List.nil_append, hnone]
  | present h =>
      rw [fractionPart, List.cons_append, fraction?_of_digits h fun c hc => (ht c hc).1]

theorem exponentPart_of_exponent {e rest : Text} {exponent : Option Int}
    (he : Exponent e exponent) (hrest : endsNumeral rest = true) :
    exponentPart (e ++ rest) = (exponent, rest) := by
  have hdigit : ∀ c ∈ rest.head?, c.isDigit = false := fun c hc =>
    (head?_exponent .absent hrest c hc).1
  cases exponent with
  | none =>
      cases he
      rw [exponentPart, List.nil_append, exponent?_eq_none hrest]
  | some n => rw [exponentPart, exponent?_of_exponent he hdigit]

theorem head?_fraction {f t : Text} {fraction : Option Text} (hf : Fraction f fraction)
    (ht : ∀ c ∈ t.head?, c.isDigit = false ∧ c ≠ '.') :
    ∀ c ∈ (f ++ t).head?, c.isDigit = false := by
  intro c hc
  cases hf with
  | absent => exact (ht c hc).1
  | present h =>
      obtain rfl := Option.some.inj hc
      decide

theorem ofNumeral_of_isSome (negative : Bool) (w : Text) {fraction : Option Text}
    {exponent : Option Int} (hsome : fraction.isSome = true ∨ exponent.isSome = true) :
    ofNumeral negative w fraction exponent =
      .float (nearest negative (digitsValue (w ++ fraction.getD []))
        (exponent.getD 0 - (fraction.getD []).length)) := by
  rw [← Binary64.ofDecimal_eq_nearest]
  cases fraction with
  | some ds => rfl
  | none =>
      cases exponent with
      | some n => rfl
      | none => simp at hsome

/-- The number of the parts of a numeral is the one that the numeral denotes. -/
theorem numeral_ofNumeral {negative : Bool} {w f e : Text} {fraction : Option Text}
    {exponent : Option Int} (hw : Whole w) (hf : Fraction f fraction) (he : Exponent e exponent) :
    Numeral (sign negative ++ (w ++ (f ++ e))) (ofNumeral negative w fraction exponent) := by
  by_cases hsome : fraction.isSome = true ∨ exponent.isSome = true
  · rw [ofNumeral_of_isSome negative w hsome]
    exact .decimal hw hf he hsome
  · obtain ⟨hnone, hnone'⟩ := not_or.1 hsome
    obtain rfl : fraction = none := by simpa using hnone
    obtain rfl : exponent = none := by simpa using hnone'
    cases hf
    cases he
    rw [List.append_nil, List.append_nil]
    exact .integer hw

theorem numeral_of_unsignedNumeral? {negative : Bool} {t rest : Text} {v : Json}
    (h : unsignedNumeral? negative t = some (v, rest)) :
    ∃ p, t = p ++ rest ∧ Numeral (sign negative ++ p) v := by
  rw [unsignedNumeral?_eq] at h
  obtain ⟨⟨w, t'⟩, hwhole, heq⟩ := Option.map_eq_some_iff.1 h
  obtain ⟨rfl, hw⟩ := whole_of_wholePart? hwhole
  obtain ⟨fraction, t'', hf⟩ : ∃ fraction t'', fractionPart t' = (fraction, t'') := ⟨_, _, rfl⟩
  obtain ⟨exponent, r, he⟩ : ∃ exponent r, exponentPart t'' = (exponent, r) := ⟨_, _, rfl⟩
  simp only [hf, he, Prod.mk.injEq] at heq
  obtain ⟨rfl, rfl⟩ := heq
  obtain ⟨f, rfl, hfraction⟩ := fraction_of_fractionPart hf
  obtain ⟨e, rfl, hexponent⟩ := exponent_of_exponentPart he
  exact ⟨w ++ (f ++ e), by simp, numeral_ofNumeral hw hfraction hexponent⟩

/-- What the scanner takes is a numeral and denotes its number. -/
theorem numeral_of_numeral? {t rest : Text} {v : Json} (h : numeral? t = some (v, rest)) :
    ∃ p, t = p ++ rest ∧ Numeral p v := by
  cases t with
  | nil => simp [numeral?] at h
  | cons c t =>
      rw [numeral?] at h
      split at h
      · rename_i hc
        subst hc
        obtain ⟨p, rfl, hp⟩ := numeral_of_unsignedNumeral? h
        exact ⟨_, rfl, hp⟩
      · obtain ⟨p, heq, hp⟩ := numeral_of_unsignedNumeral? h
        exact ⟨p, heq, hp⟩

/-- A numeral starts with a digit behind its sign. -/
theorem Whole.exists_cons {w : Text} (h : Whole w) :
    ∃ c ds, w = c :: ds ∧ c.isDigit = true := by
  cases h with
  | zero => exact ⟨_, _, rfl, by decide⟩
  | digits hc h => exact ⟨_, _, rfl, h.2 _ List.mem_cons_self⟩

/-- The parts of a numeral of the grammar. -/
theorem Numeral.exists_parts {p : Text} {v : Json} (h : Numeral p v) :
    ∃ negative w f e fraction exponent, p = sign negative ++ (w ++ (f ++ e)) ∧ Whole w ∧
      Fraction f fraction ∧ Exponent e exponent ∧ v = ofNumeral negative w fraction exponent := by
  cases h with
  | @integer negative w hw =>
      exact ⟨negative, w, [], [], none, none, by simp, hw, .absent, .absent, rfl⟩
  | @decimal negative w f e fraction exponent hw hf he hsome =>
      exact ⟨negative, w, f, e, fraction, exponent, rfl, hw, hf, he,
        (ofNumeral_of_isSome negative w hsome).symm⟩

/-- Behind its sign a numeral is scanned from its whole part on. -/
theorem numeral?_sign {w : Text} (hw : Whole w) (negative : Bool) (t : Text) :
    numeral? (sign negative ++ (w ++ t)) = unsignedNumeral? negative (w ++ t) := by
  cases negative with
  | true =>
      change numeral? (CodePoint.ofChar '-' :: (w ++ t)) = _
      rw [numeral?, if_pos rfl]
  | false =>
      obtain ⟨c, ds, rfl, hc⟩ := hw.exists_cons
      change numeral? (c :: (ds ++ t)) = _
      rw [numeral?, if_neg (CodePoint.ne_of_isDigit hc (by decide))]
      rfl

/-- A numeral is taken whole where no more of a numeral follows. -/
theorem numeral?_of_numeral {p rest : Text} {v : Json} (h : Numeral p v)
    (hrest : endsNumeral rest = true) : numeral? (p ++ rest) = some (v, rest) := by
  obtain ⟨negative, w, f, e, fraction, exponent, rfl, hw, hf, he, rfl⟩ := h.exists_parts
  have hexponent := head?_exponent he hrest
  have hunsigned : unsignedNumeral? negative (w ++ (f ++ (e ++ rest))) =
      some (ofNumeral negative w fraction exponent, rest) := by
    rw [unsignedNumeral?_eq, wholePart?_of_whole hw (head?_fraction hf hexponent)]
    simp only [Option.map_some, fractionPart_of_fraction hf hexponent,
      exponentPart_of_exponent he hrest]
  simp only [List.append_assoc]
  rw [numeral?_sign hw, hunsigned]

/-- No name starts where a numeral does. -/
theorem named?_of_numeral {p : Text} {v : Json} (h : Numeral p v) (rest : Text) :
    named? (p ++ rest) = none := by
  obtain ⟨negative, w, f, e, fraction, exponent, rfl, hw, -, -, -⟩ := h.exists_parts
  obtain ⟨c, ds, rfl, hc⟩ := hw.exists_cons
  obtain ⟨hplain, hminus⟩ := named?_digit hc (ds ++ (f ++ e) ++ rest)
  cases negative with
  | true => exact hminus
  | false => exact hplain

/-! ## Names and escapes -/

/-- What is taken as a name is one. -/
theorem name_of_named? {t rest : Text} {v : Json} (h : Json.named? t = some (v, rest)) :
    ∃ p, t = p ++ rest ∧ Name p v := by
  obtain ⟨⟨p, w⟩, hmem, hsome⟩ := List.exists_of_findSome?_eq_some h
  obtain ⟨r, hr, heq⟩ := Option.map_eq_some_iff.1 hsome
  obtain ⟨rfl, rfl⟩ := Prod.mk.inj heq
  refine ⟨p, Text.afterPrefix?_eq_some.1 hr, ?_⟩
  simp only [Json.names, List.mem_cons, Prod.mk.injEq, List.not_mem_nil, or_false] at hmem
  rcases hmem with ⟨rfl, rfl⟩ | ⟨rfl, rfl⟩ | ⟨rfl, rfl⟩ | ⟨rfl, rfl⟩ | ⟨rfl, rfl⟩ | ⟨rfl, rfl⟩ <;>
    constructor

/-- No name is the start of another one. -/
theorem named?_of_name {p : Text} {v : Json} (h : Name p v) (rest : Text) :
    Json.named? (p ++ rest) = some (v, rest) := by
  cases h <;> rfl

theorem shortEscape?_of_mem_letters {e : Char} {n : Nat} (h : (e, n) ∈ letters) :
    CodePoint.ofChar e ≠ 'u' ∧ Json.shortEscape? e = some (CodePoint.ofNat n) := by
  simp only [letters, List.mem_cons, Prod.mk.injEq, List.not_mem_nil, or_false] at h
  rcases h with ⟨rfl, rfl⟩ | ⟨rfl, rfl⟩ | ⟨rfl, rfl⟩ | ⟨rfl, rfl⟩ | ⟨rfl, rfl⟩ | ⟨rfl, rfl⟩ |
    ⟨rfl, rfl⟩ | ⟨rfl, rfl⟩ <;> exact ⟨by decide, by decide⟩

theorem mem_letters_of_shortEscape? {c p : CodePoint} (h : Json.shortEscape? c = some p) :
    ∃ e n, (e, n) ∈ letters ∧ c = CodePoint.ofChar e ∧ p = CodePoint.ofNat n := by
  rw [Json.shortEscape?] at h
  split at h
  · rename_i hself
    obtain rfl := Option.some.inj h
    rcases hself with rfl | rfl | rfl
    · exact ⟨'"', 34, by decide, rfl, rfl⟩
    · exact ⟨'\\', 92, by decide, rfl, rfl⟩
    · exact ⟨'/', 47, by decide, rfl, rfl⟩
  -- the other letters stand for control points
  · repeat' split at h
    · exact ⟨'b', 8, by decide, by assumption, (Option.some.inj h).symm⟩
    · exact ⟨'f', 12, by decide, by assumption, (Option.some.inj h).symm⟩
    · exact ⟨'n', 10, by decide, by assumption, (Option.some.inj h).symm⟩
    · exact ⟨'r', 13, by decide, by assumption, (Option.some.inj h).symm⟩
    · exact ⟨'t', 9, by decide, by assumption, (Option.some.inj h).symm⟩
    · contradiction

theorem hexQuad?_eq_some {x y z w : CodePoint} {n : Nat} :
    Json.hexQuad? x y z w = some n ↔ ∃ i j k l, x.hexValue? = some i ∧ y.hexValue? = some j ∧
      z.hexValue? = some k ∧ w.hexValue? = some l ∧ n = ((i * 16 + j) * 16 + k) * 16 + l := by
  simp only [Json.hexQuad?, Option.bind_eq_bind, Option.bind_eq_some_iff, Option.pure_def,
    Option.some.injEq]
  constructor
  · rintro ⟨i, hi, j, hj, k, hk, l, hl, rfl⟩
    exact ⟨i, j, k, l, hi, hj, hk, hl, rfl⟩
  · rintro ⟨i, j, k, l, hi, hj, hk, hl, rfl⟩
    exact ⟨i, hi, j, hj, k, hk, l, hl, rfl⟩

end Grammar

end ModuleStubs
