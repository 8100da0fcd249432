import ModuleStubs.Proofs.Number.Layout
import ModuleStubs.Proofs.Wire.Grammar
import ModuleStubs.Wire.Writer

/-!
# Numbers that are written as numbers

Whether a number is special the writer guesses from its text: the first code point has to be a digit, or
the second one if the number is below zero (`looksPlain`). The text of a finite number is a digit and more, behind a
minus sign if the sign bit is set (`exists_text_of_parts`), and the sign bit of zero does not make it smaller
than zero (`belowZero_of_parts`). So the guess is wrong for zero with a minus sign, and for nothing else
(`looksPlain_eq_false_iff`, `writtenFloat_text_iff`).
-/

set_option autoImplicit false

namespace ModuleStubs

open Grammar (Whole sign)

namespace Binary64

variable {x : Binary64} {negative : Bool} {m : Nat} {e : Int}

/-! ## Parts, sign and text -/

theorem exists_parts_of_isFinite (h : x.isFinite = true) :
    ∃ negative m e, x.parts = .finite negative m e := by
  rw [isFinite] at h
  split at h
  · rename_i negative m e hparts
    exact ⟨negative, m, e, hparts⟩
  · contradiction

/-- A number that is not finite is a non-number or an infinity. -/
theorem parts_of_isFinite_eq_false (h : x.isFinite = false) :
    x.parts = .nan ∨ ∃ negative, x.parts = .infinite negative := by
  rw [isFinite] at h
  cases hparts : x.parts with
  | nan => exact Or.inl rfl
  | infinite negative => exact Or.inr ⟨negative, rfl⟩
  | finite negative m e =>
      rw [hparts] at h
      contradiction

theorem parts_negativeZero : (zero true).parts = .finite true 0 (-1074) := by decide +kernel

theorem parts_nan : nan.parts = .nan := by decide +kernel

theorem parts_infinity (negative : Bool) : (infinity negative).parts = .infinite negative := by
  cases negative <;> decide +kernel

theorem isFinite_of_isNaN (h : x.isNaN = true) : x.isFinite = false := by
  have hparts : x.parts = .nan := beq_iff_eq.1 h
  rw [isFinite, hparts]

theorem isFinite_infinity (negative : Bool) : (infinity negative).isFinite = false := by
  rw [isFinite, parts_infinity]

/-- The sign bit is the sign of the parts. -/
theorem isNegative_of_parts (h : x.parts = .finite negative m e) : x.isNegative = negative := by
  simp only [parts] at h
  split at h
  · split at h <;> contradiction
  · split at h
    · exact (Parts.finite.inj h).1
    · exact (Parts.finite.inj h).1

theorem isNegative_of_parts_infinite (h : x.parts = .infinite negative) : x.isNegative = negative := by
  simp only [parts] at h
  split at h
  · split at h
    · exact Parts.infinite.inj h
    · contradiction
  · split at h <;> contradiction

/-- A finite number is below zero if it has a sign and is not zero. -/
theorem belowZero_of_parts (h : x.parts = .finite negative m e) :
    x.belowZero = (negative && m != 0) := by
  have hnumber : x.isNaN = false := by
    rw [isNaN, h]
    rfl
  rw [belowZero, isNegative_of_parts h, hnumber, isZero, h]
  cases negative <;> rfl

/-- An infinity is below zero if it has a sign. -/
theorem belowZero_of_parts_infinite (h : x.parts = .infinite negative) : x.belowZero = negative := by
  have hnumber : x.isNaN = false := by
    rw [isNaN, h]
    rfl
  rw [belowZero, isNegative_of_parts_infinite h, hnumber, isZero, h]
  cases negative <;> rfl

/-- Zero with a minus sign is known by its sign and its digits. -/
theorem eq_negativeZero_iff (h : x.parts = .finite negative m e) :
    x = zero true ↔ negative = true ∧ m = 0 := by
  constructor
  · rintro rfl
    obtain ⟨rfl, rfl, -⟩ := Parts.finite.inj (parts_negativeZero.symm.trans h)
    exact ⟨rfl, rfl⟩
  · rintro ⟨rfl, rfl⟩
    have hleast : e = -1074 := (isNormal_of_parts h).full.resolve_left (by omega)
    rw [eq_ofMagnitude_of_parts h, hleast]
    rfl

theorem exists_digit_of_whole {w : Text} (h : Whole w) : ∃ d ds, w = d :: ds ∧ d.isDigit = true := by
  cases h with
  | zero => exact ⟨_, [], rfl, rfl⟩
  | @digits c ds hc hdigits => exact ⟨c, ds, rfl, hdigits.2 c List.mem_cons_self⟩

/-- The text of a finite number is its sign and a digit, with more behind them. -/
theorem exists_text_of_parts (h : x.parts = .finite negative m e) :
    ∃ d ds, x.text = sign negative ++ d :: ds ∧ d.isDigit = true := by
  obtain ⟨d, ds, hbody, hd⟩ : ∃ d ds, (if m = 0 then lit "0.0" else magnitudeText m e) = d :: ds ∧
      d.isDigit = true := by
    split
    · exact ⟨_, _, rfl, rfl⟩
    · rename_i hm
      obtain ⟨w, f, k, -, -, heq, hw, -⟩ :=
        isUnsigned_magnitudeText (Nat.pos_of_ne_zero hm) (isNormal_of_parts h).lt e
      obtain ⟨d, ds, rfl, hd⟩ := exists_digit_of_whole hw
      exact ⟨d, ds ++ (f ++ k), heq, hd⟩
  refine ⟨d, ds, ?_, hd⟩
  rw [text, h]
  simp only [hbody]
  cases negative <;> rfl

end Binary64

namespace Wire

open Binary64 (infinity nan zero)

/-- The text of a finite number is read as the number. -/
theorem parse_text {x : Binary64} (h : x.isFinite = true) : parse x.text = .ok (.float x) := by
  obtain ⟨negative, m, e, hparts⟩ := Binary64.exists_parts_of_isFinite h
  exact parse_of_value (.numeral (Binary64.numeral_text hparts))

/-! ## The guess -/

/-- A text is taken for that of a number that is not special: a digit comes first, or second if the number is
below zero. -/
def looksPlain (x : Binary64) (t : Text) : Bool :=
  (x.belowZero && ((t.drop 1).head?).any CodePoint.isDigit) || (t.head?).any CodePoint.isDigit

variable {allowNaN odd : Bool} {x : Binary64}

theorem writtenFloat_of_looksPlain (h : looksPlain x x.text = true) :
    writtenFloat allowNaN x false = .ok x.text :=
  if_pos h

theorem writtenFloat_of_not_looksPlain
    (h : looksPlain x (if odd then lit "odd" else x.text) = false) :
    writtenFloat allowNaN x odd =
      if allowNaN then .ok (specialFloat x) else .error (.outOfRange x) :=
  if_neg (Bool.eq_false_iff.1 h)

/-- Of the finite numbers only zero with a minus sign is taken for special. -/
theorem looksPlain_eq_false_iff (h : x.isFinite = true) :
    looksPlain x x.text = false ↔ x = zero true := by
  obtain ⟨negative, m, e, hparts⟩ := Binary64.exists_parts_of_isFinite h
  obtain ⟨d, ds, htext, hd⟩ := Binary64.exists_text_of_parts hparts
  have hminus : (CodePoint.ofChar '-').isDigit = false := by decide
  rw [Binary64.eq_negativeZero_iff hparts, looksPlain, Binary64.belowZero_of_parts hparts, htext]
  cases negative with
  | false => simp [sign, hd]
  | true => simp [sign, hd, hminus]

/-- Four texts have no digit in either of the two places. -/
theorem looksPlain_of_mem {t : Text} (ht : t ∈ [lit "odd", lit "nan", lit "inf", lit "-inf"]) :
    looksPlain x t = false := by
  have hnone : ∀ t ∈ [lit "odd", lit "nan", lit "inf", lit "-inf"], ∀ below : Bool,
      ((below && ((t.drop 1).head?).any CodePoint.isDigit) ||
        (t.head?).any CodePoint.isDigit) = false := by decide
  exact hnone t ht x.belowZero

/-- Numbers that are not finite are taken for special. -/
theorem looksPlain_of_not_isFinite (h : x.isFinite = false) : looksPlain x x.text = false := by
  apply looksPlain_of_mem
  rw [Binary64.text]
  rcases Binary64.parts_of_isFinite_eq_false h with hparts | ⟨negative, hparts⟩
  · simp [hparts]
  · cases negative <;> simp [hparts]

/-! ## Names of special numbers -/

theorem specialFloat_of_isNaN (h : x.isNaN = true) : specialFloat x = lit "NaN" := if_pos (Or.inl h)

theorem specialFloat_of_isZero (h : x.isZero = true) : specialFloat x = lit "NaN" := if_pos (Or.inr h)

theorem specialFloat_of_eq_negativeZero (h : x = zero true) : specialFloat x = lit "NaN" := by
  apply specialFloat_of_isZero
  rw [h, Binary64.isZero, Binary64.parts_negativeZero]
  rfl

theorem specialFloat_of_parts_infinite {negative : Bool} (h : x.parts = .infinite negative) :
    specialFloat x = if negative then lit "-Infinity" else lit "Infinity" := by
  have hnumber : ¬ (x.isNaN = true ∨ x.isZero = true) := by
    rw [Binary64.isNaN, Binary64.isZero, h]
    simp
  rw [specialFloat, if_neg hnumber, Binary64.belowZero_of_parts_infinite h]

/-! ## What is written for a number -/

/-- A number that is written is written as its text, which is that of a finite number, or by one of the three
names. -/
theorem writtenFloat_cases {t : Text} (h : writtenFloat allowNaN x odd = .ok t) :
    (t = x.text ∧ odd = false ∧ x.isFinite = true ∧ x ≠ zero true) ∨
    (t = specialFloat x ∧ (odd = true ∨ x.isFinite = false ∨ x = zero true)) := by
  have hspecial : looksPlain x (if odd then lit "odd" else x.text) = false → t = specialFloat x := by
    intro hguess
    rw [writtenFloat_of_not_looksPlain hguess] at h
    cases allowNaN with
    | true => exact (Except.ok.inj h).symm
    | false => contradiction
  cases odd with
  | true => exact Or.inr ⟨hspecial (looksPlain_of_mem List.mem_cons_self), Or.inl rfl⟩
  | false =>
      cases hfinite : x.isFinite with
      | false => exact Or.inr ⟨hspecial (looksPlain_of_not_isFinite hfinite), Or.inr (Or.inl rfl)⟩
      | true =>
          by_cases hzero : x = zero true
          · exact Or.inr ⟨hspecial ((looksPlain_eq_false_iff hfinite).2 hzero), Or.inr (Or.inr hzero)⟩
          · have hguess := Bool.ne_false_iff.1 (mt (looksPlain_eq_false_iff hfinite).1 hzero)
            rw [writtenFloat_of_looksPlain hguess] at h
            exact Or.inl ⟨(Except.ok.inj h).symm, rfl, rfl, hzero⟩

/-- **Just zero with a minus sign is not written as the number it is.** Each other finite number is written as its
text, which is read as the number. Zero with a minus sign is treated as if it were not a number: written `NaN`,
or refused if such numbers are. Non-numbers and infinities have their three names, or are refused. -/
theorem writtenFloat_text_iff (allowNaN : Bool) (x : Binary64) :
    (x.isFinite = true →
      (writtenFloat allowNaN x false = .ok x.text ↔ x ≠ zero true) ∧ parse x.text = .ok (.float x)) ∧
    (x = zero true ∨ x.isNaN = true → writtenFloat allowNaN x false =
      if allowNaN then .ok (lit "NaN") else .error (.outOfRange x)) ∧
    (∀ negative, x = infinity negative → writtenFloat allowNaN x false =
      if allowNaN then .ok (if negative then lit "-Infinity" else lit "Infinity")
      else .error (.outOfRange x)) := by
  have hrefused : looksPlain x x.text = false → writtenFloat allowNaN x false =
      if allowNaN then .ok (specialFloat x) else .error (.outOfRange x) := fun hguess =>
    @writtenFloat_of_not_looksPlain allowNaN false x hguess
  refine ⟨fun hfinite => ⟨⟨fun hwritten hzero => ?_, fun hne => ?_⟩, parse_text hfinite⟩, ?_, ?_⟩
  · -- the name is read as something else than the text is
    rcases writtenFloat_cases hwritten with ⟨-, -, -, hne⟩ | ⟨htext, -⟩
    · exact hne hzero
    · have hread := parse_text hfinite
      rw [htext, specialFloat_of_eq_negativeZero hzero, parse_of_value (.name .nan)] at hread
      obtain rfl := Json.float.inj (Except.ok.inj hread)
      have hspecial := Binary64.isFinite_of_isNaN (beq_iff_eq.2 Binary64.parts_nan)
      rw [hfinite] at hspecial
      contradiction
  · refine writtenFloat_of_looksPlain (Bool.ne_false_iff.1 fun hguess => ?_)
    exact hne ((looksPlain_eq_false_iff hfinite).1 hguess)
  · rintro (hzero | hnan)
    · have hfinite : x.isFinite = true := by
        rw [hzero, Binary64.isFinite, Binary64.parts_negativeZero]
      rw [hrefused ((looksPlain_eq_false_iff hfinite).2 hzero), specialFloat_of_eq_negativeZero hzero]
    · rw [hrefused (looksPlain_of_not_isFinite (Binary64.isFinite_of_isNaN hnan)),
        specialFloat_of_isNaN hnan]
  · intro negative hinfinite
    have hparts : x.parts = .infinite negative := by
      rw [hinfinite, Binary64.parts_infinity]
    have hspecial : x.isFinite = false := by
      rw [hinfinite, Binary64.isFinite_infinity]
    rw [hrefused (looksPlain_of_not_isFinite hspecial), specialFloat_of_parts_infinite hparts]

/-- Zero with a minus sign is finite, and written as no number or refused. -/
theorem negativeZero_not_written :
    (zero true).isFinite = true ∧ (zero true).text = lit "-0.0" ∧
    writtenFloat true (zero true) false = .ok (lit "NaN") ∧
    writtenFloat false (zero true) false = .error (.outOfRange (zero true)) :=
  ⟨by decide +kernel, by decide +kernel, rfl, rfl⟩

end Wire

end ModuleStubs
