import ModuleStubs.Proofs.Text.Cut
import ModuleStubs.Wire.Reader
import ModuleStubs.Wire.Writer

/-!
# Strings and numerals read back

A string of the wire format is read back code point by code point: each code point is written as
itself, by a letter or by its number, and the reader undoes each of the three
(`stringBody_asciiPoint`), as long as the number has four digits. The numeral of an integer is read
back where nothing follows that could belong to it (`numeral?_decimalInt`).
-/

set_option autoImplicit false

namespace ModuleStubs

/-! ## Hexadecimal digits -/

theorem Text.hexValue?_hexDigit {d : Nat} (h : d < 16) :
    (Text.hexDigit d).hexValue? = some d := by
  have hall : ∀ d : Fin 16, (Text.hexDigit d.val).hexValue? = some d.val := by decide
  exact hall ⟨d, h⟩

/-- Four hexadecimal digits have the number as their value. -/
theorem Json.hexQuad?_hexFixed {n : Nat} (h : n < 0x10000) :
    Json.hexQuad? (Text.hexDigit (n / 16 / 16 / 16 % 16)) (Text.hexDigit (n / 16 / 16 % 16))
      (Text.hexDigit (n / 16 % 16)) (Text.hexDigit (n % 16)) = some n := by
  have hmod : ∀ m, m % 16 < 16 := fun m => Nat.mod_lt m (by decide)
  simp only [Json.hexQuad?, Text.hexValue?_hexDigit (hmod _)]
  have hvalue : ((n / 16 / 16 / 16 % 16 * 16 + n / 16 / 16 % 16) * 16 + n / 16 % 16) * 16 +
      n % 16 = n := by omega
  exact congrArg some hvalue

theorem Text.hexFour_of_lt {n : Nat} (h : n < 0x10000) :
    Text.hexFour n = [Text.hexDigit (n / 16 / 16 / 16 % 16), Text.hexDigit (n / 16 / 16 % 16),
      Text.hexDigit (n / 16 % 16), Text.hexDigit (n % 16)] := by
  rw [Text.hexFour, if_pos h]
  rfl

theorem CodePoint.ofNat_val (c : CodePoint) : CodePoint.ofNat c.val = c := by
  rw [CodePoint.ofNat, dif_pos c.isLt]

namespace Wire

/-! ## One code point of a string -/

/-- A code point in front of a string that was read. -/
def withPoint (c : CodePoint) (r : Except Stop (Text × Text)) : Except Stop (Text × Text) :=
  r.map fun (s, rest) => (c :: s, rest)

theorem stringBody_quote (t : Text) : stringBody (CodePoint.ofChar '"' :: t) = .ok ([], t) := by
  rw [stringBody.eq_def]
  rfl

theorem stringBody_plain {c : CodePoint} (hquote : c ≠ '"') (hslash : c ≠ '\\') (t : Text) :
    stringBody (c :: t) = withPoint c (stringBody t) := by
  rw [stringBody.eq_def]
  simp only [if_neg hquote, if_neg hslash]
  rfl

theorem stringBody_letter {e p : CodePoint} (hu : e ≠ 'u') (he : Json.shortEscape? e = some p)
    (t : Text) : stringBody (CodePoint.ofChar '\\' :: e :: t) = withPoint p (stringBody t) := by
  rw [stringBody.eq_def]
  simp [hu, he, withPoint]

theorem stringBody_number {x y z w : CodePoint} {n : Nat} (h : Json.hexQuad? x y z w = some n)
    (t : Text) :
    stringBody (CodePoint.ofChar '\\' :: CodePoint.ofChar 'u' :: x :: y :: z :: w :: t) =
      withPoint (CodePoint.ofNat n) (stringBody t) := by
  rw [stringBody.eq_def]
  simp [h, withPoint]

/-- The escape of one letter is a backslash and a letter that stands for the code point. -/
theorem letterEscape?_eq_some {c : CodePoint} {t : Text} (h : letterEscape? c = some t) :
    ∃ e : CodePoint, t = [CodePoint.ofChar '\\', e] ∧ e ≠ 'u' ∧ Json.shortEscape? e = some c := by
  -- each row of the table of escapes is checked against the reader's table
  have hrow : ∀ (d : CodePoint) (e : Char), c = d →
      letterEscape? d = some [CodePoint.ofChar '\\', CodePoint.ofChar e] ∧
        CodePoint.ofChar e ≠ 'u' ∧ Json.shortEscape? e = some d →
      ∃ e : CodePoint, t = [CodePoint.ofChar '\\', e] ∧ e ≠ 'u' ∧ Json.shortEscape? e = some c := by
    rintro d e rfl ⟨hd, hu, he⟩
    exact ⟨e, Option.some.inj (h.symm.trans hd), hu, he⟩
  have hval : ∀ n, c.val = n → c = CodePoint.ofNat n := by
    rintro n rfl
    exact c.ofNat_val.symm
  by_cases hslash : c = '\\'
  · exact hrow '\\' '\\' hslash (by decide)
  by_cases hquote : c = '"'
  · exact hrow '"' '"' hquote (by decide)
  by_cases h8 : c.val = 8
  · exact hrow _ 'b' (hval 8 h8) (by decide)
  by_cases h12 : c.val = 12
  · exact hrow _ 'f' (hval 12 h12) (by decide)
  by_cases h10 : c.val = 10
  · exact hrow _ 'n' (hval 10 h10) (by decide)
  by_cases h13 : c.val = 13
  · exact hrow _ 'r' (hval 13 h13) (by decide)
  by_cases h9 : c.val = 9
  · exact hrow _ 't' (hval 9 h9) (by decide)
  simp [letterEscape?, hslash, hquote, h8, h12, h10, h13, h9] at h

/-- Without an escape of one letter a code point is neither a quote nor a backslash. -/
theorem ne_of_letterEscape?_eq_none {c : CodePoint} (h : letterEscape? c = none) :
    c ≠ '"' ∧ c ≠ '\\' := by
  constructor
  · rintro rfl
    simp [letterEscape?] at h
  · rintro rfl
    simp [letterEscape?] at h

/-- A code point that was written is read back. -/
theorem stringBody_asciiPoint {c : CodePoint} (hc : c.val < 0x10000) (t : Text) :
    stringBody (asciiPoint c ++ t) = withPoint c (stringBody t) := by
  rw [asciiPoint]
  cases hletter : letterEscape? c with
  | some e =>
      obtain ⟨l, rfl, hu, hl⟩ := letterEscape?_eq_some hletter
      exact stringBody_letter hu hl t
  | none =>
      simp only
      split
      · obtain ⟨hquote, hslash⟩ := ne_of_letterEscape?_eq_none hletter
        exact stringBody_plain hquote hslash t
      · rw [numberEscape, Text.hexFour_of_lt hc]
        have hread := stringBody_number (Json.hexQuad?_hexFixed hc) t
        rw [CodePoint.ofNat_val] at hread
        exact hread

/-- The code points of a string up to its closing quote are read back. -/
theorem stringBody_flatMap_asciiPoint {s : Text} (hs : ∀ c ∈ s, c.val < 0x10000) (rest : Text) :
    stringBody (s.flatMap asciiPoint ++ CodePoint.ofChar '"' :: rest) = .ok (s, rest) := by
  induction s with
  | nil => exact stringBody_quote rest
  | cons c s ih =>
      have hc : c.val < 0x10000 := hs c List.mem_cons_self
      have hread := ih fun d hd => hs d (List.mem_cons_of_mem c hd)
      rw [List.flatMap_cons, List.append_assoc, stringBody_asciiPoint hc, hread]
      rfl

theorem asciiString_append (s rest : Text) :
    asciiString s ++ rest =
      CodePoint.ofChar '"' :: (s.flatMap asciiPoint ++ CodePoint.ofChar '"' :: rest) := by
  simp [asciiString, inQuotes, lit]

end Wire

/-! ## Numerals -/

theorem CodePoint.ne_of_isDigit {c : CodePoint} (hc : c.isDigit = true) {d : Char}
    (hd : (CodePoint.ofChar d).isDigit = false) : c ≠ CodePoint.ofChar d := by
  rintro rfl
  rw [hd] at hc
  contradiction

/-- A numeral starts with a digit. -/
theorem exists_decimal_eq_cons (n : Nat) : ∃ c ds, decimal n = c :: ds ∧ c.isDigit = true := by
  cases hn : decimal n with
  | nil => exact absurd hn (decimal_ne_nil n)
  | cons c ds =>
      have hc : c ∈ decimal n := by rw [hn]; exact List.mem_cons_self
      exact ⟨c, ds, rfl, isDigit_of_mem_decimal n c hc⟩

/-- The numeral of a number above zero does not start with a zero. -/
theorem head?_decimal_ne_zero (n : Nat) (h : 0 < n) : ∀ c ∈ (decimal n).head?, c ≠ '0' := by
  intro c hc
  rw [decimal] at hc
  split at hc
  · rename_i hlt
    obtain rfl := Option.some.inj hc
    intro heq
    have hval := congrArg CodePoint.val heq
    rw [digitPoint_val hlt] at hval
    have hzero : (CodePoint.ofChar '0').val = 48 := rfl
    omega
  -- the first digit of a longer numeral is that of the quotient
  · have hpos : 0 < n / 10 := by omega
    cases hn : decimal (n / 10) with
    | nil => exact absurd hn (decimal_ne_nil _)
    | cons d ds =>
        have hd := head?_decimal_ne_zero (n / 10) hpos
        rw [hn] at hc hd
        exact hd c hc
termination_by n
decreasing_by omega

namespace Json

/-- Nothing at the start of the text could belong to a numeral before it. -/
def endsNumeral : Text → Bool
  | [] => true
  | c :: _ => !(c.isDigit || c == '.' || c == 'e' || c == 'E')

theorem endsNumeral_cons {c : CodePoint} {t : Text} :
    endsNumeral (c :: t) = true ↔ c.isDigit = false ∧ c ≠ '.' ∧ c ≠ 'e' ∧ c ≠ 'E' := by
  simp [endsNumeral, and_assoc]

theorem spanDigits_append {ds rest : Text} (hds : ∀ c ∈ ds, c.isDigit = true)
    (hrest : endsNumeral rest = true) : spanDigits (ds ++ rest) = (ds, rest) := by
  apply spanDigits_of_stop hds
  intro c hc
  cases rest with
  | nil => contradiction
  | cons d t =>
      obtain rfl := Option.some.inj hc
      exact (endsNumeral_cons.1 hrest).1

theorem wholePart?_decimal (n : Nat) {rest : Text} (hrest : endsNumeral rest = true) :
    wholePart? (decimal n ++ rest) = some (decimal n, rest) := by
  have hdigits := isDigit_of_mem_decimal n
  have hhead := head?_decimal_ne_zero n
  rcases Nat.eq_zero_or_pos n with rfl | hpos
  · rw [decimal]
    rfl
  · cases hn : decimal n with
    | nil => exact absurd hn (decimal_ne_nil n)
    | cons c ds =>
        rw [hn] at hdigits hhead
        have hc : c ≠ '0' := hhead hpos c rfl
        have hd : c.isDigit = true := hdigits c List.mem_cons_self
        rw [List.cons_append, wholePart?, if_neg hc, if_pos hd, ← List.cons_append,
          spanDigits_append hdigits hrest]

theorem fraction?_eq_none {rest : Text} (hrest : endsNumeral rest = true) :
    fraction? rest = none := by
  cases rest with
  | nil => rfl
  | cons c t =>
      obtain ⟨-, hc, -⟩ := endsNumeral_cons.1 hrest
      rw [fraction?, if_neg hc]

theorem exponent?_eq_none {rest : Text} (hrest : endsNumeral rest = true) :
    exponent? rest = none := by
  cases rest with
  | nil => rfl
  | cons c t =>
      obtain ⟨-, -, he, hE⟩ := endsNumeral_cons.1 hrest
      rw [exponent?, if_neg (not_or.2 ⟨he, hE⟩)]

theorem unsignedNumeral?_decimal (negative : Bool) (n : Nat) {rest : Text}
    (hrest : endsNumeral rest = true) :
    unsignedNumeral? negative (decimal n ++ rest) =
      some (.int (if negative then -(n : Int) else n), rest) := by
  simp [unsignedNumeral?, wholePart?_decimal n hrest, fraction?_eq_none hrest,
    exponent?_eq_none hrest, ofNumeral, digitsValue_decimal]

/-- The numeral of an integer is read back where no more of a numeral follows. -/
theorem numeral?_decimalInt (n : Int) {rest : Text} (hrest : endsNumeral rest = true) :
    numeral? (decimalInt n ++ rest) = some (.int n, rest) := by
  rw [decimalInt]
  split
  · rename_i hneg
    have hvalue : -(n.natAbs : Int) = n := by omega
    rw [List.cons_append, numeral?, if_pos rfl, unsignedNumeral?_decimal true _ hrest, if_pos rfl,
      hvalue]
  · rename_i hpos
    have hvalue : (n.natAbs : Int) = n := by omega
    have hread := unsignedNumeral?_decimal false n.natAbs hrest
    obtain ⟨c, ds, hn, hc⟩ := exists_decimal_eq_cons n.natAbs
    rw [hn, List.cons_append] at hread ⊢
    rw [numeral?, if_neg (CodePoint.ne_of_isDigit hc (by decide)), hread, if_neg Bool.false_ne_true,
      hvalue]

/-- No name starts with a digit, or with a digit behind a minus sign. -/
theorem named?_digit {c : CodePoint} (hc : c.isDigit = true) (t : Text) :
    named? (c :: t) = none ∧ named? (CodePoint.ofChar '-' :: c :: t) = none := by
  have hne : ∀ x : Char, (CodePoint.ofChar x).isDigit = false → CodePoint.ofChar x ≠ c :=
    fun x hx => (CodePoint.ne_of_isDigit hc hx).symm
  have hn := hne 'n' (by decide)
  have ht := hne 't' (by decide)
  have hf := hne 'f' (by decide)
  have hN := hne 'N' (by decide)
  have hI := hne 'I' (by decide)
  have hminus := hne '-' (by decide)
  constructor
  · simp [named?, names, lit, Text.afterPrefix?, hn, ht, hf, hN, hI, hminus]
  -- only `-Infinity` has a minus sign, with a letter behind it
  · simp [named?, names, lit, Text.afterPrefix?, hI]

theorem named?_decimalInt (n : Int) (rest : Text) : named? (decimalInt n ++ rest) = none := by
  obtain ⟨c, ds, hn, hc⟩ := exists_decimal_eq_cons n.natAbs
  obtain ⟨hplain, hminus⟩ := named?_digit hc (ds ++ rest)
  rw [decimalInt, hn]
  split
  · exact hminus
  · exact hplain

end Json

end ModuleStubs
