import ModuleStubs.Text.Basic

/-!
# Decimal numerals

Numerals of natural numbers and integers, and their value. A numeral holds
digits only, is never empty, and has the number as its value
(`digitsValue_decimal`).
-/

set_option autoImplicit false

namespace ModuleStubs

/-- The digit of a number below ten. -/
def digitPoint (n : Nat) : CodePoint := CodePoint.ofNat (48 + n)

/-- The numeral of a natural number, without leading zeros. -/
def decimal (n : Nat) : Text :=
  if n < 10 then [digitPoint n] else decimal (n / 10) ++ [digitPoint (n % 10)]
termination_by n
decreasing_by omega

/-- The numeral of an integer, with a minus sign below zero. -/
def decimalInt (n : Int) : Text :=
  if n < 0 then '-' :: decimal n.natAbs else decimal n.natAbs

/-- The value of a sequence of digits. -/
def digitsValue (t : Text) : Nat := t.foldl (fun v c => 10 * v + c.digitValue) 0

/-- The number of digits of a numeral. -/
def digitCount (n : Nat) : Nat := (decimal n).length

/-- The digits at the start of a text, and the rest. -/
def spanDigits (t : Text) : Text × Text :=
  (t.takeWhile CodePoint.isDigit, t.dropWhile CodePoint.isDigit)

/-! ## Laws -/

theorem digitPoint_val {n : Nat} (h : n < 10) : (digitPoint n).val = 48 + n := by
  have : 48 + n < 0x110000 := by omega
  simp [digitPoint, CodePoint.ofNat, this]

theorem digitValue_digitPoint {n : Nat} (h : n < 10) : (digitPoint n).digitValue = n := by
  simp [CodePoint.digitValue, digitPoint_val h]

theorem isDigit_digitPoint {n : Nat} (h : n < 10) : (digitPoint n).isDigit = true := by
  simp [CodePoint.isDigit, digitPoint_val h]
  omega

theorem decimal_ne_nil (n : Nat) : decimal n ≠ [] := by
  rw [decimal]
  split <;> simp

theorem isDigit_of_mem_decimal (n : Nat) : ∀ c ∈ decimal n, c.isDigit = true := by
  intro c hc
  rw [decimal] at hc
  split at hc
  · rename_i h
    simp only [List.mem_singleton] at hc
    exact hc ▸ isDigit_digitPoint h
  · rcases List.mem_append.1 hc with hc | hc
    · exact isDigit_of_mem_decimal (n / 10) c hc
    · simp only [List.mem_singleton] at hc
      exact hc ▸ isDigit_digitPoint (Nat.mod_lt _ (by decide))
termination_by n
decreasing_by omega

/-- A numeral has the number as its value. -/
theorem digitsValue_decimal (n : Nat) : digitsValue (decimal n) = n := by
  rw [decimal]
  split
  · rename_i h
    simp [digitsValue, digitValue_digitPoint h]
  · have ih := digitsValue_decimal (n / 10)
    simp only [digitsValue, List.foldl_append, List.foldl_cons, List.foldl_nil] at ih ⊢
    rw [ih, digitValue_digitPoint (Nat.mod_lt _ (by decide))]
    omega
termination_by n
decreasing_by omega

theorem digitValue_lt {c : CodePoint} (h : c.isDigit = true) : c.digitValue < 10 := by
  have hrange : 48 ≤ c.val ∧ c.val ≤ 57 := by simpa [CodePoint.isDigit] using h
  rw [CodePoint.digitValue]
  omega

/-- A digit is the numeral of its value. -/
theorem decimal_digitValue {c : CodePoint} (h : c.isDigit = true) : decimal c.digitValue = [c] := by
  have hrange : 48 ≤ c.val ∧ c.val ≤ 57 := by simpa [CodePoint.isDigit] using h
  have hlt := digitValue_lt h
  have hpoint : digitPoint c.digitValue = c := by
    apply CodePoint.ext
    rw [digitPoint_val hlt, CodePoint.digitValue]
    omega
  rw [decimal, if_pos hlt, hpoint]

theorem decimal_snoc {k d : Nat} (hk : 0 < k) (hd : d < 10) :
    decimal (10 * k + d) = decimal k ++ [digitPoint d] := by
  have hquotient : (10 * k + d) / 10 = k := by omega
  have hrest : (10 * k + d) % 10 = d := by omega
  rw [decimal, if_neg (by omega), hquotient, hrest]

/-- Different numbers have different numerals. -/
theorem decimal_injective {m n : Nat} (h : decimal m = decimal n) : m = n := by
  rw [← digitsValue_decimal m, h, digitsValue_decimal]

theorem not_mem_decimal (n : Nat) {c : CodePoint} (hc : c.isDigit = false) : c ∉ decimal n := by
  intro hmem
  rw [isDigit_of_mem_decimal n c hmem] at hc
  contradiction

theorem decimalInt_of_neg {n : Int} (h : n < 0) :
    decimalInt n = CodePoint.ofChar '-' :: decimal n.natAbs := by
  rw [decimalInt, if_pos h]

theorem decimalInt_of_nonneg {n : Int} (h : 0 ≤ n) : decimalInt n = decimal n.natAbs := by
  rw [decimalInt, if_neg (Int.not_lt.2 h)]

theorem decimalInt_ne_nil (n : Int) : decimalInt n ≠ [] := by
  rcases Int.lt_or_le n 0 with h | h
  · rw [decimalInt_of_neg h]
    exact List.cons_ne_nil _ _
  · rw [decimalInt_of_nonneg h]
    exact decimal_ne_nil _

/-- Different integers have different numerals: the sign is no digit. -/
theorem decimalInt_injective {m n : Int} (h : decimalInt m = decimalInt n) : m = n := by
  have hminus : ∀ k : Nat, CodePoint.ofChar '-' ∉ decimal k := fun k => not_mem_decimal k rfl
  rcases Int.lt_or_le m 0 with hm | hm <;> rcases Int.lt_or_le n 0 with hn | hn
  · rw [decimalInt_of_neg hm, decimalInt_of_neg hn] at h
    have habs := decimal_injective (List.cons.inj h).2
    omega
  · rw [decimalInt_of_neg hm, decimalInt_of_nonneg hn] at h
    exact absurd (h ▸ List.mem_cons_self) (hminus n.natAbs)
  · rw [decimalInt_of_nonneg hm, decimalInt_of_neg hn] at h
    exact absurd (h ▸ List.mem_cons_self) (hminus m.natAbs)
  · rw [decimalInt_of_nonneg hm, decimalInt_of_nonneg hn] at h
    have habs := decimal_injective h
    omega

theorem not_mem_decimalInt (n : Int) {c : CodePoint} (hc : c.isDigit = false) (hsign : c ≠ '-') :
    c ∉ decimalInt n := by
  rcases Int.lt_or_le n 0 with h | h
  · rw [decimalInt_of_neg h]
    exact List.not_mem_cons_of_ne_of_not_mem hsign (not_mem_decimal _ hc)
  · rw [decimalInt_of_nonneg h]
    exact not_mem_decimal _ hc

/-! ### Digits with something behind them -/

/-- Digits are taken whole where no digit follows them. -/
theorem spanDigits_of_stop {ds rest : Text} (hds : ∀ c ∈ ds, c.isDigit = true)
    (hrest : ∀ c ∈ rest.head?, c.isDigit = false) : spanDigits (ds ++ rest) = (ds, rest) := by
  have hstop : rest.takeWhile CodePoint.isDigit = [] ∧
      rest.dropWhile CodePoint.isDigit = rest := by
    cases rest with
    | nil => exact ⟨rfl, rfl⟩
    | cons c t => simp [hrest c rfl]
  rw [spanDigits, List.takeWhile_append_of_pos hds, List.dropWhile_append_of_pos hds, hstop.1,
    hstop.2, List.append_nil]

/-- A numeral is determined where no digit follows it. -/
theorem decimal_append_inj {m n : Nat} {s t : Text} (hs : ∀ c ∈ s.head?, c.isDigit = false)
    (ht : ∀ c ∈ t.head?, c.isDigit = false) (h : decimal m ++ s = decimal n ++ t) :
    m = n ∧ s = t := by
  have hspan := spanDigits_of_stop (isDigit_of_mem_decimal m) hs
  rw [h, spanDigits_of_stop (isDigit_of_mem_decimal n) ht] at hspan
  obtain ⟨hdigits, hrest⟩ := Prod.mk.inj hspan
  exact ⟨(decimal_injective hdigits).symm, hrest.symm⟩

end ModuleStubs
