import ModuleStubs.Number.Decimal
import ModuleStubs.Text.Utf8

/-!
# The bytes of a text determine it

The first byte of a code point says how many bytes follow it, and six bits of the number stand in each of these.
So the first code point can be read back from the bytes of a text (`firstPoint_utf8`), and the bytes
determine the text (`Text.utf8_injective`). Texts without halves of surrogate pairs, which make up all that is
encoded, come first.
-/

set_option autoImplicit false

namespace ModuleStubs

/-! ## Scalar texts -/

/-- No character is half of a surrogate pair. -/
@[simp] theorem CodePoint.isSurrogate_ofChar (c : Char) : (CodePoint.ofChar c).isSurrogate = false := by
  have hvalid : c.toNat.isValidChar := c.valid
  have hval : (CodePoint.ofChar c).val = c.toNat := rfl
  simp only [CodePoint.isSurrogate, Bool.and_eq_false_iff, decide_eq_false_iff_not]
  rcases hvalid with hlow | hhigh
  · omega
  · omega

namespace Text

theorem isScalar_iff {t : Text} : t.isScalar = true ↔ ∀ c ∈ t, c.isSurrogate = false := by
  simp [isScalar]

theorem isScalar_of_subset {s t : Text} (h : s ⊆ t) (ht : t.isScalar = true) : s.isScalar = true :=
  isScalar_iff.2 fun c hc => isScalar_iff.1 ht c (h hc)

@[simp] theorem isScalar_append {s t : Text} :
    (s ++ t).isScalar = true ↔ s.isScalar = true ∧ t.isScalar = true := by
  simp [isScalar]

@[simp] theorem isScalar_cons {c : CodePoint} {t : Text} :
    Text.isScalar (c :: t) = true ↔ c.isSurrogate = false ∧ t.isScalar = true := by
  simp [isScalar]

@[simp] theorem isScalar_lit (s : String) : (lit s).isScalar = true := by
  rw [isScalar_iff]
  intro c hc
  obtain ⟨d, -, rfl⟩ := List.mem_map.1 hc
  exact CodePoint.isSurrogate_ofChar d

theorem isScalar_decimal (n : Nat) : (decimal n).isScalar = true := by
  rw [isScalar_iff]
  intro c hc
  have hdigit := isDigit_of_mem_decimal n c hc
  simp only [CodePoint.isDigit, Bool.and_eq_true, decide_eq_true_eq] at hdigit
  simp only [CodePoint.isSurrogate, Bool.and_eq_false_iff, decide_eq_false_iff_not]
  omega

theorem isScalar_decimalInt (n : Int) : (decimalInt n).isScalar = true := by
  rw [decimalInt]
  split
  · exact isScalar_cons.2 ⟨CodePoint.isSurrogate_ofChar '-', isScalar_decimal _⟩
  · exact isScalar_decimal _

end Text

/-! ## Bytes -/

/-- The number of the first code point of a sequence of bytes, and the bytes behind it. -/
def firstPoint : List UInt8 → Nat × List UInt8
  | [] => (0, [])
  | a :: r =>
    let (lead, more) :=
      if a.toNat < 0x80 then (a.toNat, 0)
      else if a.toNat < 0xE0 then (a.toNat - 0xC0, 1)
      else if a.toNat < 0xF0 then (a.toNat - 0xE0, 2)
      else (a.toNat - 0xF0, 3)
    ((r.take more).foldl (fun n b => 64 * n + (b.toNat - 0x80)) lead, r.drop more)

theorem toNat_toUInt8 {n : Nat} (h : n < 256) : n.toUInt8.toNat = n := by
  rw [Nat.toUInt8_eq, UInt8.toNat_ofNat', Nat.mod_eq_of_lt h]

theorem firstPoint_utf8 (c : CodePoint) (r : List UInt8) :
    firstPoint (c.utf8 ++ r) = (c.val, r) := by
  have hc := c.isLt
  have hrest : ∀ n : Nat, (0x80 + n % 64).toUInt8.toNat - 0x80 = n % 64 := by
    intro n
    rw [toNat_toUInt8 (by omega)]
    omega
  -- one case for each number of bytes
  simp only [CodePoint.utf8]
  split
  · rename_i h₁
    simp only [List.cons_append, List.nil_append, firstPoint, toNat_toUInt8 (by omega : c.val < 256), h₁]
    simp
  · split
    · rename_i h₁ h₂
      have hlead : (0xC0 + c.val / 64).toUInt8.toNat = 0xC0 + c.val / 64 := toNat_toUInt8 (by omega)
      simp only [List.cons_append, List.nil_append, firstPoint, hlead]
      rw [if_neg (by omega), if_pos (by omega)]
      simp only [List.take_succ_cons, List.take_zero, List.foldl_cons, List.foldl_nil, hrest,
        List.drop_succ_cons, List.drop_zero, Prod.mk.injEq, and_true]
      omega
    · split
      · rename_i h₁ h₂ h₃
        have hlead : (0xE0 + c.val / 4096).toUInt8.toNat = 0xE0 + c.val / 4096 :=
          toNat_toUInt8 (by omega)
        simp only [List.cons_append, List.nil_append, firstPoint, hlead]
        rw [if_neg (by omega), if_neg (by omega), if_pos (by omega)]
        simp only [List.take_succ_cons, List.take_zero, List.foldl_cons, List.foldl_nil, hrest,
          List.drop_succ_cons, List.drop_zero, Prod.mk.injEq, and_true]
        omega
      · rename_i h₁ h₂ h₃
        have hlead : (0xF0 + c.val / 262144).toUInt8.toNat = 0xF0 + c.val / 262144 :=
          toNat_toUInt8 (by omega)
        simp only [List.cons_append, List.nil_append, firstPoint, hlead]
        rw [if_neg (by omega), if_neg (by omega), if_neg (by omega)]
        simp only [List.take_succ_cons, List.take_zero, List.foldl_cons, List.foldl_nil, hrest,
          List.drop_succ_cons, List.drop_zero, Prod.mk.injEq, and_true]
        omega

theorem CodePoint.utf8_ne_nil (c : CodePoint) : c.utf8 ≠ [] := by
  simp only [CodePoint.utf8]
  split
  · simp
  · split
    · simp
    · split <;> simp

namespace Text

theorem utf8_append (s t : Text) : utf8 (s ++ t) = utf8 s ++ utf8 t := List.flatMap_append

/-- Texts with the same bytes are equal. -/
theorem utf8_injective {s t : Text} (h : utf8 s = utf8 t) : s = t := by
  have hcons : ∀ (c : CodePoint) (u : Text), utf8 (c :: u) = c.utf8 ++ utf8 u :=
    fun c u => List.flatMap_cons
  induction s generalizing t with
  | nil =>
      cases t with
      | nil => rfl
      | cons d t =>
          rw [hcons] at h
          exact absurd (List.append_eq_nil_iff.1 h.symm).1 d.utf8_ne_nil
  | cons c s ih =>
      cases t with
      | nil =>
          rw [hcons] at h
          exact absurd (List.append_eq_nil_iff.1 h).1 c.utf8_ne_nil
      | cons d t =>
          rw [hcons, hcons] at h
          -- the first code point of both is read back
          have hfirst := firstPoint_utf8 c (utf8 s)
          rw [h, firstPoint_utf8] at hfirst
          obtain ⟨hval, hrest⟩ := Prod.mk.inj hfirst
          rw [CodePoint.ext hval, ih hrest.symm]

/-! ## Encoding -/

theorem encoded_of_isScalar {t : Text} (h : t.isScalar = true) : t.encoded = .ok t.utf8 := by
  have hnone : t.find? CodePoint.isSurrogate = none :=
    List.find?_eq_none.2 fun c hc => by simp [isScalar_iff.1 h c hc]
  rw [encoded, hnone]

/-- A text is encoded exactly if it is scalar, and by its bytes. -/
theorem encoded_eq_ok_iff {t : Text} {bytes : List UInt8} :
    t.encoded = .ok bytes ↔ t.isScalar = true ∧ bytes = t.utf8 := by
  constructor
  · intro h
    rw [encoded] at h
    split at h
    · contradiction
    · rename_i hnone
      have hscalar : t.isScalar = true :=
        isScalar_iff.2 fun c hc => by simpa using List.find?_eq_none.1 hnone c hc
      exact ⟨hscalar, (Except.ok.inj h).symm⟩
  · rintro ⟨hscalar, rfl⟩
    exact encoded_of_isScalar hscalar

/-- Two texts one after the other are encoded one after the other. -/
theorem encoded_append (s t : Text) :
    (s ++ t).encoded = s.encoded.bind fun a => t.encoded.map fun b => a ++ b := by
  rw [encoded, encoded, encoded, List.find?_append]
  cases s.find? CodePoint.isSurrogate with
  | some c => rfl
  | none =>
      cases t.find? CodePoint.isSurrogate with
      | some c => rfl
      | none => exact congrArg Except.ok (utf8_append s t)

end Text

end ModuleStubs
