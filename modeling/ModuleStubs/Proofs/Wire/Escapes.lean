import ModuleStubs.Proofs.Wire.ChunkLines

/-!
# Escapes with more than four digits

The writer of ASCII strings gives a code point by all hexadecimal digits of its number, at least four of
them, and the reader takes four. So a code point beyond the first 65536 is read back as another one, which its
first four digits name, with the other digits behind it (`reread`). The two texts are written alike
(`flatMap_asciiPoint_reread`). A string is restored just if it has no such code point, and two strings are
written alike just if they are read back alike (`asciiString_restored_iff`).
-/

set_option autoImplicit false

namespace ModuleStubs

namespace Wire

/-- What a code point is read back as, once it was written in ASCII: itself, if four digits name it;
otherwise the code point of its first four digits, and the other digits. -/
def reread (c : CodePoint) : Text :=
  if c.val < 0x10000 then [c]
  else if c.val < 0x100000 then [CodePoint.ofNat (c.val / 16), Text.hexDigit (c.val % 16)]
  else [CodePoint.ofNat (c.val / 16 / 16), Text.hexDigit (c.val / 16 % 16), Text.hexDigit (c.val % 16)]

theorem reread_of_isCodeUnit {c : CodePoint} (hc : c.isCodeUnit = true) : reread c = [c] :=
  if_pos (of_decide_eq_true hc)

/-! ## Single code points -/

theorem val_ofNat {n : Nat} (h : n < 0x110000) : (CodePoint.ofNat n).val = n := by
  rw [CodePoint.ofNat, dif_pos h]

/-- Digits are written as they are. -/
theorem asciiPoint_hexDigit (n : Nat) : asciiPoint (Text.hexDigit (n % 16)) = [Text.hexDigit (n % 16)] := by
  have hall : ∀ d : Fin 16, asciiPoint (Text.hexDigit d.val) = [Text.hexDigit d.val] := by decide
  exact hall ⟨n % 16, Nat.mod_lt n (by decide)⟩

/-- Behind the ASCII code points all are written by their numbers. -/
theorem asciiPoint_of_le {c : CodePoint} (hc : 127 ≤ c.val) : asciiPoint c = numberEscape c := by
  have hne : ∀ d : Char, d.toNat < 127 → c ≠ CodePoint.ofChar d := by
    rintro d hd rfl
    have hval : d.toNat = (CodePoint.ofChar d).val := rfl
    omega
  have hletter : letterEscape? c = none := by
    rw [letterEscape?, if_neg (hne '\\' (by decide)), if_neg (hne '"' (by decide)), if_neg (by omega),
      if_neg (by omega), if_neg (by omega), if_neg (by omega), if_neg (by omega)]
  rw [asciiPoint, hletter]
  exact if_neg (by omega)

/-- The code point of the first four digits of a longer number is written by these digits. -/
theorem asciiPoint_ofNat {n : Nat} (hlow : 127 ≤ n) (hhigh : n < 0x10000) :
    asciiPoint (CodePoint.ofNat n) = lit "\\u" ++ Text.hexFixed 4 n := by
  have hval : (CodePoint.ofNat n).val = n := val_ofNat (by omega)
  rw [asciiPoint_of_le (by omega), numberEscape, hval, Text.hexFour, if_pos hhigh]

/-- A code point and what it is read back as are written alike. -/
theorem flatMap_asciiPoint_reread (c : CodePoint) : (reread c).flatMap asciiPoint = asciiPoint c := by
  have hc := c.isLt
  by_cases hfour : c.val < 0x10000
  · rw [reread, if_pos hfour]
    exact List.append_nil (asciiPoint c)
  · rw [asciiPoint_of_le (c := c) (by omega), numberEscape, reread, Text.hexFour, if_neg hfour, if_neg hfour]
    -- a number of five digits is four digits and one more, a number of six digits two more
    by_cases hfive : c.val < 0x100000
    · rw [if_pos hfive, if_pos hfive, List.flatMap_cons, List.flatMap_singleton, asciiPoint_hexDigit,
        asciiPoint_ofNat (by omega) (by omega), List.append_assoc]
      rfl
    · rw [if_neg hfive, if_neg hfive, List.flatMap_cons, List.flatMap_cons, List.flatMap_singleton,
        asciiPoint_hexDigit, asciiPoint_hexDigit, asciiPoint_ofNat (by omega) (by omega),
        List.append_assoc, ← List.append_assoc (Text.hexFixed 4 _)]
      rfl

/-- Four digits name each code point that is read back. -/
theorem isCodeUnit_of_mem_reread {c d : CodePoint} (h : d ∈ reread c) : d.isCodeUnit = true := by
  have hc := c.isLt
  have hdigit : ∀ n, (Text.hexDigit (n % 16)).isCodeUnit = true := by
    intro n
    have hprintable := (isPrintable_hexDigit n).2
    exact decide_eq_true (by omega)
  have hfirst : ∀ n, n < 0x10000 → (CodePoint.ofNat n).isCodeUnit = true := by
    intro n hn
    exact decide_eq_true (by rwa [val_ofNat (by omega)])
  by_cases hfour : c.val < 0x10000
  · rw [reread, if_pos hfour] at h
    obtain rfl := List.mem_singleton.1 h
    exact decide_eq_true hfour
  rw [reread, if_neg hfour] at h
  split at h
  · simp only [List.mem_cons, List.not_mem_nil, or_false] at h
    rcases h with rfl | rfl
    · exact hfirst _ (by omega)
    · exact hdigit _
  · simp only [List.mem_cons, List.not_mem_nil, or_false] at h
    rcases h with rfl | rfl | rfl
    · exact hfirst _ (by omega)
    · exact hdigit _
    · exact hdigit _

/-! ## Strings -/

theorem asciiString_reread (s : Text) : asciiString (s.flatMap reread) = asciiString s := by
  rw [asciiString, asciiString, List.flatMap_assoc]
  simp only [flatMap_asciiPoint_reread]

/-- A string stays as it is just if four digits name each of its code points. -/
theorem flatMap_reread_eq_self_iff (s : Text) :
    s.flatMap reread = s ↔ ∀ c ∈ s, c.isCodeUnit = true := by
  constructor
  · intro h c hc
    rw [← h] at hc
    obtain ⟨d, -, hd⟩ := List.mem_flatMap.1 hc
    exact isCodeUnit_of_mem_reread hd
  · intro h
    calc s.flatMap reread = s.flatMap fun c => [c] :=
          List.flatMap_congr fun c hc => reread_of_isCodeUnit (h c hc)
      _ = s := List.flatMap_singleton' s

/-- Reading a written string ends at its end, with the string that it is read back as. -/
theorem stringAt_asciiString (s : Text) :
    stringAt (asciiString s) 1 = .ok (s.flatMap reread, (asciiString s).length) := by
  have hunits : ∀ c ∈ s.flatMap reread, c.val < 0x10000 := by
    intro c hc
    obtain ⟨d, -, hd⟩ := List.mem_flatMap.1 hc
    exact of_decide_eq_true (isCodeUnit_of_mem_reread hd)
  have hbody : dropTo (asciiString s) 1 =
      (s.flatMap reread).flatMap asciiPoint ++ [CodePoint.ofChar '"'] := by
    rw [← asciiString_reread, ← List.append_nil (asciiString _), asciiString_append]
    rfl
  rw [stringAt_eq, hbody, stringBody_flatMap_asciiPoint hunits]
  rfl

/-- **Strings of ASCII are restored as far as four digits reach.** A string is read back, up to the end of
its text, as itself just if each of its code points is among the first 65536, and otherwise as another one.
Two strings are written alike just if they are read back alike, so that two different strings of such code
points have different texts. -/
theorem asciiString_restored_iff (s t : Text) :
    stringAt (asciiString s) 1 = .ok (s.flatMap reread, (asciiString s).length) ∧
    (stringAt (asciiString s) 1 = .ok (s, (asciiString s).length) ↔ ∀ c ∈ s, c.isCodeUnit = true) ∧
    (asciiString s = asciiString t ↔ s.flatMap reread = t.flatMap reread) ∧
    ((∀ c ∈ s, c.isCodeUnit = true) → (∀ c ∈ t, c.isCodeUnit = true) → s ≠ t →
      asciiString s ≠ asciiString t) := by
  have halike : asciiString s = asciiString t ↔ s.flatMap reread = t.flatMap reread := by
    constructor
    · intro h
      have hs := stringAt_asciiString s
      rw [h, stringAt_asciiString t] at hs
      exact (Prod.mk.inj (Except.ok.inj hs)).1.symm
    · intro h
      rw [← asciiString_reread s, h, asciiString_reread t]
  refine ⟨stringAt_asciiString s, ?_, halike, ?_⟩
  · rw [stringAt_asciiString, ← flatMap_reread_eq_self_iff]
    constructor
    · intro h
      exact (Prod.mk.inj (Except.ok.inj h)).1
    · intro h
      rw [h]
  · intro hs ht hne h
    rw [halike, (flatMap_reread_eq_self_iff s).2 hs, (flatMap_reread_eq_self_iff t).2 ht] at h
    exact hne h

/-- A face, whose number has five digits, is written like another code point with a zero behind it, and
read back as these two. -/
theorem face_lost :
    asciiString [CodePoint.ofNat 0x1F600] = lit "\"\\u1f600\"" ∧
    asciiString [CodePoint.ofNat 0x1F60, CodePoint.ofChar '0'] = lit "\"\\u1f600\"" ∧
    stringAt (lit "\"\\u1f600\"") 1 = .ok ([CodePoint.ofNat 0x1F60, CodePoint.ofChar '0'], 9) := by
  decide +kernel

end Wire

end ModuleStubs
