import ModuleStubs.Proofs.Text.Cut
import ModuleStubs.Wire.Position

/-!
# Lines and columns identify positions

A message names a position by its line and its column. The column is counted in two ways, from the start of
the text on the first line and from the line feed before it on the others. Both follow one rule for a step of
one code point: a line feed leads to column one of the next line, anything else to the next column of the same
line (`lineColumn_succ`). So line and column grow with the position, as pairs, and the words that a message
has for them determine it (`lineColumn_identifies`).
-/

set_option autoImplicit false

namespace ModuleStubs

namespace Wire

/-! ## The two ways of counting -/

theorem before_natCast (doc : Text) (p : Nat) : before doc p = doc.take p := by
  have hp : ¬ (p : Int) < 0 := by omega
  rw [before, if_neg hp, Int.toNat_natCast]

theorem countOf_eq_count (c : CodePoint) (t : Text) : Text.countOf c t = t.count c :=
  List.count_eq_length_filter.symm

theorem lineStart_append (a : Text) {b : Text} (h : CodePoint.ofChar '\n' ∉ b) :
    lineStart (a ++ CodePoint.ofChar '\n' :: b) = a.length + 1 := by
  rw [lineStart, Text.lastPiece_append a h]
  simp only [List.length_append, List.length_cons]
  omega

/-- On the first line the column is the position. -/
theorem lineColumn_first {doc : Text} {p : Nat} (h : CodePoint.ofChar '\n' ∉ doc.take p) :
    lineColumn doc p = (1, (p : Int)) := by
  have hfeeds : Text.countOf '\n' (doc.take p) = 0 := by
    rw [countOf_eq_count]
    exact List.count_eq_zero.2 h
  simp only [lineColumn, before_natCast, hfeeds, if_true]

/-- On the other lines the column is one more than the length of the line up to the position. -/
theorem lineColumn_later {doc a b : Text} {p : Nat} (hp : p ≤ doc.length)
    (htake : doc.take p = a ++ CodePoint.ofChar '\n' :: b) (hb : CodePoint.ofChar '\n' ∉ b) :
    lineColumn doc p = ((a.count (CodePoint.ofChar '\n') : Int) + 2, (b.length : Int) + 1) := by
  have hlength : p = a.length + (b.length + 1) := by
    have := congrArg List.length htake
    simpa [Nat.min_eq_left hp] using this
  have hfeeds : Text.countOf '\n' (doc.take p) = a.count (CodePoint.ofChar '\n') + 1 := by
    rw [countOf_eq_count, htake, List.count_append, List.count_cons_self, List.count_eq_zero.2 hb]
  have hsome : Text.countOf '\n' (doc.take p) ≠ 0 := by omega
  simp only [lineColumn, before_natCast, if_neg hsome]
  rw [hfeeds, htake, lineStart_append a hb]
  ext <;> simp only <;> omega

/-- The line is one more than the number of line feeds before the position. -/
theorem line_eq_count (doc : Text) (p : Nat) :
    (lineColumn doc p).1 = (doc.take p).count (CodePoint.ofChar '\n') + 1 := by
  simp only [lineColumn, before_natCast, ← countOf_eq_count]
  split
  · rename_i hfeeds
    rw [hfeeds]
    rfl
  · rfl

/-! ## One step and many -/

/-- A step over a line feed leads to the next line, any other step to the next column. -/
theorem lineColumn_succ {doc : Text} {p : Nat} {c : CodePoint} (h : doc[p]? = some c) :
    lineColumn doc (p + 1 : Nat) =
      if c = '\n' then ((lineColumn doc p).1 + 1, 1)
      else ((lineColumn doc p).1, (lineColumn doc p).2 + 1) := by
  have hp : p < doc.length := (List.getElem?_eq_some_iff.1 h).1
  have htake : doc.take (p + 1) = doc.take p ++ [c] := by
    rw [List.take_add_one, h]
    rfl
  by_cases hc : c = '\n'
  · subst hc
    rw [if_pos rfl, line_eq_count, lineColumn_later hp htake List.not_mem_nil]
    ext <;> simp only [List.length_nil] <;> omega
  · rw [if_neg hc]
    by_cases hfeed : CodePoint.ofChar '\n' ∈ doc.take p
    -- on a later line both columns are counted from the same line feed
    · obtain ⟨a, b, hab, hb⟩ := Text.exists_last_cut hfeed
      have hlast : CodePoint.ofChar '\n' ∉ b ++ [c] := by
        simp [hb, Ne.symm hc]
      have hsucc : doc.take (p + 1) = a ++ CodePoint.ofChar '\n' :: (b ++ [c]) := by
        rw [htake, hab]
        simp
      rw [lineColumn_later hp hsucc hlast, lineColumn_later (Nat.le_of_lt hp) hab hb]
      simp
    · have hfirst : CodePoint.ofChar '\n' ∉ doc.take (p + 1) := by
        rw [htake]
        simp [hfeed, Ne.symm hc]
      rw [lineColumn_first hfirst, lineColumn_first hfeed]
      rfl

theorem lineColumn_lt_succ {doc : Text} {p : Nat} (h : p < doc.length) :
    Prod.Lex (· < ·) (· < ·) (lineColumn doc p) (lineColumn doc (p + 1 : Nat)) := by
  rw [lineColumn_succ (List.getElem?_eq_getElem h), Prod.lex_def]
  split
  · exact Or.inl (Int.lt_succ _)
  · exact Or.inr ⟨rfl, Int.lt_succ _⟩

/-- Line and column grow with the position. -/
theorem lineColumn_lt {doc : Text} {p q : Nat} (hpq : p < q) (hq : q ≤ doc.length) :
    Prod.Lex (· < ·) (· < ·) (lineColumn doc p) (lineColumn doc q) := by
  -- the first step is made; the induction is over those that follow it
  induction hpq with
  | refl => exact lineColumn_lt_succ hq
  | step hr ih =>
      have hlast := lineColumn_lt_succ hq
      have hbefore := ih (Nat.le_of_succ_le hq)
      rw [Nat.succ_eq_add_one]
      rw [Prod.lex_def] at hlast hbefore ⊢
      omega

/-! ## What a message says -/

/-- The words for a position name its line and its column. -/
theorem lineColumn_of_located {doc : Text} {p q : Int} (h : located doc p = located doc q) :
    lineColumn doc p = lineColumn doc q := by
  have hcut : ∀ r : Int, Text.cutFirst ' ' ((located doc r).drop 5) =
      some (decimalInt (lineColumn doc r).1, lit "column " ++ decimalInt (lineColumn doc r).2) := by
    intro r
    have htext : (located doc r).drop 5 = decimalInt (lineColumn doc r).1 ++
        CodePoint.ofChar ' ' :: (lit "column " ++ decimalInt (lineColumn doc r).2) := by
      simp [located, lit]
    rw [htext, Text.cutFirst_eq_some _ (not_mem_decimalInt _ rfl (by decide))]
  have hwords := hcut p
  rw [h, hcut q] at hwords
  obtain ⟨hline, hcolumn⟩ := Prod.mk.inj (Option.some.inj hwords)
  ext
  · exact (decimalInt_injective hline).symm
  · exact (decimalInt_injective (List.append_cancel_left hcolumn)).symm

/-- **Lines and columns identify positions.** For a position of a text, its end included, the line is one more than
the number of line feeds before it; every later position has a greater line, or the same line and a greater
column; and no other position is named by the same words. -/
theorem lineColumn_identifies (doc : Text) (p : Int) (hp : 0 ≤ p) (hend : p ≤ doc.length) :
    (lineColumn doc p).1 = (doc.take p.toNat).count (CodePoint.ofChar '\n') + 1 ∧
    (∀ q : Int, p < q → q ≤ doc.length →
      Prod.Lex (· < ·) (· < ·) (lineColumn doc p) (lineColumn doc q)) ∧
    ∀ q : Int, 0 ≤ q → q ≤ doc.length → located doc q = located doc p → q = p := by
  obtain ⟨p, rfl⟩ := Int.eq_ofNat_of_zero_le hp
  refine ⟨line_eq_count doc p, ?_, ?_⟩
  · intro q hpq hq
    obtain ⟨q, rfl⟩ := Int.eq_ofNat_of_zero_le (by omega : 0 ≤ q)
    exact lineColumn_lt (by omega) (by omega)
  · intro q hq hqend hwords
    obtain ⟨q, rfl⟩ := Int.eq_ofNat_of_zero_le hq
    have hsame := lineColumn_of_located hwords
    have hirrefl : ∀ r : Int × Int, ¬ Prod.Lex (· < ·) (· < ·) r r := by
      intro r hr
      rw [Prod.lex_def] at hr
      omega
    rcases Nat.lt_trichotomy q p with hlt | heq | hgt
    · exact absurd (hsame ▸ lineColumn_lt hlt (by omega)) (hirrefl _)
    · exact congrArg _ heq
    · exact absurd (hsame ▸ lineColumn_lt hgt (by omega)) (hirrefl _)

/-- The empty line between two others: its only position comes after the first line and before the last. -/
theorem lineColumn_identifies_emptyLine :
    (lineColumn (lit "ab\n\nc") 3).1 = 2 ∧
    Prod.Lex (· < ·) (· < ·) (lineColumn (lit "ab\n\nc") 3) (lineColumn (lit "ab\n\nc") 4) ∧
    located (lit "ab\n\nc") 2 ≠ located (lit "ab\n\nc") 3 := by
  have hend : (3 : Int) ≤ (lit "ab\n\nc").length := by decide
  obtain ⟨hline, hlater, hwords⟩ := lineColumn_identifies (lit "ab\n\nc") 3 (by decide) hend
  have hcount : ((lit "ab\n\nc").take (3 : Int).toNat).count (CodePoint.ofChar '\n') = 1 := by decide
  rw [hcount] at hline
  refine ⟨hline, hlater 4 (by decide) (by decide), ?_⟩
  intro hsame
  have hposition := hwords 2 (by decide) (by decide) hsame
  contradiction

end Wire

end ModuleStubs
