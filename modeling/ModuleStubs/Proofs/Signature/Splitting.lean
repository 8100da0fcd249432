import ModuleStubs.Proofs.Signature.Parentheses

/-!
# Which signature texts are split

The parentheses of a text match if none of its prefixes closes more of them than it opens, and if the
whole text closes as many as it opens (`Text.Matched`). Counted from the left this is the same as closing
every parenthesis that is open, and no other (`Text.matched_iff_balanced`).

A signature text is split exactly if its parentheses match and it has one, and a call whose parts match
is split at the parentheses around its arguments (`roughSplit_matched`).
-/

set_option autoImplicit false

namespace ModuleStubs

namespace Text

/-! ## Matching parentheses -/

/-- The parentheses of a text match. -/
structure Matched (t : Text) : Prop where
  /-- No prefix closes more than it opens. -/
  opened : ∀ p, p <+: t → countOf ')' p ≤ countOf '(' p
  /-- The whole text closes as many as it opens. -/
  total : countOf '(' t = countOf ')' t

@[simp] theorem countOf_nil (c : CodePoint) : countOf c [] = 0 := rfl

theorem countOf_cons (c d : CodePoint) (t : Text) :
    countOf c (d :: t) = countOf c t + if d = c then 1 else 0 := by
  by_cases h : d = c <;> simp [countOf, h]

theorem forall_prefix_cons {P : Text → Prop} {c : CodePoint} {t : Text} :
    (∀ p, p <+: c :: t → P p) ↔ P [] ∧ ∀ p, p <+: t → P (c :: p) := by
  constructor
  · intro h
    exact ⟨h [] List.nil_prefix, fun p hp => h (c :: p) (List.cons_prefix_cons.2 ⟨rfl, hp⟩)⟩
  · rintro ⟨hnil, hcons⟩ p hp
    rcases List.prefix_cons_iff.1 hp with rfl | ⟨q, rfl, hq⟩
    · exact hnil
    · exact hcons q hq

theorem countOf_open (t : Text) : countOf '(' (CodePoint.ofChar '(' :: t) = countOf '(' t + 1 ∧
    countOf ')' (CodePoint.ofChar '(' :: t) = countOf ')' t := by
  simp [countOf_cons]

theorem countOf_close (t : Text) : countOf '(' (CodePoint.ofChar ')' :: t) = countOf '(' t ∧
    countOf ')' (CodePoint.ofChar ')' :: t) = countOf ')' t + 1 := by
  simp [countOf_cons]

/-- How many parentheses are open behind a text is what is opened less what is closed, as long as no
prefix closes more than is open. -/
theorem openAfter_eq_some_iff {t : Text} {depth after : Nat} :
    openAfter depth t = some after ↔
      (∀ p, p <+: t → countOf ')' p ≤ depth + countOf '(' p) ∧
        after + countOf ')' t = depth + countOf '(' t := by
  fun_induction openAfter depth t with
  | case1 depth => simp [List.prefix_nil, eq_comm]
  | case2 depth t ih =>
      refine ih.trans ?_
      simp only [forall_prefix_cons, countOf_open, countOf_nil]
      grind
  | case3 t hne =>
      -- the closing parenthesis alone is a prefix that closes too much
      refine ⟨fun h => absurd h.symm (Option.some_ne_none _), fun h => ?_⟩
      have hclosed := h.1 [CodePoint.ofChar ')'] (List.cons_prefix_cons.2 ⟨rfl, List.nil_prefix⟩)
      simp [countOf_close] at hclosed
  | case4 t d hne ih =>
      refine ih.trans ?_
      simp only [forall_prefix_cons, countOf_close, countOf_nil]
      grind
  | case5 depth c t hopen hclose ih =>
      refine ih.trans ?_
      simp only [forall_prefix_cons, countOf_cons, if_neg hopen, if_neg hclose, countOf_nil]
      grind

theorem matched_iff_balanced {t : Text} : t.Matched ↔ t.Balanced := by
  rw [Balanced, openAfter_eq_some_iff]
  constructor
  · rintro ⟨hopened, htotal⟩
    exact ⟨by simpa using hopened, by simpa using htotal.symm⟩
  · rintro ⟨hopened, htotal⟩
    exact ⟨by simpa using hopened, by simpa using htotal.symm⟩

instance (t : Text) : Decidable t.Matched := decidable_of_iff _ matched_iff_balanced.symm

end Text

open Text

/-! ## The walk -/

/-- The walk gets to the end exactly if all parentheses are closed there. -/
theorem isSome_cutAtLastOpen_iff {depth : Nat} {t : Text} :
    (cutAtLastOpen depth (t.map fun c => [c])).isSome = true ↔ openAfter depth t = some 0 := by
  fun_induction openAfter depth t with
  | case1 depth => by_cases h : depth = 0 <;> simp [cutAtLastOpen, h]
  | case2 depth t ih =>
      change (cutAtLastOpen depth (lit "(" :: t.map fun c => [c])).isSome = true ↔ _
      rw [cutAtLastOpen_opening, Option.isSome_map]
      exact ih
  | case3 t hne =>
      change (cutAtLastOpen 0 (lit ")" :: t.map fun c => [c])).isSome = true ↔ _
      rw [cutAtLastOpen_unopened]
      simp
  | case4 t depth hne ih =>
      change (cutAtLastOpen (depth + 1) (lit ")" :: t.map fun c => [c])).isSome = true ↔ _
      rw [cutAtLastOpen_closing, Option.isSome_map]
      exact ih
  | case5 depth c t hopen hclose ih =>
      rw [List.map_cons, cutAtLastOpen_cons (by simpa [lit] using hopen) (by simpa [lit] using hclose),
        Option.isSome_map]
      exact ih

/-- From the top level on, every opening parenthesis starts a second part, if no later one does. -/
theorem isSome_second_iff {t a : Text} {s : Option Text}
    (h : cutAtLastOpen 0 (t.map fun c => [c]) = some (a, s)) :
    s.isSome = true ↔ CodePoint.ofChar '(' ∈ t := by
  induction t generalizing a with
  | nil =>
      obtain ⟨-, rfl⟩ := Prod.mk.inj (Option.some.inj h)
      simp
  | cons c t ih =>
      by_cases hopen : c = CodePoint.ofChar '('
      · subst hopen
        change cutAtLastOpen 0 (lit "(" :: t.map fun c => [c]) = some (a, s) at h
        rw [cutAtLastOpen_opening] at h
        obtain ⟨⟨b, r⟩, -, hcut⟩ := Option.map_eq_some_iff.1 h
        cases r <;> obtain ⟨-, rfl⟩ := Prod.mk.inj hcut <;> simp
      · by_cases hclose : c = CodePoint.ofChar ')'
        · subst hclose
          change cutAtLastOpen 0 (lit ")" :: t.map fun c => [c]) = some (a, s) at h
          rw [cutAtLastOpen_unopened] at h
          contradiction
        · rw [List.map_cons, cutAtLastOpen_cons (by simpa [lit] using hopen)
            (by simpa [lit] using hclose)] at h
          obtain ⟨⟨b, r⟩, hrest, hcut⟩ := Option.map_eq_some_iff.1 h
          obtain ⟨-, rfl⟩ := Prod.mk.inj hcut
          rw [ih hrest, List.mem_cons]
          exact (or_iff_right (Ne.symm hopen)).symm

/-! ## Splitting -/

theorem roughSplit_eq_none_iff {t : Text} :
    roughSplit t = none ↔ CodePoint.ofChar '(' ∉ t ∨ ¬ t.Matched := by
  have hwalk : _ ↔ t.Balanced := isSome_cutAtLastOpen_iff
  rw [roughSplit, roughSplitPieces_eq, matched_iff_balanced, ← hwalk]
  cases hcut : cutAtLastOpen 0 (t.map fun c => [c]) with
  | none => simp
  | some parts =>
      obtain ⟨a, s⟩ := parts
      have hsecond := isSome_second_iff hcut
      cases s with
      | none => simpa using hsecond
      | some s => simpa using hsecond

/-- **Which texts are split, and where.** A text is left whole exactly if it has no opening parenthesis or
if its parentheses do not match. Of a text followed by another one in parentheses, where the parentheses of
both match, the two parts are these texts without the blanks around them. -/
theorem roughSplit_matched (t : Text) :
    (roughSplit t = none ↔ CodePoint.ofChar '(' ∉ t ∨ ¬ t.Matched) ∧
    ∀ p q : Text, p.Matched → q.Matched →
      roughSplit (p ++ lit "(" ++ q ++ lit ")") = some (Text.strip p, Text.strip q) := by
  refine ⟨roughSplit_eq_none_iff, fun p q hp hq => ?_⟩
  exact roughSplit_call (matched_iff_balanced.1 hp) (matched_iff_balanced.1 hq)

/-- The first pair on the top level is taken for a part of the return type, a pair inside the last one for
a part of an argument, and two pairs that are the wrong way round are none. -/
theorem roughSplit_matched_getUnit :
    (lit "int (UnitTypes) getUnit").Matched ∧ (lit " int (YieldTypes), x ").Matched ∧
    roughSplit (lit "int (UnitTypes) getUnit" ++ lit "(" ++ lit " int (YieldTypes), x " ++ lit ")") =
      some (lit "int (UnitTypes) getUnit", lit "int (YieldTypes), x") ∧
    ¬ (lit "f)(").Matched ∧ roughSplit (lit "f)(") = none := by
  obtain ⟨hnone, hcall⟩ := roughSplit_matched (lit "f)(")
  have hfirst : (lit "int (UnitTypes) getUnit").Matched := by decide
  have hsecond : (lit " int (YieldTypes), x ").Matched := by decide
  have hwrong : ¬ (lit "f)(").Matched := by decide
  exact ⟨hfirst, hsecond, hcall _ _ hfirst hsecond, hwrong, hnone.2 (Or.inr hwrong)⟩

end ModuleStubs
