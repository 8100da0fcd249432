import ModuleStubs.Proofs.Signature.Splitting

/-!
# The parts of a signature text

The parts of a text that is split lie before and inside its rightmost pair of parentheses on the top level
(`LastPair`). A text with matched parentheses has such a pair as soon as it has a parenthesis
(`exists_lastPair`). The first part is what stands before the pair, whatever follows it. The second part is
cut out by position: the last code point of the text is taken for the closing parenthesis. So it is what
stands inside the pair only where nothing follows the pair; otherwise the closing parenthesis stays in it,
and its parentheses do not match (`roughSplit_lastPair`).
-/

set_option autoImplicit false

namespace ModuleStubs

namespace Text

/-- A text around its rightmost pair of parentheses on the top level. -/
structure LastPair (t before inside after : Text) : Prop where
  cut : t = before ++ lit "(" ++ inside ++ lit ")" ++ after
  before_matched : before.Matched
  inside_matched : inside.Matched
  /-- No parenthesis is opened behind the pair. -/
  no_open : CodePoint.ofChar '(' ∉ after
  /-- No parenthesis is closed behind the pair. -/
  no_close : CodePoint.ofChar ')' ∉ after

/-! ## Balanced texts in pieces -/

theorem openAfter_open (depth : Nat) (t : Text) :
    openAfter depth (CodePoint.ofChar '(' :: t) = openAfter (depth + 1) t := by
  rw [openAfter.eq_def]
  rfl

theorem openAfter_close (depth : Nat) (t : Text) :
    openAfter (depth + 1) (CodePoint.ofChar ')' :: t) = openAfter depth t := by
  rw [openAfter.eq_def]
  rfl

theorem openAfter_plain {c : CodePoint} (hopen : c ≠ CodePoint.ofChar '(')
    (hclose : c ≠ CodePoint.ofChar ')') (depth : Nat) (t : Text) :
    openAfter depth (c :: t) = openAfter depth t := by
  rw [openAfter.eq_def]
  simp only [if_neg hopen, if_neg hclose]

/-- A balanced text leaves as many parentheses open as there were. -/
theorem Balanced.openAfter {t : Text} (h : t.Balanced) (depth : Nat) :
    openAfter depth t = some depth := by
  rw [Balanced, openAfter_eq_some_iff] at h
  rw [openAfter_eq_some_iff]
  obtain ⟨hopened, htotal⟩ := h
  refine ⟨fun p hp => ?_, by omega⟩
  have hprefix := hopened p hp
  omega

theorem Balanced.append {t u : Text} (ht : t.Balanced) (hu : u.Balanced) : (t ++ u).Balanced := by
  rw [Balanced, openAfter_append, ht]
  exact hu

theorem Balanced.enclosed {t : Text} (ht : t.Balanced) : (lit "(" ++ t ++ lit ")").Balanced := by
  change Text.openAfter 0 (CodePoint.ofChar '(' :: (t ++ lit ")")) = some 0
  rw [openAfter_open, openAfter_append, ht.openAfter 1]
  rfl

/-- Blanks at the ends do not count. -/
theorem balanced_strip_iff {t : Text} : (strip t).Balanced ↔ t.Balanced := by
  obtain ⟨before, after, hbefore, hafter, ht⟩ := exists_blanks_strip t
  have hblank : ∀ {u : Text} {c : Char}, (∀ d ∈ u, isBlank d = true) →
      isBlank (CodePoint.ofChar c) = false → CodePoint.ofChar c ∉ u := by
    intro u c hu hc hmem
    rw [hu _ hmem] at hc
    contradiction
  rw [ht, balanced_append_iff (hblank hafter (by decide)) (hblank hafter (by decide)), Balanced,
    Balanced, openAfter_append, openAfter_of_not_mem (hblank hbefore (by decide))
    (hblank hbefore (by decide)), ← ht]
  rfl

/-! ## The closing parenthesis -/

/-- Below an open parenthesis, a text that closes all of them has the one that closes it: what stands in
between is balanced. -/
theorem exists_closing (t : Text) (depth : Nat) (h : openAfter (depth + 1) t = some 0) :
    ∃ inside rest, t = inside ++ lit ")" ++ rest ∧ inside.Balanced ∧ openAfter depth rest = some 0 := by
  match t with
  | [] =>
      simp [openAfter] at h
  | c :: t =>
      by_cases hopen : c = CodePoint.ofChar '('
      · -- the parenthesis opened here is closed first, and then the one before it
        subst hopen
        rw [openAfter_open] at h
        obtain ⟨inner, later, hlater, hinner, hrest⟩ := exists_closing t (depth + 1) h
        have hshorter : later.length < t.length + 1 := by
          rw [hlater]
          simp only [List.length_append]
          omega
        obtain ⟨outer, rest, rfl, houter, hrest⟩ := exists_closing later depth hrest
        refine ⟨lit "(" ++ inner ++ lit ")" ++ outer, rest, ?_, hinner.enclosed.append houter, hrest⟩
        simp [hlater, lit]
      · by_cases hclose : c = CodePoint.ofChar ')'
        · subst hclose
          rw [openAfter_close] at h
          exact ⟨[], t, rfl, rfl, h⟩
        · rw [openAfter_plain hopen hclose] at h
          obtain ⟨inside, rest, rfl, hinside, hrest⟩ := exists_closing t depth h
          refine ⟨c :: inside, rest, rfl, ?_, hrest⟩
          rw [Balanced, openAfter_plain hopen hclose]
          exact hinside
termination_by t.length

/-- A pair stays the last one behind a balanced text. -/
theorem LastPair.after_balanced {t before inside after u : Text} (h : LastPair t before inside after)
    (hu : u.Balanced) : LastPair (u ++ t) (u ++ before) inside after where
  cut := by
    rw [h.cut]
    simp only [List.append_assoc]
  before_matched := matched_iff_balanced.2 (hu.append (matched_iff_balanced.1 h.before_matched))
  inside_matched := h.inside_matched
  no_open := h.no_open
  no_close := h.no_close

/-- A balanced text has no parentheses, or a last pair of them. -/
theorem balanced_cases (t : Text) (h : t.Balanced) :
    (CodePoint.ofChar '(' ∉ t ∧ CodePoint.ofChar ')' ∉ t) ∨
      ∃ before inside after, LastPair t before inside after := by
  match t with
  | [] => exact Or.inl ⟨nofun, nofun⟩
  | c :: t =>
      by_cases hopen : c = CodePoint.ofChar '('
      · subst hopen
        rw [Balanced, openAfter_open] at h
        obtain ⟨inside, rest, rfl, hinside, hrest⟩ := exists_closing t 0 h
        have hshorter : rest.length < (inside ++ lit ")" ++ rest).length + 1 := by
          simp only [List.length_append]
          omega
        right
        -- the pair opened here is the last one unless there is one behind it
        rcases balanced_cases rest hrest with ⟨hno, hnc⟩ | ⟨before, inner, after, hpair⟩
        · exact ⟨[], inside, rest, by simp [lit], matched_iff_balanced.2 rfl,
            matched_iff_balanced.2 hinside, hno, hnc⟩
        · exact ⟨_, inner, after, hpair.after_balanced hinside.enclosed⟩
      · by_cases hclose : c = CodePoint.ofChar ')'
        · subst hclose
          simp [Balanced, openAfter] at h
        · rw [Balanced, openAfter_plain hopen hclose] at h
          rcases balanced_cases t h with ⟨hno, hnc⟩ | ⟨before, inside, after, hpair⟩
          · left
            simp [hno, hnc, Ne.symm hopen, Ne.symm hclose]
          · have hplain : Balanced [c] := by
              rw [Balanced, openAfter_plain hopen hclose]
              rfl
            exact Or.inr ⟨_, inside, after, hpair.after_balanced hplain⟩
termination_by t.length

/-- Matched parentheses have a last pair on the top level, if there are any. -/
theorem exists_lastPair {t : Text} (h : t.Matched) (hopen : CodePoint.ofChar '(' ∈ t) :
    ∃ before inside after, LastPair t before inside after := by
  rcases balanced_cases t (matched_iff_balanced.1 h) with ⟨hno, -⟩ | hpair
  · contradiction
  · exact hpair

/-- A closing parenthesis behind a balanced text is one too many. -/
theorem not_balanced_closed {t : Text} (ht : t.Balanced) (u : Text) :
    ¬ (t ++ lit ")" ++ u).Balanced := by
  rw [Balanced, List.append_assoc, openAfter_append, ht]
  exact (Option.some_ne_none 0).symm

end Text

open Text

/-! ## The two parts -/

theorem roughSplit_of_lastPair {t before inside after : Text} (h : LastPair t before inside after) :
    roughSplit t = some (strip before, strip (inside ++ lit ")" ++ after).dropLast) := by
  rw [h.cut]
  exact roughSplit_followed (matched_iff_balanced.1 h.before_matched)
    (matched_iff_balanced.1 h.inside_matched) h.no_open h.no_close

/-- The second part is matched exactly if nothing follows the pair. -/
theorem matched_second_iff {inside : Text} (h : inside.Matched) (after : Text) :
    (strip (inside ++ lit ")" ++ after).dropLast).Matched ↔ after = [] := by
  rw [matched_iff_balanced, balanced_strip_iff]
  rcases List.eq_nil_or_concat after with rfl | ⟨after, c, rfl⟩
  · have hinside : (inside ++ lit ")" ++ []).dropLast = inside := by
      rw [List.append_nil]
      exact List.dropLast_concat
    rw [hinside]
    exact iff_of_true (matched_iff_balanced.1 h) rfl
  · -- the code point that is taken off stands behind the closing parenthesis
    rw [List.concat_eq_append, ← List.append_assoc, List.dropLast_concat]
    exact iff_of_false (not_balanced_closed (matched_iff_balanced.1 h) after) (by simp)

/-- **The parts of a signature text.** A text that is split has a rightmost pair of parentheses on the top
level. The first part is what stands before this pair, without the blanks around it, and its parentheses
match, whatever follows the pair. The second part is what stands inside the pair, without the blanks around
it, exactly if nothing follows the pair, and only then its parentheses match: it always is what follows the
opening parenthesis, without its last code point and then without the blanks around it. -/
theorem roughSplit_lastPair {t first second : Text} (h : roughSplit t = some (first, second)) :
    (∃ before inside after, LastPair t before inside after) ∧
    ∀ before inside after, LastPair t before inside after →
      first = strip before ∧ first.Matched ∧
      (second = strip inside ↔ after = []) ∧ (second.Matched ↔ after = []) ∧
      second = strip (inside ++ lit ")" ++ after).dropLast := by
  constructor
  · have hsome : ¬ (CodePoint.ofChar '(' ∉ t ∨ ¬ t.Matched) := by
      rw [← roughSplit_eq_none_iff, h]
      nofun
    obtain ⟨hopen, hmatched⟩ := not_or.1 hsome
    exact exists_lastPair (Decidable.not_not.1 hmatched) (Decidable.not_not.1 hopen)
  · intro before inside after hpair
    obtain ⟨rfl, rfl⟩ := Prod.mk.inj (Option.some.inj (h.symm.trans (roughSplit_of_lastPair hpair)))
    have hmatched := matched_second_iff hpair.inside_matched after
    refine ⟨rfl, ?_, ?_, hmatched, rfl⟩
    · rw [matched_iff_balanced, balanced_strip_iff]
      exact matched_iff_balanced.1 hpair.before_matched
    · constructor
      · intro hsecond
        rw [hsecond] at hmatched
        rw [← hmatched, matched_iff_balanced, balanced_strip_iff]
        exact matched_iff_balanced.1 hpair.inside_matched
      · rintro rfl
        rw [List.append_nil]
        exact congrArg strip List.dropLast_concat

theorem roughSplit_lastPair_getUnit :
    roughSplit (lit "int (UnitTypes) getUnit( int (YieldTypes) x )") =
      some (lit "int (UnitTypes) getUnit", lit "int (YieldTypes) x") ∧
    LastPair (lit "int (UnitTypes) getUnit( int (YieldTypes) x )") (lit "int (UnitTypes) getUnit")
      (lit " int (YieldTypes) x ") [] ∧
    (lit "int (UnitTypes) getUnit").Matched ∧ (lit "int (YieldTypes) x").Matched ∧
    lit "int (YieldTypes) x" = strip (lit " int (YieldTypes) x ") := by
  have hsplit : roughSplit (lit "int (UnitTypes) getUnit( int (YieldTypes) x )") =
      some (lit "int (UnitTypes) getUnit", lit "int (YieldTypes) x") := by decide
  have hpair : LastPair (lit "int (UnitTypes) getUnit( int (YieldTypes) x )")
      (lit "int (UnitTypes) getUnit") (lit " int (YieldTypes) x ") [] :=
    ⟨by decide, by decide, by decide, by decide, by decide⟩
  obtain ⟨-, hparts⟩ := roughSplit_lastPair hsplit
  obtain ⟨-, hfirst, hinside, hsecond, -⟩ := hparts _ _ _ hpair
  exact ⟨hsplit, hpair, hfirst, hsecond.2 rfl, hinside.2 rfl⟩

/-- **A blank behind the arguments.** The closing parenthesis stays in the second part. -/
theorem closing_kept :
    LastPair (lit "void f(int x) ") (lit "void f") (lit "int x") (lit " ") ∧
    roughSplit (lit "void f(int x) ") = some (lit "void f", lit "int x)") ∧
    lit "int x)" ≠ strip (lit "int x") ∧ ¬ (lit "int x)").Matched :=
  ⟨⟨by decide, by decide, by decide, by decide, by decide⟩, by decide, by decide, by decide⟩

end ModuleStubs
