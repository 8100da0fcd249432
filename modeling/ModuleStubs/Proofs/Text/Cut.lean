import ModuleStubs.Json.Access
import ModuleStubs.Text.Blank

/-!
# Cuts and joins of texts

What the cuts of `Text` give on a text that was put together: a cut at the first or at the last
separator finds the parts around it, splitting undoes joining, and stripping leaves a text alone
that has no blank at either end. Literals are determined by their string (`lit_inj`), so that two
field names are told apart by `simp`.
-/

set_option autoImplicit false

namespace ModuleStubs

/-! ## Literals -/

theorem CodePoint.ofChar_injective {c d : Char} (h : CodePoint.ofChar c = CodePoint.ofChar d) :
    c = d := by
  have hval := congrArg CodePoint.val h
  exact Char.ext (UInt32.toNat_inj.1 hval)

@[simp] theorem CodePoint.ofChar_inj {c d : Char} :
    CodePoint.ofChar c = CodePoint.ofChar d ↔ c = d :=
  ⟨CodePoint.ofChar_injective, fun h => h ▸ rfl⟩

/-- Literals of different strings are different. -/
@[simp] theorem lit_inj {s t : String} : lit s = lit t ↔ s = t := by
  constructor
  · intro h
    have hlist := (List.map_inj_right fun _ _ => CodePoint.ofChar_injective).1 h
    exact String.toList_inj.1 hlist
  · rintro rfl
    rfl

namespace Text

/-! ## Cuts at a separator -/

theorem cutFirst_eq_none {sep : CodePoint} {t : Text} (h : sep ∉ t) : cutFirst sep t = none := by
  induction t with
  | nil => rfl
  | cons c t ih =>
      have hc := List.ne_of_not_mem_cons h
      have ht := List.not_mem_of_not_mem_cons h
      rw [cutFirst, if_neg (Ne.symm hc), ih ht]
      rfl

/-- The first cut of a text stands before a separator that nothing before it repeats. -/
theorem cutFirst_eq_some {sep : CodePoint} {a : Text} (b : Text) (h : sep ∉ a) :
    cutFirst sep (a ++ sep :: b) = some (a, b) := by
  induction a with
  | nil => simp [cutFirst]
  | cons c a ih =>
      have hc := List.ne_of_not_mem_cons h
      have ha := List.not_mem_of_not_mem_cons h
      rw [List.cons_append, cutFirst, if_neg (Ne.symm hc), ih ha]
      rfl

/-- A separator occurs in a text that can be cut at it. -/
theorem occursIn_singleton (sep : CodePoint) (t : Text) :
    occursIn [sep] t = (cutFirst sep t).isSome := by
  induction t with
  | nil => rfl
  | cons c t ih =>
      rw [occursIn, cutFirst, ih]
      by_cases hc : c = sep
      · simp [hc]
      · simp [hc, Ne.symm hc]

theorem cutLast_eq_some {sep : CodePoint} (a : Text) {b : Text} (h : sep ∉ b) :
    cutLast sep (a ++ sep :: b) = some (a, b) := by
  have hr : (a ++ sep :: b).reverse = b.reverse ++ sep :: a.reverse := by simp
  -- the last cut of a text is the first cut of its reverse
  rw [cutLast, hr, cutFirst_eq_some _ (by simpa using h)]
  simp

theorem cutLast_eq_none {sep : CodePoint} {t : Text} (h : sep ∉ t) : cutLast sep t = none := by
  rw [cutLast, cutFirst_eq_none (by simpa using h)]
  rfl

/-- A last cut loses only the separator, which the part after lacks. -/
theorem cutLast_append {sep : CodePoint} {t a b : Text} (h : cutLast sep t = some (a, b)) :
    t = a ++ sep :: b ∧ sep ∉ b := by
  obtain ⟨⟨b', a'⟩, hcut, heq⟩ := Option.map_eq_some_iff.1 h
  obtain ⟨rfl, rfl⟩ := Prod.mk.inj heq
  obtain ⟨ht, hsep⟩ := cutFirst_append hcut
  refine ⟨?_, by simpa using hsep⟩
  simpa using congrArg List.reverse ht

/-- A text with a separator can be cut at the last one. -/
theorem exists_last_cut {sep : CodePoint} {t : Text} (h : sep ∈ t) :
    ∃ a b, t = a ++ sep :: b ∧ sep ∉ b := by
  obtain ⟨b, a, hreverse, hb⟩ := List.eq_append_cons_of_mem (List.mem_reverse.2 h)
  refine ⟨a.reverse, b.reverse, ?_, by simpa using hb⟩
  simpa using congrArg List.reverse hreverse

theorem lastPiece_append {sep : CodePoint} (a : Text) {b : Text} (h : sep ∉ b) :
    lastPiece sep (a ++ sep :: b) = b := by
  rw [lastPiece, cutLast_eq_some a h]

/-! ## Prefixes -/

theorem afterPrefix?_eq_some {p t rest : Text} :
    afterPrefix? p t = some rest ↔ t = p ++ rest := by
  induction p generalizing t with
  | nil => simp [afterPrefix?, eq_comm]
  | cons a p ih =>
      cases t with
      | nil => simp [afterPrefix?]
      | cons b t =>
          by_cases h : a = b
          · subst h
            simp [afterPrefix?, ih]
          · simp [afterPrefix?, h, Ne.symm h]

/-! ## Splitting -/

theorem splitOn_of_not_mem {sep : CodePoint} {t : Text} (h : sep ∉ t) : splitOn sep t = [t] := by
  induction t with
  | nil => rfl
  | cons c t ih =>
      have hc := List.ne_of_not_mem_cons h
      have ht := List.not_mem_of_not_mem_cons h
      rw [splitOn, if_neg (Ne.symm hc), ih ht]

theorem splitOn_append_cons {sep : CodePoint} {a : Text} (t : Text) (h : sep ∉ a) :
    splitOn sep (a ++ sep :: t) = a :: splitOn sep t := by
  induction a with
  | nil => simp [splitOn]
  | cons c a ih =>
      have hc := List.ne_of_not_mem_cons h
      have ha := List.not_mem_of_not_mem_cons h
      rw [List.cons_append, splitOn, if_neg (Ne.symm hc), ih ha]

theorem join_cons_cons (sep t u : Text) (ts : List Text) :
    join sep (t :: u :: ts) = t ++ sep ++ join sep (u :: ts) := rfl

/-- A joined text has what the separator and the pieces have. -/
theorem forall_mem_join {P : CodePoint → Prop} {sep : Text} (hsep : ∀ c ∈ sep, P c) {ts : List Text}
    (hts : ∀ t ∈ ts, ∀ c ∈ t, P c) : ∀ c ∈ join sep ts, P c := by
  induction ts with
  | nil => exact fun _ hc => absurd hc List.not_mem_nil
  | cons t ts ih =>
      have ht := hts t List.mem_cons_self
      have hlater := ih fun u hu => hts u (List.mem_cons_of_mem t hu)
      cases ts with
      | nil => exact ht
      | cons u us =>
          simp only [join_cons_cons, List.forall_mem_append]
          exact ⟨⟨ht, hsep⟩, hlater⟩

/-- Splitting undoes joining: the first piece comes back as it was, the others with what
follows the separator in front of them. -/
theorem splitOn_join {sep : CodePoint} {pad : Text} (hpad : sep ∉ pad) :
    ∀ (t : Text) (ts : List Text), (∀ u ∈ t :: ts, sep ∉ u) →
      splitOn sep (join (sep :: pad) (t :: ts)) = t :: ts.map (pad ++ ·)
  | t, [], h => splitOn_of_not_mem (h t (by simp))
  | t, u :: us, h => by
      rw [join_cons_cons, List.append_assoc, List.cons_append,
        splitOn_append_cons _ (h t (by simp))]
      -- the padding goes to the piece behind it, which is why the tail is split as one text
      have hrest : ∀ (p : Text), sep ∉ p →
          splitOn sep (p ++ join (sep :: pad) (u :: us)) = (p ++ u) :: us.map (pad ++ ·) := by
        intro p hp
        have ih := splitOn_join hpad (p ++ u) us (by
          intro v hv
          rcases List.mem_cons.1 hv with rfl | hv
          · simp [hp, h u (by simp)]
          · exact h v (by simp [hv]))
        cases us with
        | nil => simpa [join] using ih
        | cons w ws => simpa [join_cons_cons] using ih
      rw [hrest pad hpad, List.map_cons]

/-! ## Stripping -/

theorem strip_isInfix (t : Text) : strip t <:+: t :=
  (stripEnd_isPrefix _).isInfix.trans (List.dropWhile_suffix _).isInfix

theorem strip_subset (t : Text) : strip t ⊆ t := (strip_isInfix t).subset

/-- Only blanks are stripped. -/
theorem mem_strip {t : Text} {c : CodePoint} (hc : c ∈ t) (hblank : isBlank c = false) :
    c ∈ strip t := by
  -- what is not dropped at one end of a text is still there
  have hkeep : ∀ u : Text, c ∈ u → c ∈ u.dropWhile isBlank := by
    intro u hu
    rw [← List.takeWhile_append_dropWhile (p := isBlank) (l := u), List.mem_append] at hu
    rcases hu with hu | hu
    · have hdropped := List.all_eq_true.1 List.all_takeWhile c hu
      rw [hblank] at hdropped
      contradiction
    · exact hu
  rw [strip, stripEnd, List.mem_reverse]
  apply hkeep
  rw [List.mem_reverse]
  exact hkeep t hc

/-- A text without blanks at its ends is not changed. -/
theorem strip_eq_self {t : Text} (hs : ∀ c ∈ t.head?, isBlank c = false)
    (he : ∀ c ∈ t.getLast?, isBlank c = false) : strip t = t := by
  rw [strip, stripStart_eq_self hs, stripEnd_eq_self he]

/-- A text without any blank is not changed. -/
theorem strip_of_solid {t : Text} (h : ∀ c ∈ t, isBlank c = false) : strip t = t := by
  apply strip_eq_self
  · intro c hc
    exact h c (List.mem_of_head? hc)
  · intro c hc
    exact h c (List.mem_of_getLast? hc)

/-- Blanks in front do not matter. -/
theorem strip_cons_of_isBlank {c : CodePoint} (t : Text) (h : isBlank c = true) :
    strip (c :: t) = strip t := by
  simp [strip, stripStart, h]

/-- Blanks at the end do not matter where something else stands before them. -/
theorem strip_append_of_isBlank {t : Text} {c : CodePoint} (h : isBlank c = true) :
    strip (t ++ [c]) = strip t := by
  have hend : ∀ u : Text, stripEnd (u ++ [c]) = stripEnd u := by
    intro u
    simp [stripEnd, h]
  -- in a text of blanks only nothing is left, with or without one more
  have hstart : stripStart (t ++ [c]) = stripStart t ++ [c] ∨
      stripStart (t ++ [c]) = [] ∧ stripStart t = [] := by
    rw [stripStart, List.dropWhile_append]
    split
    · rename_i hnil
      right
      exact ⟨by simp [h], by simpa [stripStart] using hnil⟩
    · exact Or.inl rfl
  rcases hstart with heq | ⟨hnil, hnil'⟩
  · rw [strip, heq, hend, strip]
  · rw [strip, strip, hnil, hnil']

theorem strip_blanks_append {u : Text} (hu : ∀ c ∈ u, isBlank c = true) (t : Text) :
    strip (u ++ t) = strip t := by
  induction u with
  | nil => rfl
  | cons c u ih =>
      rw [List.cons_append, strip_cons_of_isBlank _ (hu c List.mem_cons_self)]
      exact ih fun d hd => hu d (List.mem_cons_of_mem c hd)

theorem strip_append_blanks {u : Text} (hu : ∀ c ∈ u, isBlank c = true) (t : Text) :
    strip (t ++ u) = strip t := by
  induction u generalizing t with
  | nil => rw [List.append_nil]
  | cons c u ih =>
      rw [List.append_cons, ih (fun d hd => hu d (List.mem_cons_of_mem c hd)),
        strip_append_of_isBlank (hu c List.mem_cons_self)]

/-- Around a stripped text there were blanks only. -/
theorem exists_blanks_strip (t : Text) : ∃ before after, (∀ c ∈ before, isBlank c = true) ∧
    (∀ c ∈ after, isBlank c = true) ∧ t = before ++ strip t ++ after := by
  have hdropped : ∀ u : Text, ∀ c ∈ u.takeWhile isBlank, isBlank c = true := fun u =>
    List.all_eq_true.1 List.all_takeWhile
  refine ⟨t.takeWhile isBlank, ((stripStart t).reverse.takeWhile isBlank).reverse, hdropped t, ?_, ?_⟩
  · intro c hc
    exact hdropped _ c (List.mem_reverse.1 hc)
  · rw [strip, stripEnd, List.append_assoc, ← List.reverse_append, List.takeWhile_append_dropWhile,
      List.reverse_reverse, stripStart, List.takeWhile_append_dropWhile]

/-- In front of a word only the blanks at the start of a text are stripped. -/
theorem strip_append_word {u : Text} (hne : u ≠ []) (hu : ∀ c ∈ u, isBlank c = false) (t : Text) :
    strip (t ++ u) = stripStart t ++ u := by
  have hstart : stripStart (t ++ u) = stripStart t ++ u := by
    rw [stripStart, List.dropWhile_append]
    split
    · rename_i hblank
      have hnil : stripStart t = [] := by simpa [stripStart] using hblank
      rw [hnil, List.nil_append]
      exact stripStart_eq_self fun c hc => hu c (List.mem_of_head? hc)
    · rfl
  rw [strip, hstart]
  refine stripEnd_eq_self fun c hc => hu c ?_
  rw [List.getLast?_append, Option.or_of_isSome (by simpa using hne)] at hc
  exact List.mem_of_getLast? hc

/-- What a text ends with is not stripped, unless it is a blank. -/
theorem getLast?_strip {t : Text} {c : CodePoint} (h : t.getLast? = some c) (hc : isBlank c = false) :
    (strip t).getLast? = some c := by
  obtain ⟨u, rfl⟩ := List.getLast?_eq_some_iff.1 h
  rw [strip_append_word (List.cons_ne_nil c []) (by simpa using hc), List.getLast?_concat]

theorem strip_stripStart (t : Text) : strip (stripStart t) = strip t := by
  have hself : stripStart (stripStart t) = stripStart t :=
    stripStart_eq_self (head?_dropWhile_isBlank t)
  rw [strip, hself, strip]

end Text

end ModuleStubs
