import ModuleStubs.Proofs.CType.Clean

/-!
# What cleaning leaves to be cleaned

Cleaning goes once over a type: marks at the end, then one `const` at the start, then the blanks. Each of
these can bring out work for one before it. Blanks between two marks hide the first of them (`HidesMark`),
and blanks or a `const` in front hide the next `const` (`HidesConst`). These are all the ways: a cleaned type
ends in a mark exactly if the type hid one, and starts with `const` exactly if the type hid one, and in just
these cases cleaning it once more takes more away (`clean_complete_iff`).
-/

set_option autoImplicit false

namespace ModuleStubs

namespace CType

/-- A mark with blanks behind it, and behind these nothing but marks. -/
def HidesMark (t : Text) : Prop :=
  ∃ u m blanks marks, isMark m = true ∧ blanks ≠ [] ∧ (∀ c ∈ blanks, isBlank c = true) ∧
    (∀ c ∈ marks, isMark c = true) ∧ t = u ++ m :: (blanks ++ marks)

/-- A `const` that does not come first, with only blanks, or another `const` and blanks, before it, and
with more behind it than blanks and marks at the end. -/
def HidesConst (t : Text) : Prop :=
  ∃ front blanks rest, (front = lit "const " ∨ front = [] ∧ blanks ≠ []) ∧
    (∀ c ∈ blanks, isBlank c = true) ∧ (∃ c ∈ dropMarks rest, isBlank c = false) ∧
    t = front ++ (blanks ++ (lit "const " ++ rest))

/-! ## The parts of a type -/

theorem isMark_of_isBlank {c : CodePoint} (h : isBlank c = true) : isMark c = false := by
  cases hmark : isMark c with
  | false => rfl
  | true =>
      simp only [isMark, Bool.or_eq_true, beq_iff_eq] at hmark
      rcases hmark with rfl | rfl <;> contradiction

/-- Nothing but marks is dropped at the end. -/
theorem exists_marks (t : Text) : ∃ marks, (∀ c ∈ marks, isMark c = true) ∧ t = dropMarks t ++ marks :=
  ⟨t.rtakeWhile isMark, fun _ hc => List.mem_rtakeWhile_imp hc,
    (List.rdropWhile_append_rtakeWhile (p := isMark) (l := t)).symm⟩

theorem dropMarks_append_marks {marks : Text} (h : ∀ c ∈ marks, isMark c = true) (t : Text) :
    dropMarks (t ++ marks) = dropMarks t := by
  induction marks using List.reverseRecOn with
  | nil => rw [List.append_nil]
  | append_singleton marks c ih =>
      rw [← List.append_assoc, dropMarks_concat (h c (by simp))]
      exact ih fun d hd => h d (List.mem_append_left _ hd)

theorem getLast?_dropMarks (t : Text) : ∀ c ∈ (dropMarks t).getLast?, isMark c = false := by
  intro c hc
  have hne : dropMarks t ≠ [] := by
    intro hnil
    rw [hnil] at hc
    contradiction
  have hlast : dropMarks t = t.rdropWhile isMark := rfl
  rw [Option.mem_def, List.getLast?_eq_getLast_of_ne_nil hne, Option.some.injEq] at hc
  subst hc
  have hkept := List.rdropWhile_last_not isMark t (hlast ▸ hne)
  simpa [hlast] using hkept

/-- One `const` is dropped at the start, or the text does not start with it. -/
theorem dropConst_cases (t : Text) :
    t = lit "const " ++ dropConst t ∨ ¬ lit "const " <+: t ∧ dropConst t = t := by
  by_cases hconst : lit "const " <+: t
  · obtain ⟨rest, rfl⟩ := hconst
    rw [dropConst_const]
    exact Or.inl rfl
  · exact Or.inr ⟨hconst, dropConst_eq_self hconst⟩

theorem dropConst_suffix (t : Text) : dropConst t <:+ t := by
  rcases dropConst_cases t with heq | ⟨-, heq⟩
  · exact ⟨lit "const ", heq.symm⟩
  · exact ⟨[], heq⟩

/-- What is dropped in front of a mark is not the mark. -/
theorem exists_dropConst_mark {m : CodePoint} (hm : isMark m = true) (u w : Text) :
    ∃ u', dropConst (u ++ m :: w) = u' ++ m :: w := by
  rcases dropConst_cases (u ++ m :: w) with heq | ⟨-, heq⟩
  · -- a `const` that reached the mark would contain it
    rcases List.append_eq_append_iff.1 heq with ⟨x, hconst, hrest⟩ | ⟨x, rfl, hrest⟩
    · cases x with
      | nil => exact ⟨[], hrest.symm⟩
      | cons d x =>
          obtain ⟨rfl, -⟩ := List.cons.inj hrest
          have hno : ∀ c ∈ lit "const ", isMark c = false := by decide
          have hletter := hno m (hconst ▸ by simp)
          rw [hm] at hletter
          contradiction
    · exact ⟨x, hrest⟩
  · exact ⟨u, heq⟩

theorem strip_append_mark {m : CodePoint} (hm : isMark m = true) (u : Text) :
    Text.strip (u ++ [m]) = Text.stripStart u ++ [m] := by
  apply Text.strip_append_word (List.cons_ne_nil m [])
  intro c hc
  obtain rfl := List.mem_singleton.1 hc
  cases hblank : isBlank c with
  | false => rfl
  | true =>
      rw [isMark_of_isBlank hblank] at hm
      contradiction

/-! ## Marks that are left -/

theorem mark_of_hidesMark {t : Text} (h : HidesMark t) : ∃ c ∈ (clean t).getLast?, isMark c = true := by
  obtain ⟨u, m, blanks, marks, hm, hne, hblanks, hmarks, rfl⟩ := h
  -- the blanks end what is left without the marks at the end
  have hdrop : dropMarks (u ++ m :: (blanks ++ marks)) = u ++ m :: blanks := by
    have hsplit : u ++ m :: (blanks ++ marks) = u ++ m :: blanks ++ marks := by simp
    rw [hsplit, dropMarks_append_marks hmarks]
    apply dropMarks_eq_self
    intro c hc
    have hlast : (u ++ m :: blanks).getLast? = blanks.getLast? := by
      rw [List.append_cons, List.getLast?_append, Option.or_of_isSome (by simpa using hne)]
    rw [hlast] at hc
    exact isMark_of_isBlank (hblanks c (List.mem_of_getLast? hc))
  obtain ⟨u', hconst⟩ := exists_dropConst_mark hm u blanks
  refine ⟨m, ?_, hm⟩
  rw [clean, hdrop, hconst, List.append_cons, Text.strip_append_blanks hblanks, strip_append_mark hm,
    List.getLast?_concat]
  rfl

theorem hidesMark_of_mark {t : Text} {m : CodePoint} (hm : m ∈ (clean t).getLast?)
    (hmark : isMark m = true) : HidesMark t := by
  obtain ⟨marks, hmarks, ht⟩ := exists_marks t
  obtain ⟨front, hfront⟩ := dropConst_suffix (dropMarks t)
  obtain ⟨before, after, hbefore, hafter, hstrip⟩ := Text.exists_blanks_strip (dropConst (dropMarks t))
  obtain ⟨s, hs⟩ := List.getLast?_eq_some_iff.1 hm
  change Text.strip (dropConst (dropMarks t)) = s ++ [m] at hs
  have hdrop : dropMarks t = front ++ before ++ s ++ m :: after := by
    rw [← hfront, hstrip, hs]
    simp
  refine ⟨front ++ before ++ s, m, after, marks, hmark, ?_, hafter, hmarks, ?_⟩
  · -- without blanks behind it the mark would have been dropped
    rintro rfl
    have hlast := getLast?_dropMarks t m (by rw [hdrop]; simp)
    rw [hmark] at hlast
    contradiction
  · rw [ht, hdrop]
    simp

/-! ## A `const` that is left -/

/-- The blank of a `const` keeps what stands before it. -/
theorem dropMarks_const_append (u rest : Text) :
    dropMarks (u ++ lit "const " ++ rest) = u ++ lit "const " ++ dropMarks rest := by
  apply dropMarks_append
  intro c hc
  have hsplit : u ++ lit "const " = u ++ lit "const" ++ [CodePoint.ofChar ' '] := by simp [lit]
  rw [hsplit, List.getLast?_concat] at hc
  obtain rfl := Option.some.inj hc
  decide

/-- A text that starts with a blank does not start with `const`. -/
theorem dropConst_blanks {blanks : Text} (hblanks : ∀ c ∈ blanks, isBlank c = true) (hne : blanks ≠ [])
    (t : Text) : dropConst (blanks ++ t) = blanks ++ t := by
  apply dropConst_eq_self
  rintro ⟨w, hw⟩
  cases blanks with
  | nil => exact hne rfl
  | cons b blanks =>
      obtain ⟨rfl, -⟩ := List.cons.inj hw
      have hletter := hblanks _ List.mem_cons_self
      contradiction

/-- A `const` stays at the start of a stripped text if more than blanks stands behind it. -/
theorem const_prefix_strip {rest : Text} (h : ∃ c ∈ rest, isBlank c = false) :
    lit "const " <+: Text.strip (lit "const " ++ rest) := by
  obtain ⟨c, hc, hsolid⟩ := h
  obtain ⟨before, after, -, hafter, hstrip⟩ := Text.exists_blanks_strip rest
  have hne : Text.strip rest ≠ [] := List.ne_nil_of_mem (Text.mem_strip hc hsolid)
  -- only the blanks at the end go
  have hself : Text.strip (lit "const " ++ (before ++ Text.strip rest)) =
      lit "const " ++ (before ++ Text.strip rest) := by
    apply Text.strip_eq_self
    · intro d hd
      obtain rfl := Option.some.inj hd
      decide
    · intro d hd
      rw [← List.append_assoc, List.getLast?_append, Option.or_of_isSome (by simpa using hne)] at hd
      exact Text.getLast?_stripEnd _ d hd
  have hsplit : lit "const " ++ rest = lit "const " ++ (before ++ Text.strip rest) ++ after := by
    rw [List.append_assoc, ← hstrip]
  rw [hsplit, Text.strip_append_blanks hafter, hself]
  exact List.prefix_append _ _

/-- A stripped text does not end in the blank of its `const`. -/
theorem exists_behind_const {t w : Text} (h : lit "const " ++ w = Text.strip t) :
    ∃ c ∈ w, isBlank c = false := by
  have hlast : ∀ c ∈ (lit "const " ++ w).getLast?, isBlank c = false := by
    rw [h]
    exact Text.getLast?_stripEnd _
  have hne : w ≠ [] := by
    rintro rfl
    exact absurd (hlast ' ' (by decide)) (by decide)
  refine ⟨w.getLast hne, List.getLast_mem hne, ?_⟩
  apply hlast
  rw [List.getLast?_append, List.getLast?_eq_getLast_of_ne_nil hne]
  rfl

theorem const_of_hidesConst {t : Text} (h : HidesConst t) : lit "const " <+: clean t := by
  obtain ⟨front, blanks, rest, hfront, hblanks, hmore, rfl⟩ := h
  have hsplit : ∀ w : Text, front ++ (blanks ++ (lit "const " ++ w)) =
      front ++ blanks ++ lit "const " ++ w := by simp
  have hconst : dropConst (front ++ (blanks ++ (lit "const " ++ dropMarks rest))) =
      blanks ++ (lit "const " ++ dropMarks rest) := by
    rcases hfront with rfl | ⟨rfl, hne⟩
    · exact dropConst_const _
    · exact dropConst_blanks hblanks hne _
  rw [clean, hsplit, dropMarks_const_append, ← hsplit, hconst, Text.strip_blanks_append hblanks]
  exact const_prefix_strip hmore

theorem hidesConst_of_const {t : Text} (h : lit "const " <+: clean t) : HidesConst t := by
  obtain ⟨marks, hmarks, ht⟩ := exists_marks t
  obtain ⟨before, after, hbefore, hafter, hstrip⟩ := Text.exists_blanks_strip (dropConst (dropMarks t))
  obtain ⟨w, hw⟩ := h
  change lit "const " ++ w = Text.strip (dropConst (dropMarks t)) at hw
  rw [← hw] at hstrip
  -- what stands behind the `const` keeps its end when the marks are dropped
  have hmore : ∃ c ∈ dropMarks (w ++ after ++ marks), isBlank c = false := by
    obtain ⟨c, hc, hsolid⟩ := exists_behind_const hw
    obtain ⟨front, hfront⟩ := dropConst_suffix (dropMarks t)
    have hsplit : dropMarks t = front ++ before ++ lit "const " ++ (w ++ after) := by
      rw [← hfront, hstrip]
      simp
    have hend : ∀ d ∈ (w ++ after).getLast?, isMark d = false := by
      intro d hd
      apply getLast?_dropMarks t d
      rw [hsplit, List.getLast?_append, Option.or_of_isSome (by simp [List.ne_nil_of_mem hc])]
      exact hd
    rw [dropMarks_append_marks hmarks, dropMarks_eq_self hend]
    exact ⟨c, List.mem_append_left after hc, hsolid⟩
  rcases dropConst_cases (dropMarks t) with heq | ⟨hno, heq⟩
  · refine ⟨lit "const ", before, w ++ after ++ marks, Or.inl rfl, hbefore, hmore, ?_⟩
    rw [ht, heq, hstrip]
    simp
  · refine ⟨[], before, w ++ after ++ marks, Or.inr ⟨rfl, ?_⟩, hbefore, hmore, ?_⟩
    · -- a `const` in the first place would have been dropped
      rintro rfl
      rw [heq] at hstrip
      apply hno
      rw [hstrip]
      exact ⟨w ++ after, by simp⟩
    · rw [← heq, hstrip] at ht
      rw [ht]
      simp

/-! ## Cleaning once more -/

/-- A text with nothing to drop is not changed. -/
theorem clean_eq_self {t : Text} (hstrip : Text.strip t = t) (hend : ∀ c ∈ t.getLast?, isMark c = false)
    (hconst : ¬ lit "const " <+: t) : clean t = t := by
  rw [clean, dropMarks_eq_self hend, dropConst_eq_self hconst, hstrip]

/-- A text that cleaning does not shorten has neither marks at its end nor a `const` at its start. -/
theorem of_clean_eq_self {t : Text} (h : clean t = t) :
    (∀ c ∈ t.getLast?, isMark c = false) ∧ ¬ lit "const " <+: t := by
  have hstrip : t.length ≤ (dropConst (dropMarks t)).length := by
    have hle := (Text.strip_isInfix (dropConst (dropMarks t))).length_le
    rwa [show Text.strip _ = t from h] at hle
  have hconst := (dropConst_suffix (dropMarks t)).length_le
  have hprefix : dropMarks t <+: t := List.rdropWhile_prefix isMark t
  have hmarks : dropMarks t = t := hprefix.eq_of_length_le (by omega)
  refine ⟨?_, ?_⟩
  · rw [← hmarks]
    exact getLast?_dropMarks t
  · rintro ⟨rest, rfl⟩
    rw [hmarks, dropConst_const, List.length_append] at hstrip
    have hlength : (lit "const ").length = 6 := rfl
    omega

/-- **What one cleaning leaves.** A cleaned type has no blanks around it. It ends in a mark exactly if the type
hid a mark, it starts with `const` exactly if the type hid a `const`, and it is cleaned to itself exactly if the
type hid neither. -/
theorem clean_complete_iff (t : Text) :
    (∀ c ∈ (clean t).head?, isBlank c = false) ∧ (∀ c ∈ (clean t).getLast?, isBlank c = false) ∧
    ((∃ c ∈ (clean t).getLast?, isMark c = true) ↔ HidesMark t) ∧
    (lit "const " <+: clean t ↔ HidesConst t) ∧
    (clean (clean t) = clean t ↔ ¬ HidesMark t ∧ ¬ HidesConst t) := by
  have hmark : (∃ c ∈ (clean t).getLast?, isMark c = true) ↔ HidesMark t :=
    ⟨fun ⟨_, hc, hmark⟩ => hidesMark_of_mark hc hmark, mark_of_hidesMark⟩
  have hconst : lit "const " <+: clean t ↔ HidesConst t := ⟨hidesConst_of_const, const_of_hidesConst⟩
  refine ⟨Text.head?_strip _, Text.getLast?_stripEnd _, hmark, hconst, ?_⟩
  rw [← hmark, ← hconst]
  constructor
  · intro h
    obtain ⟨hend, hstart⟩ := of_clean_eq_self h
    refine ⟨?_, hstart⟩
    rintro ⟨c, hc, htrue⟩
    rw [hend c hc] at htrue
    contradiction
  · rintro ⟨hend, hstart⟩
    refine clean_eq_self (Text.strip_strip _) ?_ hstart
    intro c hc
    exact Bool.eq_false_iff.2 fun htrue => hend ⟨c, hc, htrue⟩

/-- A reference to a pointer keeps its star where a space stands before the ampersand, and a `const` behind a space or
behind another one stays. -/
theorem clean_incomplete :
    clean (lit "int* &") = lit "int*" ∧ clean (clean (lit "int* &")) = lit "int" ∧
    clean (lit " const int") = lit "const int" ∧ clean (lit "const const int") = lit "const int" := by
  decide

end CType

end ModuleStubs
