import ModuleStubs.CType.Annotated
import ModuleStubs.Proofs.CType.Clean

/-!
# C++ types without overrides

Where no override speaks about a type, its Python type is that of the built-in table, for the type as it
stands or else for the cleaned one, or else the cleaned type itself if it is an identifier
(`CType.python?`, `TypeContext.translate_of_no_overrides`). Such a type is made of identifiers, colons and
angle brackets with marks and blanks between them (`CType.point_of_python?`), so it has no annotation and
is its own alternative (`TypeContext.translateType_of_no_overrides`).
-/

set_option autoImplicit false

namespace ModuleStubs

/-! ## Identifiers -/

theorem isIdentifierPart_of_mem {t : Text} (h : isIdentifier t = true) :
    ∀ c ∈ t, isIdentifierPart c = true := by
  cases t with
  | nil => simp [isIdentifier] at h
  | cons c t =>
      obtain ⟨hc, ht⟩ : isIdentifierStart c = true ∧ ∀ d ∈ t, isIdentifierPart d = true := by
        simpa [isIdentifier] using h
      intro d hd
      rcases List.mem_cons.1 hd with rfl | hd
      · simp [isIdentifierPart, hc]
      · exact ht d hd

theorem ne_nil_of_isIdentifier {t : Text} (h : isIdentifier t = true) : t ≠ [] := by
  rintro rfl
  simp [isIdentifier] at h

/-- The numbers of the code points in identifiers. -/
theorem val_of_isIdentifierPart {c : CodePoint} (h : isIdentifierPart c = true) :
    (48 ≤ c.val ∧ c.val ≤ 57) ∨ (65 ≤ c.val ∧ c.val ≤ 90) ∨ c.val = 95 ∨
      (97 ≤ c.val ∧ c.val ≤ 122) := by
  simp [isIdentifierPart, isIdentifierStart, CodePoint.isLetter, CodePoint.isDigit] at h
  omega

/-- The characters below the digits are in no identifier. -/
theorem ne_ofChar_of_isIdentifierPart {c : CodePoint} (h : isIdentifierPart c = true) {d : Char}
    (hd : d.toNat < 48) : c ≠ CodePoint.ofChar d := by
  have hval := val_of_isIdentifierPart h
  rintro rfl
  simp only [CodePoint.ofChar] at hval
  omega

theorem isBlank_of_isIdentifierPart {c : CodePoint} (h : isIdentifierPart c = true) :
    isBlank c = false := by
  have hval := val_of_isIdentifierPart h
  simp [isBlank]
  omega

theorem solid_of_isIdentifier {t : Text} (h : isIdentifier t = true) : ∀ c ∈ t, isBlank c = false := by
  intro c hc
  exact isBlank_of_isIdentifierPart (isIdentifierPart_of_mem h c hc)

/-- A character that is no letter, no digit and no underscore is in no identifier. -/
theorem not_mem_of_isIdentifier {t : Text} (h : isIdentifier t = true) {c : Char}
    (hc : isIdentifierPart c = false) : CodePoint.ofChar c ∉ t := by
  intro hm
  have := isIdentifierPart_of_mem h _ hm
  rw [hc] at this
  exact Bool.noConfusion this

/-- An identifier starts with a code point that it may go on with. -/
theorem exists_head_of_isIdentifier {t : Text} (h : isIdentifier t = true) :
    ∃ c ∈ t.head?, isIdentifierPart c = true := by
  cases t with
  | nil => contradiction
  | cons c t => exact ⟨c, rfl, isIdentifierPart_of_mem h c List.mem_cons_self⟩

namespace CType

theorem isMark_of_isIdentifierPart {c : CodePoint} (h : isIdentifierPart c = true) :
    isMark c = false := by
  have hne : ∀ d : Char, d.toNat < 48 → c ≠ CodePoint.ofChar d := fun d =>
    ne_ofChar_of_isIdentifierPart h
  simp [isMark, hne]

/-- A text that ends with an identifier has no marks to drop. -/
theorem dropMarks_append_identifier {t : Text} (h : isIdentifier t = true) (before : Text) :
    dropMarks (before ++ t) = before ++ t := by
  apply dropMarks_eq_self
  intro c hc
  rw [List.getLast?_append_of_ne_nil _ (ne_nil_of_isIdentifier h)] at hc
  exact isMark_of_isIdentifierPart (isIdentifierPart_of_mem h c (List.mem_of_getLast? hc))

theorem isBlank_of_isMark {c : CodePoint} (h : isMark c = true) : isBlank c = false := by
  rcases Bool.or_eq_true_iff.1 h with h | h
  · rw [eq_of_beq h]
    decide
  · rw [eq_of_beq h]
    decide

/-! ## The table -/

theorem mem_builtins {t r : Text} (h : builtin? t = some r) : (t, r) ∈ builtins := by
  obtain ⟨before, after, heq, -⟩ := List.lookup_eq_some_iff.1 h
  rw [heq]
  exact List.mem_append_right before List.mem_cons_self

/-- What holds of all entries of the table holds of what is found in it. -/
theorem of_builtin? {P : Text → Text → Bool} (hall : builtins.all (fun e => P e.1 e.2) = true)
    {t r : Text} (h : builtin? t = some r) : P t r = true :=
  List.all_eq_true.1 hall _ (mem_builtins h)

/-- Code points of type names: those of identifiers, colons and angle brackets. -/
def isNamePoint (c : CodePoint) : Bool := isIdentifierPart c || (lit ":<>").contains c

theorem point_of_builtin? {t r : Text} (h : builtin? t = some r) :
    ∀ c ∈ t, isNamePoint c = true ∨ isBlank c = true ∨ isMark c = true := by
  have hall := of_builtin?
    (P := fun t _ => t.all fun c => isNamePoint c || isBlank c || isMark c) (by decide +kernel) h
  intro c hc
  simpa [or_assoc] using List.all_eq_true.1 hall c hc

theorem exists_head_of_builtin? {t r : Text} (h : builtin? t = some r) :
    ∃ c ∈ t.head?, isIdentifierPart c = true := by
  have hall := of_builtin? (P := fun t _ => t.head?.any isIdentifierPart) (by decide +kernel) h
  cases hhead : t.head? with
  | none =>
      rw [hhead] at hall
      contradiction
  | some c =>
      rw [hhead] at hall
      exact ⟨c, rfl, hall⟩

/-- Two built-in types have a space. -/
theorem builtin?_spaced {t r : Text} (h : builtin? t = some r) (hspace : CodePoint.ofChar ' ' ∈ t) :
    (t = lit "unsigned int" ∧ r = lit "int") ∨ (t = lit "TCHAR *" ∧ r = lit "str") := by
  have hall := of_builtin?
    (P := fun t r => decide (CodePoint.ofChar ' ' ∈ t →
      (t = lit "unsigned int" ∧ r = lit "int") ∨ (t = lit "TCHAR *" ∧ r = lit "str")))
    (by decide +kernel) h
  exact of_decide_eq_true hall hspace

/-- Three built-in types end with a mark. -/
theorem builtin?_marked {t r : Text} (h : builtin? t = some r) {c : CodePoint}
    (hlast : t.getLast? = some c) (hc : isMark c = true) :
    (t = lit "char*" ∨ t = lit "TCHAR*" ∨ t = lit "TCHAR *") ∧ r = lit "str" := by
  have hall := of_builtin?
    (P := fun t r => decide (t.getLast?.any isMark = true →
      (t = lit "char*" ∨ t = lit "TCHAR*" ∨ t = lit "TCHAR *") ∧ r = lit "str"))
    (by decide +kernel) h
  exact of_decide_eq_true hall (by simp [hlast, hc])

/-- No built-in type has `const` in front. -/
theorem builtin?_const (t : Text) : builtin? (lit "const " ++ t) = none := by
  rw [Option.eq_none_iff_forall_ne_some]
  intro r hr
  have hspace : CodePoint.ofChar ' ' ∈ lit "const " ++ t := List.mem_append_left t (by decide)
  have hconst : lit "const " <+: lit "const " ++ t := List.prefix_append _ _
  rcases builtin?_spaced hr hspace with ⟨heq, -⟩ | ⟨heq, -⟩
  · rw [heq] at hconst
    exact absurd hconst (by decide)
  · rw [heq] at hconst
    exact absurd hconst (by decide)

/-! ## Translation -/

/-- The Python type of a cleaned C++ type where no override speaks about it. -/
def pythonOfClean? (t : Text) : Option Text := (builtin? t).or (identifier? t)

/-- The Python type of a C++ type where no override speaks about it. -/
def python? (t : Text) : Option Text := (builtin? t).or (pythonOfClean? (clean t))

theorem pythonOfClean?_cases {t m : Text} (h : pythonOfClean? t = some m) :
    builtin? t = some m ∨ (isIdentifier t = true ∧ t = m) := by
  rcases Option.or_eq_some_iff.1 h with h | ⟨-, h⟩
  · exact Or.inl h
  · right
    rw [identifier?] at h
    split at h
    · rename_i hid
      exact ⟨hid, Option.some.inj h⟩
    · contradiction

theorem python?_cases {t m : Text} (h : python? t = some m) :
    builtin? t = some m ∨ builtin? (clean t) = some m ∨ (isIdentifier (clean t) = true ∧ clean t = m) := by
  rcases Option.or_eq_some_iff.1 h with h | ⟨-, h⟩
  · exact Or.inl h
  · exact Or.inr (pythonOfClean?_cases h)

/-- A type that is translated is made of names, blanks and marks. -/
theorem point_of_python? {t m : Text} (h : python? t = some m) :
    ∀ c ∈ t, isNamePoint c = true ∨ isBlank c = true ∨ isMark c = true := by
  intro c hc
  by_cases hmark : isMark c = true
  · exact Or.inr (Or.inr hmark)
  by_cases hblank : isBlank c = true
  · exact Or.inr (Or.inl hblank)
  by_cases hconst : c ∈ lit "const "
  · have hall : ∀ d ∈ lit "const ", isNamePoint d = true ∨ isBlank d = true := by decide
    exact (hall c hconst).imp_right Or.inl
  -- anything else is still in the cleaned type
  have hclean := mem_clean hc (Bool.eq_false_iff.2 hmark) (Bool.eq_false_iff.2 hblank) hconst
  rcases python?_cases h with hbuiltin | hbuiltin | ⟨hid, -⟩
  · exact point_of_builtin? hbuiltin c hc
  · exact point_of_builtin? hbuiltin c hclean
  · left
    rw [isNamePoint, isIdentifierPart_of_mem hid c hclean, Bool.true_or]

/-- A code point that is in no name, no blank and no mark is in no type that is translated. -/
theorem not_mem_of_python? {t m : Text} (h : python? t = some m) {c : Char}
    (hname : isNamePoint c = false) (hblank : isBlank c = false) (hmark : isMark c = false) :
    CodePoint.ofChar c ∉ t := by
  intro hc
  rcases point_of_python? h _ hc with hpoint | hpoint | hpoint
  · rw [hname] at hpoint
    contradiction
  · rw [hblank] at hpoint
    contradiction
  · rw [hmark] at hpoint
    contradiction

/-! ## Annotations -/

theorem afterPrefix?_eq_none {a : CodePoint} {p t : Text} (h : a ∉ t) :
    Text.afterPrefix? (a :: p) t = none := by
  cases t with
  | nil => rfl
  | cons b t => rw [Text.afterPrefix?, if_neg (List.ne_of_not_mem_cons h)]

theorem comment?_eq_none {t : Text} (h : CodePoint.ofChar '/' ∉ t) : comment? t = none := by
  have hd : CodePoint.ofChar '/' ∉ t.dropWhile isBlank := fun hm =>
    h ((List.dropWhile_suffix _).subset hm)
  have hp : Text.afterPrefix? (lit "/*") (t.dropWhile isBlank) = none := afterPrefix?_eq_none hd
  rw [comment?, hp]
  rfl

theorem beforeComment?_eq_none {t : Text} (h : CodePoint.ofChar '/' ∉ t) :
    ∀ n, beforeComment? t n = none
  | 0 => rfl
  | n + 1 => by
      rw [beforeComment?, comment?_eq_none fun hm => h (List.mem_of_mem_drop hm)]
      exact beforeComment?_eq_none h n

/-- A type without parentheses and slashes has no annotation. -/
theorem annotated?_eq_none {t : Text} (hparen : CodePoint.ofChar '(' ∉ t)
    (hslash : CodePoint.ofChar '/' ∉ t) : annotated? t = none := by
  have hp : parenthesised? t = none := by
    rw [parenthesised?, Text.cutLast_eq_none hparen]
    rfl
  rw [annotated?, hp]
  exact beforeComment?_eq_none hslash _

/-- A comment ends with a slash. -/
theorem getLast?_of_comment? {t annotation : Text} (h : comment? t = some annotation) :
    t.getLast? = some (CodePoint.ofChar '/') := by
  obtain ⟨body, hbody, h⟩ := Option.bind_eq_some_iff.1 h
  obtain ⟨inside, hinside, -⟩ := Option.bind_eq_some_iff.1 h
  have hlast : body.getLast? = some (CodePoint.ofChar '/') := by
    rw [← List.head?_reverse, Text.afterPrefix?_eq_some.1 hinside]
    rfl
  have hne : body ≠ [] := by
    rintro rfl
    contradiction
  -- the body is an end of the text
  obtain ⟨blanks, hblanks⟩ := List.dropWhile_suffix (l := t) isBlank
  rw [← hblanks, Text.afterPrefix?_eq_some.1 hbody, ← List.append_assoc,
    List.getLast?_append_of_ne_nil _ hne, hlast]

/-- A type that ends with something else than a parenthesis or a slash has no annotation. -/
theorem annotated?_eq_none_of_last {t : Text}
    (h : ∀ c ∈ t.getLast?, c ≠ CodePoint.ofChar ')' ∧ c ≠ CodePoint.ofChar '/') :
    annotated? t = none := by
  have hparen : parenthesised? t = none := by
    rw [Option.eq_none_iff_forall_ne_some]
    intro parts hparts
    obtain ⟨⟨before, after⟩, hcut, hinside⟩ := Option.bind_eq_some_iff.1 hparts
    obtain ⟨rfl, -⟩ := Text.cutLast_append hcut
    dsimp only at hinside
    split at hinside
    · rename_i hlast
      have hne : after ≠ [] := by
        rintro rfl
        contradiction
      refine (h _ ?_).1 rfl
      rw [List.append_cons, List.getLast?_append_of_ne_nil _ hne, hlast]
      exact rfl
    · obtain ⟨inside, hnone, -⟩ := Option.bind_eq_some_iff.1 hinside
      contradiction
  have hcomment : ∀ n, beforeComment? t n = none := by
    intro n
    induction n with
    | zero => rfl
    | succ n ih =>
        rw [beforeComment?]
        split
        · rename_i annotation hfound
          have hlast := getLast?_of_comment? hfound
          rw [List.getLast?_drop] at hlast
          split at hlast
          · contradiction
          · exact absurd rfl (h _ hlast).2
        · exact ih
  rw [annotated?, hparen]
  exact hcomment _

/-- No part of a type that is translated has an annotation. -/
theorem annotated?_of_subset {s t m : Text} (h : python? t = some m) (hsub : s ⊆ t) :
    annotated? s = none := by
  have hparen : CodePoint.ofChar '(' ∉ t := not_mem_of_python? h (by decide) (by decide) (by decide)
  have hslash : CodePoint.ofChar '/' ∉ t := not_mem_of_python? h (by decide) (by decide) (by decide)
  exact annotated?_eq_none (fun hc => hparen (hsub hc)) fun hc => hslash (hsub hc)

theorem annotated?_of_python? {t m : Text} (h : python? t = some m) : annotated? t = none :=
  annotated?_of_subset h (List.Subset.refl t)

end CType

namespace TypeContext

/-- A type without annotation counts as its own alternative. -/
theorem translateType_of_plain (ctx : TypeContext) {t : Text} (hparen : CodePoint.ofChar '(' ∉ t)
    (hslash : CodePoint.ofChar '/' ∉ t) :
    ctx.translateType t = (do
      let m ← ctx.translate false t
      let a ← ctx.translate true t
      return (m, if a = m then none else a)) := by
  simp only [translateType, translatePair, CType.annotated?_eq_none hparen hslash,
    Option.getD_none, bind_assoc, pure_bind]

variable {ctx : TypeContext} (hctx : ctx.overrides = [])
include hctx

theorem translate_of_no_overrides (alternative : Bool) (t : Text) :
    ctx.translate alternative t = .ok (CType.python? t) := by
  have hnone : ctx.override? (CType.clean t) = none := by
    rw [override?, hctx]
    rfl
  rw [translate, CType.python?, CType.pythonOfClean?]
  cases CType.builtin? t with
  | some r => rfl
  | none =>
      dsimp only
      cases CType.builtin? (CType.clean t) with
      | some r => rfl
      | none => simp only [hnone, Option.none_or]

theorem translateType_of_no_overrides {t : Text} (ht : CType.annotated? t = none) :
    ctx.translateType t = .ok (CType.python? t, none) := by
  rw [translateType, translatePair, ht]
  simp only [Option.getD_none, translate_of_no_overrides hctx]
  simp [bind, Except.bind, pure, Except.pure]

end TypeContext

end ModuleStubs
