import ModuleStubs.Proofs.Signature.TypeAndName

/-!
# Spellings of pointer parameters

The star of a pointer parameter may stand at its type, at its name or between them, and `const` may stand
in front (`Spelling`). Which of these is read as which type depends on where the star goes: the built-in
table is asked for the type with its star where that stands at the type, and without it otherwise.

The spellings of a parameter whose type has no blank are read with the same type exactly if the type has no
mark of its own and is none of `char`, `TCHAR` and `const` (`spellings_agree_iff`). The first two are in the
table with a star (`char_spellings_differ`).
-/

set_option autoImplicit false

namespace ModuleStubs

namespace Signature

variable {verbosity : Int}

/-- The spellings of a pointer parameter. -/
inductive Spelling where
  /-- The star stands at the type, as in `CyUnit* pUnit`. -/
  | onType
  /-- The star stands at the name, as in `CyUnit *pUnit`. -/
  | onName
  /-- The star stands between them, as in `CyUnit * pUnit`. -/
  | apart
  /-- The star stands at the type, and `const` in front of it, as in `const CyUnit* pUnit`. -/
  | const

namespace Spelling

/-- What stands before the last space of a spelling. -/
def before (type : Text) : Spelling → Text
  | onType => type ++ lit "*"
  | onName => type
  | apart => type ++ lit " *"
  | const => lit "const " ++ type ++ lit "*"

/-- What stands behind the last space of a spelling. -/
def after (name : Text) : Spelling → Text
  | onName => lit "*" ++ name
  | _ => name

/-- The text of a parameter in a spelling. -/
def text (type name : Text) (s : Spelling) : Text := s.before type ++ lit " " ++ s.after name

end Spelling

/-! ## Types of the spellings -/

section Types

variable {type : Text} (htype : ∀ c ∈ type, isBlank c = false)
include htype

theorem solid_starred : ∀ c ∈ type ++ lit "*", isBlank c = false := by
  intro c hc
  rcases List.mem_append.1 hc with hc | hc
  · exact htype c hc
  · obtain rfl := List.mem_singleton.1 hc
    decide

theorem python?_onType :
    CType.python? (Spelling.onType.before type) =
      (CType.builtin? (type ++ lit "*")).or (CType.pythonOfClean? (CType.dropMarks type)) := by
  have hmarks : CType.dropMarks (type ++ lit "*") = CType.dropMarks type :=
    CType.dropMarks_concat (by decide) type
  rw [Spelling.before, CType.python?, CType.clean_word (solid_starred htype), hmarks]

theorem python?_onName :
    CType.python? (Spelling.onName.before type) =
      (CType.builtin? type).or (CType.pythonOfClean? (CType.dropMarks type)) := by
  rw [Spelling.before, CType.python?, CType.clean_word htype]

theorem python?_apart (hconst : type ≠ lit "const") :
    CType.python? (Spelling.apart.before type) =
      (CType.builtin? (type ++ lit " *")).or (CType.pythonOfClean? type) := by
  rw [Spelling.before, CType.python?, CType.clean_apart htype hconst]

theorem python?_const :
    CType.python? (Spelling.const.before type) = CType.pythonOfClean? (CType.dropMarks type) := by
  have hmarks : CType.dropMarks (type ++ lit "*") = CType.dropMarks type :=
    CType.dropMarks_concat (by decide) type
  rw [Spelling.before, List.append_assoc, CType.python?, CType.builtin?_const,
    CType.clean_const (solid_starred htype), hmarks, Option.none_or]

end Types

/-! ## Types in the table -/

/-- Two types are in the table with a star. -/
theorem builtin?_starred {type r : Text} (htype : ∀ c ∈ type, isBlank c = false)
    (h : CType.builtin? (type ++ lit "*") = some r) : type = lit "char" ∨ type = lit "TCHAR" := by
  have hspaced : type ≠ lit "TCHAR " := by
    rintro rfl
    exact absurd (htype (CodePoint.ofChar ' ') (by decide)) (by decide)
  obtain ⟨hfound, -⟩ := CType.builtin?_marked h List.getLast?_concat (by decide)
  rcases hfound with hfound | hfound | hfound
  · exact Or.inl (List.append_cancel_right (hfound.trans (by decide : _ = lit "char" ++ lit "*")))
  · exact Or.inr (List.append_cancel_right (hfound.trans (by decide : _ = lit "TCHAR" ++ lit "*")))
  · exact absurd (List.append_cancel_right (hfound.trans (by decide : _ = lit "TCHAR " ++ lit "*"))) hspaced

/-- One of them is there also with a space before the star. -/
theorem builtin?_apart {type r : Text} (h : CType.builtin? (type ++ lit " *") = some r) :
    type = lit "TCHAR" := by
  have hspace : CodePoint.ofChar ' ' ∈ type ++ lit " *" := List.mem_append_right type (by decide)
  rcases CType.builtin?_spaced h hspace with ⟨hfound, -⟩ | ⟨hfound, -⟩
  · have hlast : (lit "unsigned int").getLast? = some (CodePoint.ofChar '*') := by
      rw [← hfound, List.getLast?_append]
      rfl
    exact absurd hlast (by decide)
  · exact List.append_cancel_right (hfound.trans (by decide : _ = lit "TCHAR" ++ lit " *"))

/-! ## Reading a spelling -/

section Reading

variable {type name : Text} (htype : ∀ c ∈ type, isBlank c = false)

include htype in
theorem head?_before {s : Spelling} (h : s = .onType ∨ type ≠ []) :
    ∃ c, (s.before type).head? = some c ∧ isBlank c = false := by
  cases type with
  | nil =>
      obtain rfl : s = .onType := h.resolve_right fun hne => hne rfl
      exact ⟨CodePoint.ofChar '*', rfl, by decide⟩
  | cons c t =>
      have hc := htype c List.mem_cons_self
      cases s with
      | onType | onName | apart => exact ⟨c, rfl, hc⟩
      | const => exact ⟨CodePoint.ofChar 'c', rfl, by decide⟩

/-- But for the star at the name, the type of a spelling ends with the star. -/
theorem getLast?_before {s : Spelling} (h : s ≠ .onName) (type : Text) :
    (s.before type).getLast? = some (CodePoint.ofChar '*') := by
  cases s with
  | onType => exact List.getLast?_concat
  | onName => contradiction
  | apart => rw [Spelling.before, List.getLast?_append]; rfl
  | const => exact List.getLast?_concat

include htype in
theorem strip_before {s : Spelling} (h : s = .onType ∨ type ≠ []) :
    Text.strip (s.before type) = s.before type := by
  obtain ⟨d, hd, hblank⟩ := head?_before htype h
  apply Text.strip_eq_self
  · intro c hc
    obtain rfl : d = c := Option.some.inj (Eq.trans (Eq.symm hd) hc)
    exact hblank
  · intro c hc
    by_cases hs : s = .onName
    · subst hs
      exact htype c (List.mem_of_getLast? hc)
    · rw [getLast?_before hs] at hc
      obtain rfl := Option.some.inj hc
      decide

theorem annotated?_before {s : Spelling} (h : s = .onName → CType.annotated? type = none) :
    CType.annotated? (s.before type) = none := by
  by_cases hs : s = .onName
  · subst hs
    exact h rfl
  · apply CType.annotated?_eq_none_of_last
    intro c hc
    rw [getLast?_before hs] at hc
    obtain rfl := Option.some.inj hc
    decide

theorem after_eq (name : Text) (s : Spelling) :
    s.after name = name ∨ s.after name = lit "*" ++ name := by
  cases s with
  | onName => exact Or.inr rfl
  | onType | apart | const => exact Or.inl rfl

include htype in
theorem strip_text_spelling {s : Spelling} (hname : isIdentifier name = true)
    (h : s = .onType ∨ type ≠ []) : Text.strip (s.text type name) = s.text type name := by
  obtain ⟨d, hd, hblank⟩ := head?_before htype h
  apply Text.strip_eq_self
  · intro c hc
    rw [Spelling.text, List.head?_append, List.head?_append, hd] at hc
    obtain rfl : d = c := Option.some.inj hc
    exact hblank
  · intro c hc
    -- the last code point belongs to the name
    rw [Spelling.text, getLast?_append_name hname (after_eq name s)] at hc
    exact solid_of_isIdentifier hname c (List.mem_of_getLast? hc)

include htype in
/-- A spelling is read with the type of what stands before its last space. -/
theorem result_readArgument_spelling {ctx : TypeContext} (hctx : ctx.overrides = []) {s : Spelling}
    (hname : isIdentifier name = true) (h : s = .onType ∨ type ≠ [])
    (hplain : s = .onName → CType.annotated? type = none) (path : Text) (index : Int) :
    (readArgument verbosity ctx path (s.text type name) index).result =
      .ok ((CType.python? (s.before type)).map fun m => typedArgument index (some m) none) :=
  result_readArgument_words hctx (strip_text_spelling htype hname h) (strip_before htype h)
    (annotated?_before hplain) hname (after_eq name s) path index

end Reading

/-! ## Agreement -/

section Agreement

variable {type m : Text} (htype : ∀ c ∈ type, isBlank c = false)
  (hm : CType.python? (Spelling.onType.before type) = some m)

include hm in
theorem ne_nil_of_onType : type ≠ [] := by
  rintro rfl
  contradiction

include hm in
theorem annotated?_of_onType : CType.annotated? type = none :=
  CType.annotated?_of_subset hm (List.subset_append_left _ _)

include htype in
/-- A type with a mark of its own is lost or changed in one of the spellings. -/
theorem isMark_of_agree (hall : ∀ s : Spelling, CType.python? (s.before type) = some m) :
    ∀ c ∈ type.getLast?, CType.isMark c = false := by
  intro c hlast
  rw [Bool.eq_false_iff]
  intro hc
  have hother : ∀ t : Text, t.getLast?.any CType.isMark = false → type ≠ t := by
    rintro t ht rfl
    rw [show type.getLast? = some c from hlast, Option.any_some, hc] at ht
    contradiction
  -- with a space before the star the own mark is kept, so the type is one that the table has with it
  have hapart := hall .apart
  rw [python?_apart htype (hother _ (by decide))] at hapart
  have hbuiltin : CType.builtin? type = some m := by
    rcases Option.or_eq_some_iff.1 hapart with hfound | ⟨-, hfound⟩
    · exact absurd (builtin?_apart hfound) (hother _ (by decide))
    · rcases CType.pythonOfClean?_cases hfound with hfound | ⟨hid, -⟩
      · exact hfound
      · rw [(isIdentifier_of_marked hlast hc).1] at hid
        contradiction
  -- behind `const` it is taken without its marks
  have hconst := hall .const
  rw [python?_const htype] at hconst
  obtain ⟨hfound, rfl⟩ := CType.builtin?_marked hbuiltin hlast hc
  rcases hfound with rfl | rfl | rfl
  · exact absurd hconst (by decide)
  · exact absurd hconst (by decide)
  · exact absurd (htype (CodePoint.ofChar ' ') (by decide)) (by decide)

theorem not_mem_of_agree (hall : ∀ s : Spelling, CType.python? (s.before type) = some m) :
    type ∉ [lit "char", lit "TCHAR", lit "const"] := by
  intro hmem
  simp only [List.mem_cons, List.not_mem_nil, or_false] at hmem
  have honName := (hall .onName).trans (hall .onType).symm
  have hapart := (hall .apart).trans (hall .onType).symm
  rcases hmem with rfl | rfl | rfl
  · exact absurd honName (by decide)
  · exact absurd honName (by decide)
  · exact absurd hapart (by decide)

include htype hm in
/-- Any other type is the same in all spellings. -/
theorem python?_before (hend : ∀ c ∈ type.getLast?, CType.isMark c = false)
    (hother : type ∉ [lit "char", lit "TCHAR", lit "const"]) (s : Spelling) :
    CType.python? (s.before type) = some m := by
  simp only [List.mem_cons, List.not_mem_nil, or_false, not_or] at hother
  obtain ⟨hchar, htchar, hconst⟩ := hother
  have hmarks := CType.dropMarks_eq_self hend
  have hstarred : CType.builtin? (type ++ lit "*") = none := by
    rw [Option.eq_none_iff_forall_ne_some]
    intro r hr
    exact (builtin?_starred htype hr).elim hchar htchar
  have hapart : CType.builtin? (type ++ lit " *") = none := by
    rw [Option.eq_none_iff_forall_ne_some]
    intro r hr
    exact htchar (builtin?_apart hr)
  -- nothing but the type itself is left in any spelling
  have hclean : CType.pythonOfClean? type = some m := by
    rwa [python?_onType htype, hstarred, hmarks, Option.none_or] at hm
  cases s with
  | onType => exact hm
  | onName =>
      rw [python?_onName htype, hmarks, CType.pythonOfClean?, ← Option.or_assoc, Option.or_self]
      exact hclean
  | apart => rw [python?_apart htype hconst, hapart, Option.none_or, hclean]
  | const => rw [python?_const htype, hmarks, hclean]

end Agreement

/-- **Spellings of a pointer parameter.** Where no override speaks about types and the star at the type is
accepted, all spellings are accepted with the same type exactly if the type has no mark at its end and is
none of `char`, `TCHAR` and `const`. -/
theorem spellings_agree_iff {ctx : TypeContext} (hctx : ctx.overrides = []) {type name : Text}
    (htype : ∀ c ∈ type, isBlank c = false) (hname : isIdentifier name = true) {path : Text}
    {index : Int} {arg : Argument}
    (haccepted : (readArgument verbosity ctx path (Spelling.onType.text type name) index).result =
      .ok (some arg)) :
    (∀ s : Spelling, ∃ a, (readArgument verbosity ctx path (s.text type name) index).result = .ok (some a) ∧
      a.main? = arg.main?) ↔
    (∀ c ∈ type.getLast?, CType.isMark c = false) ∧
      type ∉ [lit "char", lit "TCHAR", lit "const"] := by
  rw [result_readArgument_spelling htype hctx hname (Or.inl rfl) nofun] at haccepted
  obtain ⟨m, hm, rfl⟩ := Option.map_eq_some_iff.1 (Except.ok.inj haccepted)
  -- what is read off a spelling is decided by the type of what stands before its last space
  have hread : ∀ s : Spelling,
      (∃ a, (readArgument verbosity ctx path (s.text type name) index).result = .ok (some a) ∧
        a.main? = (typedArgument index (some m) none).main?) ↔
      CType.python? (s.before type) = some m := by
    intro s
    rw [result_readArgument_spelling htype hctx hname (Or.inr (ne_nil_of_onType hm))
      fun _ => annotated?_of_onType hm]
    cases CType.python? (s.before type) with
    | none => simp
    | some n => simp [typedArgument, Argument.main?]
  simp only [hread]
  constructor
  · intro hall
    exact ⟨isMark_of_agree htype hall, not_mem_of_agree hall⟩
  · rintro ⟨hend, hother⟩
    exact python?_before htype hm hend hother

theorem spellings_agree_iff_unit :
    (readArgument 0 {} (lit "Ext.f/arg0") (lit "CyUnit* pUnit") 0).result =
      .ok (some ⟨lit "arg0", some ⟨some (lit "CyUnit"), none⟩⟩) ∧
    ∀ s : Spelling, ∃ a,
      (readArgument 0 {} (lit "Ext.f/arg0") (s.text (lit "CyUnit") (lit "pUnit")) 0).result =
        .ok (some a) ∧ a.main? = some (lit "CyUnit") := by
  have haccepted : (readArgument 0 {} (lit "Ext.f/arg0")
      (Spelling.onType.text (lit "CyUnit") (lit "pUnit")) 0).result =
      .ok (some ⟨lit "arg0", some ⟨some (lit "CyUnit"), none⟩⟩) := by decide +kernel
  have hctx : ({} : TypeContext).overrides = [] := rfl
  have hagree := spellings_agree_iff hctx (by decide) (by decide) haccepted
  exact ⟨by decide +kernel, hagree.2 (by decide)⟩

/-- A string stays one only with the star at its type. -/
theorem char_spellings_differ :
    (∀ c ∈ lit "char", isBlank c = false) ∧ isIdentifier (lit "n") = true ∧
    (readArgument 0 {} (lit "Ext.f/arg0") (lit "char* n") 0).result =
      .ok (some ⟨lit "arg0", some ⟨some (lit "str"), none⟩⟩) ∧
    ∀ s ∈ [lit "char *n", lit "char * n", lit "const char* n"],
      (readArgument 0 {} (lit "Ext.f/arg0") s 0).result =
        .ok (some ⟨lit "arg0", some ⟨some (lit "char"), none⟩⟩) := by
  decide +kernel

end Signature

end ModuleStubs
