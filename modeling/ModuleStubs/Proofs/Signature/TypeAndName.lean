import Mathlib.Data.List.Basic
import ModuleStubs.Proofs.Signature.Declaration

/-!
# Arguments of several words

Without overrides an argument with a space is always taken for a type and a name: it is cut at its last
space, and the type is the Python type of what stands before (`result_readArgument_cut`). The form of a
type alone is left to annotated types.

So a type of several words is not recognised as one. It ends with a mark, or it is `unsigned int`, or it has
`const` in front (`SpacedType`), and what is read is the type `const` or `unsigned` if the last word can be
a name, and nothing otherwise (`readArgument_spaced`).
-/

set_option autoImplicit false

namespace ModuleStubs

namespace Signature

variable {verbosity : Int}

/-! ## The last space -/

section Cut

variable {ctx : TypeContext} (hctx : ctx.overrides = [])
include hctx

/-- An argument with a space is cut at the last one into a type and a name. -/
theorem result_readArgument_cut {text before after : Text}
    (htext : Text.strip text = before ++ CodePoint.ofChar ' ' :: after)
    (hafter : CodePoint.ofChar ' ' ∉ after)
    (hwhole : CType.annotated? (Text.strip text) = none)
    (hbefore : CType.annotated? (Text.strip before) = none) (path : Text) (index : Int) :
    (readArgument verbosity ctx path text index).result = .ok
      (if isIdentifier (dropMark '&' (dropMark '*' (Text.strip after))) then
        (CType.python? (Text.strip before)).map fun m => typedArgument index (some m) none
      else none) := by
  have hspace : (Text.strip text).contains (CodePoint.ofChar ' ') = true := by
    rw [htext]
    simp
  -- a type without annotation is no alternative to itself, so the name is always split off
  have hnamed : readArgument verbosity ctx path text index =
      namedArgument verbosity ctx path (Text.strip text) index := by
    rw [readArgument]
    simp only [hspace, TypeContext.translateType_of_no_overrides hctx hwhole]
    simp
  rw [hnamed, namedArgument, htext, Text.cutLast_eq_some before hafter]
  simp only [Option.getD_some, TypeContext.translateType_of_no_overrides hctx hbefore]
  cases CType.python? (Text.strip before) with
  | none => simp
  | some m =>
      by_cases hname : isIdentifier (dropMark '&' (dropMark '*' (Text.strip after))) = true
      · simp [hname]
      · simp [hname]

end Cut

/-! ## Names and marks -/

theorem dropMark_eq_self {mark : CodePoint} {t : Text} (h : ∀ c ∈ t.head?, c ≠ mark) :
    dropMark mark t = t := by
  cases t with
  | nil => rfl
  | cons c t => rw [dropMark, if_neg (h c rfl)]

/-- Behind a mark in front of a name only blanks are dropped. -/
theorem getLast?_dropMark {t : Text} {c : CodePoint} (hlast : t.getLast? = some c)
    (hc : isBlank c = false) (mark : CodePoint) :
    dropMark mark t = [] ∨ (dropMark mark t).getLast? = some c := by
  cases t with
  | nil => contradiction
  | cons d t =>
      rw [dropMark]
      split
      · cases t with
        | nil => exact Or.inl rfl
        | cons e t =>
            right
            apply Text.getLast?_strip _ hc
            rwa [List.getLast?_cons_cons] at hlast
      · exact Or.inr hlast

/-- What ends with a mark is no name, whatever marks it starts with. -/
theorem isIdentifier_of_marked {t : Text} {c : CodePoint} (hlast : t.getLast? = some c)
    (hc : CType.isMark c = true) :
    isIdentifier t = false ∧ isIdentifier (dropMark '&' (dropMark '*' t)) = false := by
  have hblank := CType.isBlank_of_isMark hc
  have hnot : ∀ u : Text, u = [] ∨ u.getLast? = some c → isIdentifier u = false := by
    intro u hu
    rw [Bool.eq_false_iff]
    intro hid
    rcases hu with rfl | hu
    · contradiction
    · have hpart := isIdentifierPart_of_mem hid c (List.mem_of_getLast? hu)
      rw [CType.isMark_of_isIdentifierPart hpart] at hc
      contradiction
  refine ⟨hnot t (Or.inr hlast), hnot _ ?_⟩
  rcases getLast?_dropMark hlast hblank '*' with hnil | hstar
  · rw [hnil]
    exact Or.inl rfl
  · exact getLast?_dropMark hstar hblank '&'

/-- A star in front of a name is dropped. -/
theorem dropMark_name {name after : Text} (hname : isIdentifier name = true)
    (hafter : after = name ∨ after = lit "*" ++ name) :
    dropMark '&' (dropMark '*' after) = name := by
  have hamp : dropMark '&' name = name := dropMark_of_isIdentifier hname (by decide)
  rcases hafter with rfl | rfl
  · rw [dropMark_of_isIdentifier hname (by decide), hamp]
  · have hstar : dropMark '*' (lit "*" ++ name) = Text.strip name := by
      change dropMark '*' (CodePoint.ofChar '*' :: name) = Text.strip name
      rw [dropMark, if_pos rfl]
    rw [hstar, Text.strip_of_solid (solid_of_isIdentifier hname), hamp]

/-- A text ends as the name at its end. -/
theorem getLast?_append_name {name after : Text} (hname : isIdentifier name = true)
    (hafter : after = name ∨ after = lit "*" ++ name) (before : Text) :
    (before ++ after).getLast? = name.getLast? := by
  have hne := ne_nil_of_isIdentifier hname
  rcases hafter with rfl | rfl
  · rw [List.getLast?_append_of_ne_nil _ hne]
  · rw [← List.append_assoc, List.getLast?_append_of_ne_nil _ hne]

/-- A type and a name with a space between them, where the name may have a star in front. -/
theorem result_readArgument_words {ctx : TypeContext} (hctx : ctx.overrides = [])
    {text before after name : Text} (htext : Text.strip text = before ++ lit " " ++ after)
    (hstrip : Text.strip before = before) (hbefore : CType.annotated? before = none)
    (hname : isIdentifier name = true) (hafter : after = name ∨ after = lit "*" ++ name)
    (path : Text) (index : Int) :
    (readArgument verbosity ctx path text index).result =
      .ok ((CType.python? before).map fun m => typedArgument index (some m) none) := by
  have hsolid : ∀ c ∈ after, isBlank c = false := by
    rcases hafter with rfl | rfl
    · exact solid_of_isIdentifier hname
    · intro c hc
      rcases List.mem_append.1 hc with hc | hc
      · obtain rfl := List.mem_singleton.1 hc
        decide
      · exact solid_of_isIdentifier hname c hc
  have hcut : Text.strip text = before ++ CodePoint.ofChar ' ' :: after := by
    rw [htext, List.append_assoc]
    rfl
  -- the text ends with the name, so it has no annotation
  have hwhole : CType.annotated? (Text.strip text) = none := by
    apply CType.annotated?_eq_none_of_last
    intro c hc
    rw [htext, getLast?_append_name hname hafter] at hc
    have hpart := isIdentifierPart_of_mem hname c (List.mem_of_getLast? hc)
    exact ⟨ne_ofChar_of_isIdentifierPart hpart (by decide),
      ne_ofChar_of_isIdentifierPart hpart (by decide)⟩
  rw [result_readArgument_cut hctx hcut (CType.space_not_mem_of_solid hsolid) hwhole (by rwa [hstrip]),
    Text.strip_of_solid hsolid, dropMark_name hname hafter, if_pos hname, hstrip]

/-! ## Types of several words -/

/-- The forms of a type with a space in it. -/
inductive SpacedType : Text → Prop
  /-- It ends with a mark. -/
  | marked {t : Text} {c : CodePoint} (hlast : t.getLast? = some c) (hc : CType.isMark c = true) :
      SpacedType t
  /-- The built-in type of two words. -/
  | unsigned : SpacedType (lit "unsigned int")
  /-- The same with `const` in front of it. -/
  | constUnsigned {blanks : Text} (hblanks : ∀ c ∈ blanks, isBlank c = true) :
      SpacedType (lit "const " ++ blanks ++ lit "unsigned int")
  /-- Any other type with `const` in front of it. -/
  | const {blanks type : Text} (hblanks : ∀ c ∈ blanks, isBlank c = true)
      (hspace : CodePoint.ofChar ' ' ∉ type) (hstrip : Text.strip type = type)
      (hstart : ∃ c ∈ type.head?, isIdentifierPart c = true)
      (hend : ∀ c ∈ type.getLast?, CType.isMark c = false) :
      SpacedType (lit "const " ++ blanks ++ type)

/-- With `const` in front of a type there is one of two forms. -/
theorem spacedType_const {blanks type : Text} (hblanks : ∀ c ∈ blanks, isBlank c = true)
    (hstrip : Text.strip type = type) (hend : ∀ c ∈ type.getLast?, CType.isMark c = false)
    (htype : (∃ r, CType.builtin? type = some r) ∨ isIdentifier type = true) :
    SpacedType (lit "const " ++ blanks ++ type) := by
  by_cases hspace : CodePoint.ofChar ' ' ∈ type
  · rcases htype with ⟨r, hr⟩ | hid
    · rcases CType.builtin?_spaced hr hspace with ⟨rfl, -⟩ | ⟨rfl, -⟩
      · exact .constUnsigned hblanks
      · exact absurd (hend (CodePoint.ofChar '*') (by decide)) (by decide)
    · exact absurd hspace (not_mem_of_isIdentifier hid (by decide))
  · refine .const hblanks hspace hstrip ?_ hend
    rcases htype with ⟨r, hr⟩ | hid
    · exact CType.exists_head_of_builtin? hr
    · exact exists_head_of_isIdentifier hid

/-- A type of several words that is translated has one of the forms. -/
theorem spacedType_of_python? {s m : Text} (hstrip : Text.strip s = s)
    (hspace : CodePoint.ofChar ' ' ∈ s) (h : CType.python? s = some m) : SpacedType s := by
  obtain ⟨c, hlast⟩ : ∃ c, s.getLast? = some c :=
    Option.isSome_iff_exists.1 (by simpa using List.ne_nil_of_mem hspace)
  have hblank : isBlank c = false := by
    refine Text.getLast?_stripEnd (Text.stripStart s) c ?_
    rwa [← Text.strip, hstrip]
  by_cases hmark : CType.isMark c = true
  · exact .marked hlast hmark
  have hend : ∀ d ∈ s.getLast?, CType.isMark d = false := by
    intro d hd
    obtain rfl : c = d := Option.some.inj (hlast.symm.trans hd)
    exact Bool.eq_false_iff.2 hmark
  have hmarks := CType.dropMarks_eq_self hend
  by_cases hconst : lit "const " <+: s
  · obtain ⟨r, rfl⟩ := hconst
    have hclean : CType.clean (lit "const " ++ r) = Text.strip r := by
      rw [CType.clean, hmarks, CType.dropConst_const]
    have htype : (∃ n, CType.builtin? (Text.strip r) = some n) ∨ isIdentifier (Text.strip r) = true := by
      rw [← hclean]
      rcases CType.python?_cases h with hfound | hfound | ⟨hid, -⟩
      · exact absurd hfound (by rw [CType.builtin?_const r]; exact (Option.some_ne_none m).symm)
      · exact Or.inl ⟨m, hfound⟩
      · exact Or.inr hid
    obtain ⟨blanks, after, hblanks, hafter, hr⟩ := Text.exists_blanks_strip r
    obtain rfl : after = [] := by
      cases hd : after.getLast? with
      | none => exact List.getLast?_eq_none_iff.1 hd
      | some d =>
          -- the text would end with a blank
          rw [hr, List.getLast?_append, List.getLast?_append, hd] at hlast
          obtain rfl : d = c := Option.some.inj hlast
          rw [hafter d (List.mem_of_getLast? hd)] at hblank
          contradiction
    rw [hr, List.append_nil, ← List.append_assoc] at hend ⊢
    refine spacedType_const hblanks (Text.strip_strip r) ?_ htype
    intro d hd
    refine hend d ?_
    rw [List.getLast?_append, hd]
    exact rfl
  · -- without marks and `const` nothing is cleaned, and only the table has types with a space
    have hclean : CType.clean s = s := by
      rw [CType.clean, hmarks, CType.dropConst_eq_self hconst, hstrip]
    have hbuiltin : CType.builtin? s = some m := by
      rcases CType.python?_cases h with hfound | hfound | ⟨hid, -⟩
      · exact hfound
      · rwa [hclean] at hfound
      · rw [hclean] at hid
        exact absurd hspace (not_mem_of_isIdentifier hid (by decide))
    rcases CType.builtin?_spaced hbuiltin hspace with ⟨rfl, -⟩ | ⟨rfl, -⟩
    · exact .unsigned
    · exact absurd (hend (CodePoint.ofChar '*') (by decide)) (by decide)

/-! ## What is read -/

/-- The type that is read off a type of several words whose last word can be a name. -/
def leadingType (s : Text) : Text :=
  if CType.clean s = lit "unsigned int" then lit "unsigned" else lit "const"

/-- The type `unsigned` stays one with `const` in front of it. -/
theorem python?_constUnsigned {blanks : Text} (hblanks : ∀ c ∈ blanks, isBlank c = true) :
    CType.python? (Text.strip (lit "const " ++ blanks ++ lit "unsigned")) = some (lit "unsigned") := by
  have hstrip : Text.strip (lit "const " ++ blanks ++ lit "unsigned") =
      lit "const " ++ blanks ++ lit "unsigned" := by
    rw [Text.strip_append_word (by decide) (by decide), Text.stripStart_eq_self]
    intro c hc
    obtain rfl : CodePoint.ofChar 'c' = c := Option.some.inj hc
    decide
  rw [hstrip, CType.python?, CType.clean_const_blanks hblanks (by decide) (by decide) (by decide),
    List.append_assoc, CType.builtin?_const]
  decide

/-- In front of a type without a space the last space is the one behind `const`, or it is among the blanks
that follow. -/
theorem exists_const_cut {blanks type : Text} (hblanks : ∀ c ∈ blanks, isBlank c = true)
    (hword : CodePoint.ofChar ' ' ∉ type) :
    ∃ before after, lit "const " ++ blanks ++ type = before ++ CodePoint.ofChar ' ' :: after ∧
      CodePoint.ofChar ' ' ∉ after ∧ Text.strip before = lit "const" ∧
      Text.strip after = Text.strip type := by
  have hmem : CodePoint.ofChar ' ' ∈ CodePoint.ofChar ' ' :: blanks := List.mem_cons_self
  obtain ⟨b, b', hb, hb'⟩ := Text.exists_last_cut hmem
  have hblank : ∀ c ∈ b ++ CodePoint.ofChar ' ' :: b', isBlank c = true := by
    rw [← hb]
    intro c hc
    rcases List.mem_cons.1 hc with rfl | hc
    · decide
    · exact hblanks c hc
  refine ⟨lit "const" ++ b, b' ++ type, ?_, ?_, ?_, ?_⟩
  · have hconst : lit "const " ++ blanks = lit "const" ++ (CodePoint.ofChar ' ' :: blanks) := by
      simp [lit]
    rw [hconst, hb]
    simp
  · simp [hb', hword]
  · rw [Text.strip_append_blanks fun c hc => hblank c (List.mem_append_left _ hc)]
    decide
  · apply Text.strip_blanks_append
    intro c hc
    exact hblank c (List.mem_append_right _ (List.mem_cons_of_mem _ hc))

section Spaced

variable {ctx : TypeContext} (hctx : ctx.overrides = []) {s m : Text} (hstrip : Text.strip s = s)
  (htype : CType.python? s = some m) (path : Text) (index : Int)
include hctx hstrip htype

/-- The cut of a type of several words into a type and a name. -/
theorem result_readArgument_spaced {before after : Text}
    (hs : s = before ++ CodePoint.ofChar ' ' :: after) (hafter : CodePoint.ofChar ' ' ∉ after) :
    (readArgument verbosity ctx path s index).result = .ok
      (if isIdentifier (dropMark '&' (dropMark '*' (Text.strip after))) then
        (CType.python? (Text.strip before)).map fun m => typedArgument index (some m) none
      else none) := by
  apply result_readArgument_cut hctx (hstrip.trans hs) hafter
  · rw [hstrip]
    exact CType.annotated?_of_python? htype
  · apply CType.annotated?_of_subset htype
    rw [hs]
    exact List.Subset.trans (Text.strip_subset before) (List.subset_append_left _ _)

/-- Where no mark stands in front of the last word, it is the name if it can be one. -/
theorem result_readArgument_leading {before after type : Text}
    (hs : s = before ++ CodePoint.ofChar ' ' :: after) (hafter : CodePoint.ofChar ' ' ∉ after)
    (hbefore : CType.python? (Text.strip before) = some type)
    (hmarks : ∀ c ∈ (Text.strip after).head?, CType.isMark c = false) :
    (readArgument verbosity ctx path s index).result = .ok
      (if isIdentifier (Text.strip (Text.lastPiece ' ' s)) then
        some (typedArgument index (some type) none)
      else none) := by
  have hdrop : ∀ mark : CodePoint, CType.isMark mark = true →
      dropMark mark (Text.strip after) = Text.strip after := by
    intro mark hmark
    apply dropMark_eq_self
    rintro c hc rfl
    rw [hmarks c hc] at hmark
    contradiction
  rw [result_readArgument_spaced hctx hstrip htype path index hs hafter, hbefore,
    hdrop _ (by decide), hdrop _ (by decide), hs, Text.lastPiece_append before hafter]
  rfl

theorem result_of_marked {c : CodePoint} (hspace : CodePoint.ofChar ' ' ∈ s)
    (hlast : s.getLast? = some c) (hc : CType.isMark c = true) :
    isIdentifier (Text.strip (Text.lastPiece ' ' s)) = false ∧
      (readArgument verbosity ctx path s index).result = .ok none := by
  obtain ⟨before, after, hs, hafter⟩ := Text.exists_last_cut hspace
  have hend : after.getLast? = some c := by
    rw [hs, List.getLast?_append, List.getLast?_cons] at hlast
    cases hd : after.getLast? with
    | some d => simpa [hd] using hlast
    | none =>
        -- the text would end with the space
        obtain rfl : CodePoint.ofChar ' ' = c := by simpa [hd] using hlast
        exact absurd hc (by decide)
  have hword := Text.getLast?_strip hend (CType.isBlank_of_isMark hc)
  obtain ⟨hplain, hname⟩ := isIdentifier_of_marked hword hc
  rw [result_readArgument_spaced hctx hstrip htype path index hs hafter, hname, hs,
    Text.lastPiece_append before hafter]
  exact ⟨hplain, rfl⟩

theorem result_of_spacedType (verbosity : Int) (hspace : CodePoint.ofChar ' ' ∈ s)
    (hform : SpacedType s) :
    (readArgument verbosity ctx path s index).result = .ok
      (if isIdentifier (Text.strip (Text.lastPiece ' ' s)) then
        some (typedArgument index (some (leadingType s)) none)
      else none) := by
  cases hform with
  | marked hlast hc =>
      obtain ⟨hname, hresult⟩ := result_of_marked hctx hstrip htype path index hspace hlast hc
      rw [hresult, hname]
      rfl
  | unsigned =>
      have hcut : lit "unsigned int" = lit "unsigned" ++ CodePoint.ofChar ' ' :: lit "int" := rfl
      exact result_readArgument_leading hctx hstrip htype path index hcut (by decide) (by decide) (by decide)
  | @constUnsigned blanks hblanks =>
      have hcut : lit "const " ++ blanks ++ lit "unsigned int" =
          lit "const " ++ blanks ++ lit "unsigned" ++ CodePoint.ofChar ' ' :: lit "int" := by
        simp [lit]
      have hleading : leadingType (lit "const " ++ blanks ++ lit "unsigned int") = lit "unsigned" :=
        if_pos (CType.clean_const_blanks hblanks (by decide) (by decide) (by decide))
      rw [hleading]
      exact result_readArgument_leading hctx hstrip htype path index hcut (by decide)
        (python?_constUnsigned hblanks) (by decide)
  | @const blanks type hblanks hword hstripped hstart hend =>
      obtain ⟨before, after, hcut, hafter, hbefore, hname⟩ := exists_const_cut hblanks hword
      obtain ⟨d, hd, hpart⟩ := hstart
      have hleading : leadingType (lit "const " ++ blanks ++ type) = lit "const" := by
        apply if_neg
        rw [CType.clean_const_blanks hblanks (by rintro rfl; contradiction) hstripped hend]
        rintro rfl
        exact hword (by decide)
      rw [hleading]
      apply result_readArgument_leading hctx hstrip htype path index hcut hafter
      · rw [hbefore]
        decide
      · rw [hname, hstripped]
        intro c hc
        obtain rfl : d = c := Option.some.inj (Eq.trans (Eq.symm hd) hc)
        exact CType.isMark_of_isIdentifierPart hpart

end Spaced

/-- Of the types that are cleaned to `unsigned int` the Python type is `int`. -/
theorem python?_unsignedInt {s m : Text} (h : CType.python? s = some m)
    (hclean : CType.clean s = lit "unsigned int") : m = lit "int" := by
  rcases CType.python?_cases h with hfound | hfound | ⟨hid, -⟩
  · have hall := CType.of_builtin?
      (P := fun t r => decide (CType.clean t = lit "unsigned int" → r = lit "int"))
      (by decide +kernel) hfound
    exact of_decide_eq_true hall hclean
  · rw [hclean] at hfound
    exact (Option.some.inj hfound).symm
  · rw [hclean] at hid
    contradiction

/-- The type that is read is the right one exactly if that is `const`. -/
theorem leadingType_eq_iff {s m : Text} (h : CType.python? s = some m) :
    leadingType s = m ↔ m = lit "const" := by
  by_cases hclean : CType.clean s = lit "unsigned int"
  · obtain rfl := python?_unsignedInt h hclean
    rw [leadingType, if_pos hclean]
    decide
  · rw [leadingType, if_neg hclean]
    exact eq_comm

/-- **A type of several words alone.** Without overrides a text with a space that is translated as a type
is not read as that type. If what stands behind its last space is an identifier, it is taken for the name
of an argument of type `const` or `unsigned`; otherwise nothing is read. So the type is only right where it
is `const` itself. -/
theorem readArgument_spaced {ctx : TypeContext} (hctx : ctx.overrides = []) {s m : Text}
    (hstrip : Text.strip s = s) (hspace : CodePoint.ofChar ' ' ∈ s)
    (htype : ctx.translate false s = .ok (some m)) (path : Text) (index : Int) :
    (readArgument verbosity ctx path s index).result = .ok
      (if isIdentifier (Text.strip (Text.lastPiece ' ' s)) then
        some (typedArgument index (some (leadingType s)) none)
      else none) ∧
    ((∃ a, (readArgument verbosity ctx path s index).result = .ok (some a) ∧ a.name = argumentName index ∧
        a.main? = some m) ↔
      m = lit "const" ∧ isIdentifier (Text.strip (Text.lastPiece ' ' s)) = true) := by
  rw [TypeContext.translate_of_no_overrides hctx] at htype
  have hpython : CType.python? s = some m := Except.ok.inj htype
  have hresult := result_of_spacedType hctx hstrip hpython path index verbosity hspace
    (spacedType_of_python? hstrip hspace hpython)
  refine ⟨hresult, ?_⟩
  rw [hresult, ← leadingType_eq_iff hpython]
  by_cases hname : isIdentifier (Text.strip (Text.lastPiece ' ' s)) = true
  · rw [if_pos hname]
    constructor
    · rintro ⟨a, ha, -, hmain⟩
      obtain rfl := Option.some.inj (Except.ok.inj ha)
      exact ⟨Option.some.inj hmain, hname⟩
    · rintro ⟨hleading, -⟩
      exact ⟨_, rfl, rfl, congrArg some hleading⟩
  · rw [if_neg hname]
    constructor
    · rintro ⟨a, ha, -⟩
      exact absurd (Except.ok.inj ha).symm (Option.some_ne_none a)
    · rintro ⟨-, h⟩
      exact absurd h hname

/-- A context that knows one custom type. -/
def unitContext : TypeContext := { custom := [lit "CyUnit"] }

theorem readArgument_spaced_constUnit :
    Text.strip (lit "const CyUnit") = lit "const CyUnit" ∧
    unitContext.translate false (lit "const CyUnit") = .ok (some (lit "CyUnit")) ∧
    unitContext.known (lit "CyUnit") = true ∧
    (readArgument 0 unitContext (lit "Ext.f/arg0") (lit "const CyUnit") 0).result =
      .ok (some (typedArgument 0 (some (lit "const")) none)) ∧
    ¬ ∃ a, (readArgument 0 unitContext (lit "Ext.f/arg0") (lit "const CyUnit") 0).result =
      .ok (some a) ∧ a.name = argumentName 0 ∧ a.main? = some (lit "CyUnit") := by
  have hstrip : Text.strip (lit "const CyUnit") = lit "const CyUnit" := by decide
  have htype : unitContext.translate false (lit "const CyUnit") = .ok (some (lit "CyUnit")) := rfl
  obtain ⟨hresult, hright⟩ := readArgument_spaced rfl hstrip (by decide) htype (lit "Ext.f/arg0") 0
  refine ⟨hstrip, htype, by decide, hresult.trans (by decide +kernel), ?_⟩
  intro h
  exact absurd (hright.1 h).1 (by decide)

/-- Two known types of several words: the first is read as a type `unsigned` with a name, and the second is
not read at all. -/
theorem spaced_types_lost :
    Text.strip (lit "unsigned int") = lit "unsigned int" ∧
    unitContext.translate false (lit "unsigned int") = .ok (some (lit "int")) ∧
    unitContext.known (lit "int") = true ∧
    (readArgument 0 unitContext (lit "Ext.f/arg0") (lit "unsigned int") 0).result =
      .ok (some ⟨lit "arg0", some ⟨some (lit "unsigned"), none⟩⟩) ∧
    Text.strip (lit "CyUnit *") = lit "CyUnit *" ∧
    unitContext.translate false (lit "CyUnit *") = .ok (some (lit "CyUnit")) ∧
    unitContext.known (lit "CyUnit") = true ∧
    (readArgument 0 unitContext (lit "Ext.f/arg0") (lit "CyUnit *") 0).result = .ok none := by
  decide +kernel

end Signature

end ModuleStubs
