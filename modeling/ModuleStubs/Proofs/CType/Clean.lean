import Mathlib.Data.List.DropRight
import ModuleStubs.CType.Basic
import ModuleStubs.Proofs.Text.Cut

/-!
# Cleaning C++ types

Cleaning takes the marks at the end of a type, one `const` at its start and the blanks around the rest
away, in this order and nothing else: whatever else is in a type is still in the cleaned one (`mem_clean`).
A type of one word only loses its marks (`clean_word`), also with `const` in front of it (`clean_const`).
Marks that are set apart from such a type hide those that are not (`clean_apart`).
-/

set_option autoImplicit false

namespace ModuleStubs

namespace CType

/-! ## Marks -/

theorem dropMarks_eq_self {t : Text} (h : ∀ c ∈ t.getLast?, isMark c = false) : dropMarks t = t := by
  apply List.rdropWhile_eq_self_iff.2
  intro hne
  simpa using h (t.getLast hne) (List.getLast?_eq_getLast_of_ne_nil hne)

theorem dropMarks_concat {c : CodePoint} (h : isMark c = true) (t : Text) :
    dropMarks (t ++ [c]) = dropMarks t :=
  List.rdropWhile_concat_pos _ _ _ h

/-- Marks are not dropped beyond a code point that is none. -/
theorem dropMarks_append {u : Text} (h : ∀ c ∈ u.getLast?, isMark c = false) (v : Text) :
    dropMarks (u ++ v) = u ++ dropMarks v := by
  induction v using List.reverseRecOn with
  | nil => simpa [dropMarks] using dropMarks_eq_self h
  | append_singleton v c ih =>
      rw [← List.append_assoc]
      by_cases hc : isMark c = true
      · rw [dropMarks_concat hc, dropMarks_concat hc, ih]
      · have hlast : ∀ w : Text, dropMarks (w ++ [c]) = w ++ [c] := fun w =>
          List.rdropWhile_concat_neg _ _ _ hc
        rw [hlast, hlast, List.append_assoc]

theorem mem_dropMarks {t : Text} {c : CodePoint} (hc : c ∈ t) (hmark : isMark c = false) :
    c ∈ dropMarks t := by
  rw [← List.rdropWhile_append_rtakeWhile (p := isMark) (l := t), List.mem_append] at hc
  rcases hc with hc | hc
  · exact hc
  · have := List.mem_rtakeWhile_imp hc
    rw [hmark] at this
    contradiction

/-! ## `const` -/

theorem dropConst_const (t : Text) : dropConst (lit "const " ++ t) = t := by
  have hstart : Text.startsWith (lit "const " ++ t) (lit "const ") = true :=
    List.isPrefixOf_iff_prefix.2 (List.prefix_append _ _)
  rw [dropConst, if_pos hstart]
  rfl

theorem dropConst_eq_self {t : Text} (h : ¬ lit "const " <+: t) : dropConst t = t := by
  rw [dropConst, if_neg]
  exact fun hstart => h (List.isPrefixOf_iff_prefix.1 hstart)

/-- Only the word `const` is dropped. -/
theorem dropConst_spaced {t : Text} (ht : CodePoint.ofChar ' ' ∉ t) (hconst : t ≠ lit "const")
    (u : Text) : dropConst (t ++ CodePoint.ofChar ' ' :: u) = t ++ CodePoint.ofChar ' ' :: u := by
  apply dropConst_eq_self
  rintro ⟨rest, hrest⟩
  -- the first space stands behind the text, so the text would be `const`
  have hspace : CodePoint.ofChar ' ' ∉ lit "const" := by decide
  have hcut := Text.cutFirst_eq_some rest hspace
  have heq : lit "const" ++ CodePoint.ofChar ' ' :: rest = t ++ CodePoint.ofChar ' ' :: u := by
    simpa [lit] using hrest
  rw [heq, Text.cutFirst_eq_some u ht] at hcut
  exact hconst (congrArg Prod.fst (Option.some.inj hcut))

theorem mem_dropConst {t : Text} {c : CodePoint} (hc : c ∈ t) (hconst : c ∉ lit "const ") :
    c ∈ dropConst t := by
  by_cases hstart : lit "const " <+: t
  · obtain ⟨rest, rfl⟩ := hstart
    rw [dropConst_const]
    exact (List.mem_append.1 hc).resolve_left hconst
  · rwa [dropConst_eq_self hstart]

/-! ## Cleaning -/

/-- What is no mark, no blank and not in `const` stays. -/
theorem mem_clean {t : Text} {c : CodePoint} (hc : c ∈ t) (hmark : isMark c = false)
    (hblank : isBlank c = false) (hconst : c ∉ lit "const ") : c ∈ clean t :=
  Text.mem_strip (mem_dropConst (mem_dropMarks hc hmark) hconst) hblank

/-- Blanks behind `const` are dropped with it. -/
theorem clean_const_blanks {blanks type : Text} (hblanks : ∀ c ∈ blanks, isBlank c = true)
    (hne : type ≠ []) (hstrip : Text.strip type = type)
    (hend : ∀ c ∈ type.getLast?, isMark c = false) :
    clean (lit "const " ++ blanks ++ type) = type := by
  have hmarks : dropMarks (lit "const " ++ blanks ++ type) = lit "const " ++ blanks ++ type := by
    apply dropMarks_eq_self
    intro c hc
    rw [List.getLast?_append, Option.or_of_isSome (by simpa using hne)] at hc
    exact hend c hc
  rw [clean, hmarks, List.append_assoc, dropConst_const, Text.strip_blanks_append hblanks,
    hstrip]

section Words

variable {t : Text} (ht : ∀ c ∈ t, isBlank c = false)
include ht

theorem space_not_mem_of_solid : CodePoint.ofChar ' ' ∉ t := by
  intro hspace
  have := ht _ hspace
  contradiction

theorem solid_dropMarks : ∀ c ∈ dropMarks t, isBlank c = false := fun c hc =>
  ht c ((List.rdropWhile_prefix isMark t).subset hc)

theorem clean_word : clean t = dropMarks t := by
  have hsolid := solid_dropMarks ht
  have hconst : dropConst (dropMarks t) = dropMarks t := by
    apply dropConst_eq_self
    rintro ⟨rest, hrest⟩
    apply space_not_mem_of_solid hsolid
    rw [← hrest]
    exact List.mem_append_left rest (by decide)
  rw [clean, hconst, Text.strip_of_solid hsolid]

theorem clean_const : clean (lit "const " ++ t) = dropMarks t := by
  have hlast : ∀ c ∈ (lit "const ").getLast?, isMark c = false := by decide
  rw [clean, dropMarks_append hlast, dropConst_const, Text.strip_of_solid (solid_dropMarks ht)]

/-- Of a type with a mark set apart only that mark is dropped. -/
theorem clean_apart (hconst : t ≠ lit "const") : clean (t ++ lit " *") = t := by
  have hmarks : dropMarks (t ++ lit " *") = t ++ [CodePoint.ofChar ' '] := by
    have hsplit : t ++ lit " *" = t ++ [CodePoint.ofChar ' '] ++ [CodePoint.ofChar '*'] := by simp [lit]
    rw [hsplit, dropMarks_concat (by decide)]
    apply dropMarks_eq_self
    intro c hc
    rw [List.getLast?_concat] at hc
    obtain rfl := Option.some.inj hc
    decide
  rw [clean, hmarks, dropConst_spaced (space_not_mem_of_solid ht) hconst,
    Text.strip_append_of_isBlank (by decide), Text.strip_of_solid ht]

end Words

end CType

end ModuleStubs
