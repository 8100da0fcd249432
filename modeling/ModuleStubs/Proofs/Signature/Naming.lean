import Mathlib.Data.List.Basic
import ModuleStubs.Proofs.Signature.Declaration

/-!
# Signatures with and without the name of their function

A signature may name its function behind the return type, as in `int getDamage(CyUnit)`, or leave the
name out, as in `int (CyUnit)`. Both are read alike where the text of the type does not end with the
name (`read_named`). The name is looked for as the end of the text, not as a word of its own: where the
last word of the type only ends with it, the signature without the name loses that end of its type
(`name_cut_off_type`).
-/

set_option autoImplicit false

namespace ModuleStubs

namespace Text

/-- The last word of a text that does not end in a blank: what stands behind its last blank. -/
def lastWord (t : Text) : Text := (t.reverse.takeWhile fun c => !isBlank c).reverse

end Text

namespace Signature

variable {verbosity : Int} {ctx : TypeContext} {path : Text}

/-! ## What is shown in messages -/

theorem result_readArguments (ctx : TypeContext) (path shown shown' : Text) :
    ∀ (texts : List Text) (index : Nat) (seen : List Text),
      (readArguments verbosity ctx path shown index seen texts).result =
        (readArguments verbosity ctx path shown' index seen texts).result
  | [], _, _ => rfl
  | t :: ts, index, seen => by
      rw [result_readArguments_cons, result_readArguments_cons]
      congr 1
      funext argument
      cases argument with
      | none => rfl
      | some a =>
          dsimp only
          rw [result_readArguments ctx path shown shown' ts (index + 1) (a.name :: seen)]

theorem result_readReturned (ctx : TypeContext) (path shown shown' returnText : Text) :
    (readReturned verbosity ctx path shown returnText).result =
      (readReturned verbosity ctx path shown' returnText).result := by
  rw [readReturned, readReturned]
  split
  · rfl
  · rw [Trace.result_bind, Trace.result_bind]
    congr 1
    funext types
    obtain ⟨main, alternative⟩ := types
    cases main <;> simp

/-- A signature depends on the text before the arguments only by what is left of it without the name
of the function. -/
theorem result_readParts {first first' : Text} (shown shown' second : Text)
    (h : dropFunctionName (Text.lastPiece '.' path) first =
      dropFunctionName (Text.lastPiece '.' path) first') :
    (readParts verbosity ctx path shown first second).result =
      (readParts verbosity ctx path shown' first' second).result := by
  rw [readParts_eq, readParts_eq, h, Trace.result_bind, Trace.result_bind,
    result_readReturned ctx path shown shown']
  congr 1
  funext returned
  cases returned with
  | none => rfl
  | some types => simp only [Trace.result_bind, result_readArguments ctx path shown shown']

/-! ## The name of the function -/

/-- Of a text with the name of the function behind it the text is left. -/
theorem dropFunctionName_strip {name : Text} (hn : isIdentifier name = true) (t : Text) :
    dropFunctionName name (Text.strip (t ++ lit " " ++ name)) = Text.strip t := by
  have hne := ne_nil_of_isIdentifier hn
  rw [Text.strip_append_word hne (solid_of_isIdentifier hn), dropFunctionName_append hne, Text.strip_stripStart]
  exact Text.strip_append_of_isBlank (by decide)

theorem balanced_named {name : Text} (hn : isIdentifier name = true) {t : Text} (ht : t.Balanced) :
    (t ++ lit " " ++ name).Balanced := by
  have hname : ∀ c : Char, isIdentifierPart c = false → CodePoint.ofChar c ∉ name := fun c hc =>
    not_mem_of_isIdentifier hn hc
  rw [Text.balanced_append_iff (hname '(' (by decide)) (hname ')' (by decide)),
    Text.balanced_append_iff (by decide) (by decide)]
  exact ht

/-- A call text is read by its two parts. -/
theorem read_call {first second : Text} (hfirst : first.Balanced) (hsecond : second.Balanced) :
    read verbosity ctx path (first ++ lit "(" ++ second ++ lit ")") =
      readParts verbosity ctx path (first ++ lit "(" ++ second ++ lit ")") (Text.strip first)
        (Text.strip second) := by
  rw [read, roughSplit_call hfirst hsecond, readSplit]

/-- **The name of the function in a signature.** Behind a type whose text does not end with the name
it makes no difference whether the name stands there. Where the text of the type does end with the
name, the signature without the name is read as if that end were the name. -/
theorem read_named (ctx : TypeContext) {path type arguments : Text}
    (hn : isIdentifier (Text.lastPiece '.' path) = true) (hstrip : Text.strip type = type)
    (htype : type.Balanced) (harguments : arguments.Balanced) :
    (¬ Text.lastPiece '.' path <:+ type →
      (read verbosity ctx path (type ++ lit " " ++ Text.lastPiece '.' path ++ lit "(" ++ arguments ++
        lit ")")).result =
      (read verbosity ctx path (type ++ lit " " ++ lit "(" ++ arguments ++ lit ")")).result) ∧
    ∀ before, type = before ++ Text.lastPiece '.' path →
      (read verbosity ctx path (type ++ lit " " ++ lit "(" ++ arguments ++ lit ")")).result =
      (read verbosity ctx path (before ++ lit " " ++ Text.lastPiece '.' path ++ lit "(" ++ arguments ++
        lit ")")).result := by
  have hbare : Text.strip (type ++ lit " ") = type :=
    (Text.strip_append_of_isBlank (by decide)).trans hstrip
  have hblank : (type ++ lit " ").Balanced :=
    (Text.balanced_append_iff (by decide) (by decide)).2 htype
  constructor
  · intro hsuffix
    rw [read_call (balanced_named hn htype) harguments, read_call hblank harguments, hbare]
    apply result_readParts
    rw [dropFunctionName_strip hn, dropFunctionName_of_not_suffix hsuffix, hstrip]
  · intro before hbefore
    have hbalanced : before.Balanced := by
      rw [hbefore, Text.balanced_append_iff (not_mem_of_isIdentifier hn (by decide))
        (not_mem_of_isIdentifier hn (by decide))] at htype
      exact htype
    rw [read_call hblank harguments, read_call (balanced_named hn hbalanced) harguments, hbare]
    apply result_readParts
    rw [dropFunctionName_strip hn, hbefore, dropFunctionName_append (ne_nil_of_isIdentifier hn)]

theorem read_named_list :
    Text.lastPiece '.' (lit "Ext.list") = lit "list" ∧
    (read 0 {} (lit "Ext.list") (lit "int" ++ lit " " ++ lit "list" ++ lit "(" ++
      lit "int (UnitTypes)" ++ lit ")")).result =
      (read 0 {} (lit "Ext.list") (lit "int" ++ lit " " ++ lit "(" ++
        lit "int (UnitTypes)" ++ lit ")")).result ∧
    (read 0 {} (lit "Ext.list") (lit "boost::python::list" ++ lit " " ++ lit "(" ++
      lit "int (UnitTypes)" ++ lit ")")).result =
      (read 0 {} (lit "Ext.list") (lit "boost::python::" ++ lit " " ++ lit "list" ++ lit "(" ++
        lit "int (UnitTypes)" ++ lit ")")).result := by
  have hlast : Text.lastPiece '.' (lit "Ext.list") = lit "list" := by decide
  have hn : isIdentifier (Text.lastPiece '.' (lit "Ext.list")) = true := by decide
  have harguments : (lit "int (UnitTypes)").Balanced := by decide
  obtain ⟨hint, -⟩ := read_named {} hn (by decide : Text.strip (lit "int") = lit "int")
    (by decide) harguments
  obtain ⟨-, hlist⟩ := read_named {} hn
    (by decide : Text.strip (lit "boost::python::list") = lit "boost::python::list")
    (by decide) harguments
  rw [hlast] at hint hlist
  exact ⟨hlast, hint (by decide), hlist (lit "boost::python::") (by decide)⟩

/-- A type that ends in the name of the function, but whose last word is another one, is cut where
the signature leaves the name out, and the signature is then refused. -/
theorem name_cut_off_type :
    isIdentifier (Text.lastPiece '.' (lit "Ext.list")) = true ∧
    Text.strip (lit "boost::python::list") = lit "boost::python::list" ∧
    (lit "boost::python::list").Balanced ∧
    Text.lastWord (lit "boost::python::list") ≠ Text.lastPiece '.' (lit "Ext.list") ∧
    (read 0 {} (lit "Ext.list") (lit "boost::python::list list()")).result =
      .ok (some ⟨some (lit "List"), none, []⟩) ∧
    (read 0 {} (lit "Ext.list") (lit "boost::python::list ()")).result = .ok none := by
  decide +kernel

end Signature

end ModuleStubs
