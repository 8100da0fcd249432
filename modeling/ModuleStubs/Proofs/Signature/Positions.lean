import Mathlib.Data.List.Basic
import ModuleStubs.Proofs.CType.Origins
import ModuleStubs.Proofs.Signature.Total
import ModuleStubs.Proofs.Text.Cut

/-!
# Signatures position by position

The arguments of a signature are read from the pieces between the commas, each piece on its own and in
its place: there is one argument for each piece, and the argument at an index is a bare identifier that
is its own name, or has types and the name that belongs to the index. The return type is there exactly
if something is left of the text before the parentheses once the name of the function is taken off its
end (`read_by_position`).

Reading fails with a fault only where a template of a type override cannot be filled
(`TypeContext.TemplatesFill`).
-/

set_option autoImplicit false

namespace ModuleStubs

namespace TypeContext

/-- The templates of the overrides can be filled with the groups of every match. -/
def TemplatesFill (ctx : TypeContext) : Prop :=
  ∀ o ∈ ctx.overrides, ∀ cleaned groups, o.pattern.fullMatch? cleaned = some groups →
    ∀ alternative, ∃ t, o.apply alternative cleaned groups = .ok t

/-- Nothing but a template can make a context fail. -/
theorem TemplatesFill.total {ctx : TypeContext} (h : ctx.TemplatesFill) : ctx.Total := by
  intro alternative t
  rw [translate]
  split
  · exact ⟨_, rfl⟩
  · dsimp only
    split
    · exact ⟨_, rfl⟩
    · split
      · rename_i o groups hfound
        -- the override was found because its pattern matches
        have hfirst := override?_eq_some_iff.1 hfound
        obtain ⟨r, hr⟩ := h o hfirst.mem _ _ hfirst.applies.matched alternative
        exact ⟨some r, by rw [hr]; rfl⟩
      · exact ⟨_, rfl⟩

end TypeContext

namespace Text

/-- There is one piece more than there are separators. -/
theorem length_splitOn (sep : CodePoint) (t : Text) :
    (splitOn sep t).length = countOf sep t + 1 := by
  induction t with
  | nil => rfl
  | cons c t ih =>
      rw [splitOn]
      by_cases hc : c = sep
      · simp [hc, ih, countOf]
      · have hcount : countOf sep (c :: t) = countOf sep t := by simp [countOf, hc]
        rw [if_neg hc, hcount, ← ih]
        cases hs : splitOn sep t with
        | nil => exact absurd hs (splitOn_ne_nil sep t)
        | cons p ps => rfl

end Text

namespace Signature

variable {verbosity : Int} {ctx : TypeContext} {path shown : Text}

/-- The numbered names are identifiers. -/
theorem isIdentifier_argumentName (n : Nat) : isIdentifier (argumentName n) = true := by
  have hdigits : (decimal n).all isIdentifierPart = true := by
    refine List.all_eq_true.2 fun c hc => ?_
    rw [isIdentifierPart, isDigit_of_mem_decimal n c hc, Bool.or_true]
  have hname : argumentName n = CodePoint.ofChar 'a' :: (lit "rg" ++ decimal n) := rfl
  rw [hname, isIdentifier, List.all_append, hdigits]
  rfl

/-! ## The return type -/

theorem isSome_of_readReturned {returnText : Text} {main alternative : Option Text}
    (h : (readReturned verbosity ctx path shown returnText).result = .ok (some (main, alternative))) :
    main.isSome = true ↔ returnText ≠ [] := by
  rw [readReturned] at h
  split at h
  · rename_i hempty
    obtain ⟨rfl, -⟩ := Prod.mk.inj (Option.some.inj (Except.ok.inj h))
    simpa using hempty
  · rename_i hempty
    obtain ⟨⟨m, other⟩, -, h⟩ := Trace.result_bind_eq_ok.1 h
    cases m with
    | none => simp at h
    | some m =>
        obtain ⟨rfl, -⟩ := Prod.mk.inj (Option.some.inj (Except.ok.inj h))
        simpa using hempty

/-- A signature has a return type exactly if there is a text for it. -/
theorem isSome_returnType {first second : Text} {s : Signature}
    (h : (readParts verbosity ctx path shown first second).result = .ok (some s)) :
    s.returnType.isSome = true ↔ dropFunctionName (Text.lastPiece '.' path) first ≠ [] := by
  rw [readParts_eq] at h
  obtain ⟨returned, hreturned, h⟩ := Trace.result_bind_eq_ok.1 h
  cases returned with
  | none => simp at h
  | some types =>
      obtain ⟨main, alternative⟩ := types
      obtain ⟨args, -, h⟩ := Trace.result_bind_eq_ok.1 h
      obtain ⟨as, rfl, rfl⟩ := Option.map_eq_some_iff.1 (Except.ok.inj h)
      exact isSome_of_readReturned hreturned

/-! ## The stored form -/

theorem field?_returnType (s : Signature) :
    s.toJson.field? (lit "return-type") = s.returnType.map .str := by
  obtain ⟨returnType, returnAlternative, arguments⟩ := s
  cases returnType <;> cases returnAlternative <;> rfl

/-! ## Signatures -/

/-- **Position by position.** A text whose rough parts are known is read without a fault where the
templates can be filled. If it is a signature, it has one argument for each piece between the commas of
the second part, and none where that is empty. The argument at an index is named after the index or by
its piece, without blanks around it; the name is an identifier, and without a type it is the piece. A
return type is there exactly if the first part has a text for it, the name of the function apart. -/
theorem read_by_position (ctx : TypeContext) {path text first second : Text}
    (hname : Text.lastPiece '.' path ≠ []) (hsplit : roughSplit text = some (first, second)) :
    (ctx.TemplatesFill → ∃ r, (read verbosity ctx path text).result = .ok r) ∧
    ∀ s, (read verbosity ctx path text).result = .ok (some s) →
      s.arguments.length = (if second = [] then 0 else Text.countOf ',' second + 1) ∧
      (∀ (i : Nat) arg, s.arguments[i]? = some arg →
        ∃ piece, (Text.splitOn ',' second)[i]? = some piece ∧
          (arg.name = argumentName i ∨ arg.name = Text.strip piece) ∧
          isIdentifier arg.name = true ∧
          (arg.toJson.field? (lit "type") = none →
            arg.name = Text.strip piece ∧ isIdentifier (Text.strip piece) = true)) ∧
      (∀ before, first = before ++ Text.lastPiece '.' path →
        ((s.toJson.field? (lit "return-type")).isSome = true ↔ Text.strip before ≠ [])) ∧
      (¬ Text.lastPiece '.' path <:+ first →
        ((s.toJson.field? (lit "return-type")).isSome = true ↔ first ≠ [])) := by
  refine ⟨fun hfill => readJson_completes hfill.total path text, fun s hread => ?_⟩
  have hparts : (readParts verbosity ctx path text first second).result = .ok (some s) := by
    rwa [read, hsplit] at hread
  have hreturn := isSome_returnType hparts
  obtain ⟨hlength, hall⟩ := exists_text_of_readArguments _ 0 [] (readParts_completed hparts)
  refine ⟨?_, ?_, ?_, ?_⟩
  · rw [hlength]
    by_cases hempty : second = []
    · simp [hempty]
    · simp [hempty, Text.length_splitOn]
  · intro i arg harg
    obtain ⟨piece, hpiece, p, hargument⟩ := hall i arg harg
    rw [Nat.zero_add] at hargument
    -- with a piece at the index the second part is not empty
    have hne : second.isEmpty = false := by
      cases hempty : second.isEmpty with
      | true => simp [hempty] at hpiece
      | false => rfl
    refine ⟨piece, by simpa [hne] using hpiece, ?_⟩
    cases argumentOf_readArgument hargument with
    | word _ _ _ h => exact ⟨Or.inr rfl, h, fun _ => ⟨rfl, h⟩⟩
    | type | annotated | named => exact ⟨Or.inl rfl, isIdentifier_argumentName i, nofun⟩
  · intro before hfirst
    rw [field?_returnType, Option.isSome_map, hreturn, hfirst, dropFunctionName_append hname]
  · intro hsuffix
    rw [field?_returnType, Option.isSome_map, hreturn, dropFunctionName_of_not_suffix hsuffix]

/-- A signature text with the name of its function, a type, a bare word and an annotated type. -/
def yieldText : Text := lit "int yield(CyUnit* pUnit, x, int /*YieldTypes*/)"

/-- What it is read as where nothing is known but the built-in types. -/
def yieldSignature : Signature :=
  ⟨some (lit "int"), none, [⟨lit "arg0", some ⟨some (lit "CyUnit"), none⟩⟩, ⟨lit "x", none⟩,
    ⟨lit "arg2", some ⟨some (lit "int"), some (lit "YieldTypes")⟩⟩]⟩

theorem read_by_position_yield :
    Text.lastPiece '.' (lit "Ext.yield") = lit "yield" ∧
    roughSplit yieldText = some (lit "int yield", lit "CyUnit* pUnit, x, int /*YieldTypes*/") ∧
    (read 0 {} (lit "Ext.yield") yieldText).result = .ok (some yieldSignature) ∧
    yieldSignature.arguments.length =
      Text.countOf ',' (lit "CyUnit* pUnit, x, int /*YieldTypes*/") + 1 ∧
    (∃ piece, (Text.splitOn ',' (lit "CyUnit* pUnit, x, int /*YieldTypes*/"))[1]? = some piece ∧
      lit "x" = Text.strip piece ∧ isIdentifier (Text.strip piece) = true) ∧
    ((yieldSignature.toJson.field? (lit "return-type")).isSome = true ↔
      Text.strip (lit "int ") ≠ []) := by
  have hlast : Text.lastPiece '.' (lit "Ext.yield") = lit "yield" := by decide
  have hsplit : roughSplit yieldText =
      some (lit "int yield", lit "CyUnit* pUnit, x, int /*YieldTypes*/") := by decide +kernel
  have hread : (read 0 {} (lit "Ext.yield") yieldText).result = .ok (some yieldSignature) := by
    decide +kernel
  obtain ⟨-, hall⟩ := read_by_position {} (by decide : Text.lastPiece '.' (lit "Ext.yield") ≠ []) hsplit
  obtain ⟨hlength, hargs, hreturn, -⟩ := hall yieldSignature hread
  obtain ⟨piece, hpiece, -, -, hword⟩ := hargs 1 ⟨lit "x", none⟩ rfl
  exact ⟨hlast, hsplit, hread, hlength, ⟨piece, hpiece, hword rfl⟩, hreturn (lit "int ") rfl⟩

end Signature

end ModuleStubs
