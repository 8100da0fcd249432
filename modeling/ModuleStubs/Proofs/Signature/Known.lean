import ModuleStubs.Signature.Parser

/-!
# What reading a signature depends on

A type context enters into a signature by its overrides and by the set of types that are known, and
in no other way. Two contexts that agree in both (`TypeContext.Alike`) give the same translations,
the same arguments and the same signatures, with the same messages (`readJson_alike`). The order in
which the custom types were collected is lost on the way.
-/

set_option autoImplicit false

namespace ModuleStubs

namespace TypeContext

/-- The contexts have the same overrides and know the same types. -/
structure Alike (ctx ctx' : TypeContext) : Prop where
  overrides : ctx.overrides = ctx'.overrides
  known : ctx.known = ctx'.known

variable {ctx ctx' : TypeContext}

/-- Contexts with the same custom types in any order are alike. -/
theorem alike_of_mem_iff (hoverrides : ctx.overrides = ctx'.overrides)
    (hcustom : ∀ t, t ∈ ctx.custom ↔ t ∈ ctx'.custom) : Alike ctx ctx' := by
  refine ⟨hoverrides, ?_⟩
  funext t
  have hcontains : ctx.custom.contains t = ctx'.custom.contains t := by
    rw [Bool.eq_iff_iff, List.contains_iff_mem, List.contains_iff_mem]
    exact hcustom t
  rw [known, known, hcontains]

namespace Alike

theorem override? (h : Alike ctx ctx') : ctx.override? = ctx'.override? := by
  funext cleaned
  simp only [TypeContext.override?, h.overrides, h.known]

theorem translate (h : Alike ctx ctx') : ctx.translate = ctx'.translate := by
  funext alternative t
  simp only [TypeContext.translate, h.override?]

theorem translateType (h : Alike ctx ctx') : ctx.translateType = ctx'.translateType := by
  funext t
  simp only [TypeContext.translateType, TypeContext.translatePair, h.translate]

end Alike

end TypeContext

open TypeContext

namespace Signature

variable {verbosity : Int} {ctx ctx' : TypeContext}

/-- Alike contexts read an argument in the same way. -/
theorem readArgument_alike (h : Alike ctx ctx') : readArgument verbosity ctx = readArgument verbosity ctx' := by
  funext path text index
  have hsure : surelyTypes ctx = surelyTypes ctx' := by
    funext main alternative
    simp only [surelyTypes, h.known]
  simp only [readArgument, oneWordArgument, namedArgument, h.translateType, hsure]

theorem readArguments_alike (h : Alike ctx ctx') (path shown : Text) :
    ∀ (index : Nat) (seen texts : List Text),
      readArguments verbosity ctx path shown index seen texts = readArguments verbosity ctx' path shown index seen texts
  | _, _, [] => rfl
  | index, seen, t :: ts => by
      simp only [readArguments, readArgument_alike h,
        fun name => readArguments_alike h path shown (index + 1) (name :: seen) ts]

/-- Alike contexts read a signature in the same way. -/
theorem readJson_alike (h : Alike ctx ctx') : readJson verbosity ctx = readJson verbosity ctx' := by
  funext path v
  have hsplit : readSplit verbosity ctx path v.display = readSplit verbosity ctx' path v.display := by
    funext split
    cases split with
    | none => rfl
    | some parts =>
        obtain ⟨first, second⟩ := parts
        simp only [readSplit, readParts, h.translateType, readArguments_alike h]
  simp only [readJson, hsplit]

end Signature

end ModuleStubs
