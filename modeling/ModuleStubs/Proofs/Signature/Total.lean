import ModuleStubs.Proofs.CType.Plain
import ModuleStubs.Proofs.Signature.Arguments

/-!
# Reading signatures completes

A context is total if it translates every text without a fault (`TypeContext.Total`). Overrides are all
that can fail, so a context without any is total. In a total context every text is read without a fault,
whether or not it is a signature (`readJson_completes`).
-/

set_option autoImplicit false

namespace ModuleStubs

namespace TypeContext

/-- No text makes the context fail. -/
def Total (ctx : TypeContext) : Prop := ∀ alternative t, ∃ r, ctx.translate alternative t = .ok r

theorem total_of_no_overrides {ctx : TypeContext} (h : ctx.overrides = []) : ctx.Total := by
  intro alternative t
  exact ⟨_, translate_of_no_overrides h alternative t⟩

theorem Total.translateType {ctx : TypeContext} (h : ctx.Total) (t : Text) :
    ∃ r, ctx.translateType t = .ok r := by
  rw [TypeContext.translateType, translatePair]
  generalize (CType.annotated? t).getD (t, t) = parts
  obtain ⟨main, hmain⟩ := h false parts.1
  obtain ⟨other, hother⟩ := h true parts.2
  simp only [hmain, hother]
  exact ⟨_, rfl⟩

end TypeContext

namespace Signature

variable {verbosity : Int}

theorem completes_sayFrom_bind {level : Int} {message : Text} {α : Type} {f : Unit → Reading α}
    (hf : (f ()).Completes) : (sayFrom level verbosity message >>= f).Completes := by
  rw [sayFrom_eq]
  exact Trace.completes_bind ⟨(), rfl⟩ fun _ => hf

variable {ctx : TypeContext} (hctx : ctx.Total)
include hctx

/-- The translation of a type in the middle of reading. -/
theorem completes_translateType {α : Type} (t : Text)
    {f : Option Text × Option Text → Reading α} (hf : ∀ types, (f types).Completes) :
    (liftM (ctx.translateType t) >>= f).Completes := by
  obtain ⟨types, htypes⟩ := hctx.translateType t
  exact Trace.completes_bind ⟨types, htypes⟩ hf

theorem oneWordArgument_completes (path doc : Text) (index : Int) :
    (oneWordArgument verbosity ctx path doc index).Completes := by
  refine completes_translateType hctx doc fun types => ?_
  obtain ⟨main, alternative⟩ := types
  dsimp only
  split
  · exact Trace.completes_pure _
  · split
    · exact Trace.completes_pure _
    · exact completes_sayFrom_bind (Trace.completes_pure _)

theorem namedArgument_completes (path doc : Text) (index : Int) :
    (namedArgument verbosity ctx path doc index).Completes := by
  rw [namedArgument]
  generalize (Text.cutLast ' ' doc).getD (doc, []) = parts
  obtain ⟨before, after⟩ := parts
  refine completes_translateType hctx _ fun types => ?_
  obtain ⟨main, alternative⟩ := types
  dsimp only
  split
  · exact completes_sayFrom_bind (Trace.completes_pure _)
  · split
    · exact Trace.completes_pure _
    · exact completes_sayFrom_bind (Trace.completes_pure _)

theorem readArgument_completes (path text : Text) (index : Int) :
    (readArgument verbosity ctx path text index).Completes := by
  rw [readArgument]
  split
  · exact oneWordArgument_completes hctx path _ index
  · refine completes_translateType hctx _ fun types => ?_
    obtain ⟨main, alternative⟩ := types
    dsimp only
    split
    · exact Trace.completes_pure _
    · exact namedArgument_completes hctx path _ index

theorem readArguments_completes (path shown : Text) (texts : List Text) :
    ∀ (index : Nat) (seen : List Text),
      (readArguments verbosity ctx path shown index seen texts).Completes := by
  induction texts with
  | nil => exact fun index seen => Trace.completes_pure _
  | cons t ts ih =>
      intro index seen
      rw [readArguments]
      refine Trace.completes_bind (readArgument_completes hctx _ t index) fun first => ?_
      cases first with
      | none => exact Trace.completes_pure _
      | some a =>
          have hrest : (readArguments verbosity ctx path shown (index + 1) (a.name :: seen) ts >>=
              fun rest => pure (rest.map (a :: ·))).Completes :=
            Trace.completes_bind (ih _ _) fun rest => Trace.completes_pure _
          dsimp only
          split
          · exact completes_sayFrom_bind hrest
          · exact hrest

theorem readReturned_completes (path shown returnText : Text) :
    (readReturned verbosity ctx path shown returnText).Completes := by
  rw [readReturned]
  split
  · exact Trace.completes_pure _
  · refine completes_translateType hctx _ fun types => ?_
    obtain ⟨main, alternative⟩ := types
    cases main with
    | none => exact completes_sayFrom_bind (Trace.completes_pure _)
    | some m => exact Trace.completes_pure _

theorem readParts_completes (path shown first second : Text) :
    (readParts verbosity ctx path shown first second).Completes := by
  rw [readParts_eq]
  refine Trace.completes_bind (readReturned_completes hctx path shown _) fun returned => ?_
  cases returned with
  | none => exact Trace.completes_pure _
  | some types =>
      exact Trace.completes_bind (readArguments_completes hctx path shown _ 0 []) fun args =>
        Trace.completes_pure _

/-- Every text is read without a fault. -/
theorem readJson_completes (path t : Text) : (readJson verbosity ctx path (.str t)).Completes := by
  change (readSplit verbosity ctx path _ (roughSplit t)).Completes
  cases roughSplit t with
  | none => exact completes_sayFrom_bind (Trace.completes_pure _)
  | some parts => exact readParts_completes hctx path _ parts.1 parts.2

end Signature

end ModuleStubs
