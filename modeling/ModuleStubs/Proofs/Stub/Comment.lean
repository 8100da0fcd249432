import ModuleStubs.Proofs.Signature.Arguments
import ModuleStubs.Proofs.Stub.Shown
import ModuleStubs.Proofs.Text.Cut

/-!
# Type comments of stored signatures

A signature is stored in a skeleton by one part of the library and read by another. What is read
back are the names of its arguments, their types, with `Any` where only the name is known, and the
type returned (`readSignature_toJson`). An argument that is stored with types but without a Python
type has nothing to show (`Argument.shown?`); such a signature is refused.
-/

set_option autoImplicit false

namespace ModuleStubs

/-- A list computed element by element. -/
theorem mapM_eq_ok {α β ε : Type} {g : α → Except ε β} {f : α → β} {as : List α}
    (h : ∀ a ∈ as, g a = .ok (f a)) : as.mapM g = .ok (as.map f) := by
  induction as with
  | nil => rfl
  | cons a as ih =>
      rw [List.mapM_cons, h a List.mem_cons_self, ih fun b hb => h b (List.mem_cons_of_mem _ hb)]
      rfl

namespace Stub

theorem textsFrom_map_str (ts : List Text) : ∀ i, textsFrom i (ts.map .str) = .ok ts := by
  induction ts with
  | nil => exact fun i => rfl
  | cons t ts ih =>
      intro i
      rw [List.map_cons, textsFrom, ih (i + 1)]
      rfl

theorem index_name_toJson (a : Argument) : a.toJson.index (lit "name") = .ok (.str a.name) := by
  obtain ⟨name, type⟩ := a
  cases type with
  | none => simp [Argument.toJson, Json.index, Record.get?]
  | some t => simp [Argument.toJson, Json.index, Record.get?]

theorem mapM_name_toJson (as : List Argument) :
    (as.map Argument.toJson).mapM (Json.index (lit "name")) =
      .ok ((as.map Argument.name).map .str) := by
  rw [List.mapM_map, List.map_map]
  exact mapM_eq_ok fun a _ => index_name_toJson a

/-- The stored type of an argument, as it is looked up. -/
theorem fieldOr_type_toJson (a : Argument) :
    a.toJson.fieldOr (lit "type") anyType = .ok (Json.ofText? a.shown?) := by
  obtain ⟨name, type⟩ := a
  cases type with
  | none => simp [Argument.toJson, Json.fieldOr, Record.get?, Argument.shown?, Json.ofText?, anyType]
  | some t => simp [Argument.toJson, Json.fieldOr, Record.get?, Argument.shown?]

theorem fieldOr_args_toJson (s : Signature) :
    s.toJson.fieldOr (lit "args") .null = .ok (.list (s.arguments.map Argument.toJson)) := by
  obtain ⟨returned, alternative, arguments⟩ := s
  cases returned <;> cases alternative <;> simp [Signature.toJson, Json.fieldOr, Record.get?]

theorem fieldOr_returnType_toJson (s : Signature) :
    s.toJson.fieldOr (lit "return-type") anyType =
      .ok (.str (s.returnType.getD (lit "Any"))) := by
  obtain ⟨returned, alternative, arguments⟩ := s
  cases returned <;> cases alternative <;>
    simp [Signature.toJson, Json.fieldOr, Record.get?, anyType]

theorem mapM_type_toJson (as : List Argument) :
    (as.map Argument.toJson).mapM (fun a => a.fieldOr (lit "type") anyType) =
      .ok (as.map fun a => Json.ofText? a.shown?) := by
  rw [List.mapM_map]
  exact mapM_eq_ok fun a _ => fieldOr_type_toJson a

/-- A stored signature read back: the names and the types of its arguments and the type returned,
where every argument has a type to show. -/
theorem readSignature_toJson {s : Signature} {types : List Text}
    (h : s.arguments.map Argument.shown? = types.map some) :
    readSignature s.toJson =
      .ok ((s.arguments.map Argument.name).map .str, ⟨types, s.returnType.getD (lit "Any")⟩) := by
  have htypes : (s.arguments.map fun a => Json.ofText? a.shown?) = types.map .str := by
    have hshown := congrArg (List.map Json.ofText?) h
    rwa [List.map_map, List.map_map] at hshown
  rw [readSignature, fieldOr_args_toJson]
  simp only [bind, Except.bind, Json.elements, mapM_name_toJson, mapM_type_toJson, htypes,
    fieldOr_returnType_toJson, textsFrom_map_str, pure, Except.pure, Json.display]

/-- A stored signature is read back only if every argument has a type to show. -/
theorem forall_shown_of_readSignature {s : Signature} {parts : List Json × Comment}
    (h : readSignature s.toJson = .ok parts) : ∀ arg ∈ s.arguments, arg.shown?.isSome = true := by
  rw [readSignature, fieldOr_args_toJson] at h
  simp only [bind, Except.bind, Json.elements, mapM_name_toJson, mapM_type_toJson,
    fieldOr_returnType_toJson] at h
  split at h
  · contradiction
  · rename_i types htypes
    intro arg harg
    have hmem : Json.ofText? arg.shown? ∈ types.map Json.str :=
      eq_map_str_of_textsFrom htypes ▸ List.mem_map_of_mem harg
    obtain ⟨t, -, ht⟩ := List.mem_map.1 hmem
    cases hshown : arg.shown? with
    | none =>
        rw [hshown] at ht
        contradiction
    | some _ => rfl

/-- A method has one parameter more than its signature. -/
theorem parameters_map_str (isMethod : Bool) (names : List Text) :
    (if isMethod then .str (lit "self") :: names.map .str else names.map .str) =
      ((if isMethod then [lit "self"] else []) ++ names).map Json.str := by
  cases isMethod <;> rfl

/-- The parameters and the type comment of a function with a stored signature. -/
theorem readHead_toJson {s : Signature} {types : List Text}
    (h : s.arguments.map Argument.shown? = types.map some) {fields : Record Json}
    (hsig : Record.get? (lit "signature") fields = some s.toJson) (isMethod : Bool) :
    ∃ parameters, readHead isMethod fields =
      .ok (parameters, some ⟨types, s.returnType.getD (lit "Any")⟩) := by
  refine ⟨(if isMethod then [lit "self"] else []) ++ s.arguments.map Argument.name, ?_⟩
  rw [readHead, hsig]
  simp only [readSignature_toJson h, bind, Except.bind, pure, Except.pure, parameters_map_str,
    textsFrom_map_str]

end Stub

end ModuleStubs
