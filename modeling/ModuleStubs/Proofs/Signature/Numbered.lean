import ModuleStubs.Proofs.Signature.Naming
import ModuleStubs.Proofs.Signature.TypeAndName

/-!
# Parameters with types and names

A signature `(T1 n1, ..., Tk nk)` with a type and a name for each parameter is always read, with the types
of its parameters in order. Their names are not kept: an argument with a type is named after its place
(`numberedArguments`), so the names are those of the text exactly if the text has the numbered ones
(`read_namedParameters`).
-/

set_option autoImplicit false

namespace ModuleStubs

namespace Signature

variable {verbosity : Int}

/-- The parameter is a type of one word and a name: the type is translated and the name an identifier,
while both together are no type. -/
structure Parameter.IsNamed (ctx : TypeContext) (p : Parameter) : Prop where
  word : ∀ c ∈ p.type, isBlank c = false ∧ c ∉ lit ",()/"
  type : ∃ m, ctx.translate false p.type = .ok (some m)
  name : isIdentifier p.name = true
  apart : ctx.translate false p.text = .ok none

/-- The arguments of parameters from an index on: the types are kept, and the names are numbered. -/
def numberedArguments (index : Nat) (ps : List Parameter) : List Argument :=
  ps.mapIdx fun i p => typedArgument (index + i : Nat) (CType.python? p.type) none

theorem numberedArguments_cons (index : Nat) (p : Parameter) (ps : List Parameter) :
    numberedArguments index (p :: ps) =
      typedArgument index (CType.python? p.type) none :: numberedArguments (index + 1) ps := by
  simp [numberedArguments, List.mapIdx_cons, Nat.add_assoc, Nat.add_comm 1]

/-- Names are kept exactly where they are the numbered ones. -/
theorem names_numberedArguments_iff (ps : List Parameter) :
    (numberedArguments 0 ps).map Argument.name = ps.map Parameter.name ↔
      ∀ (i : Nat) p, ps[i]? = some p → p.name = argumentName i := by
  rw [List.ext_getElem?_iff]
  refine forall_congr' fun i => ?_
  rw [List.getElem?_map, List.getElem?_map, numberedArguments, List.getElem?_mapIdx, Nat.zero_add]
  cases ps[i]? with
  | none => simp
  | some p => simp [typedArgument, eq_comm]

theorem dropFunctionName_nil (name : Text) : dropFunctionName name [] = [] := by
  rw [dropFunctionName]
  split
  · split
    · rfl
    · rw [List.take_nil]
      rfl
  · rfl

section Reading

variable {ctx : TypeContext} (hctx : ctx.overrides = [])
include hctx

theorem Parameter.IsNamed.python? {p : Parameter} (h : p.IsNamed ctx) :
    ∃ m, CType.python? p.type = some m := by
  obtain ⟨m, hm⟩ := h.type
  rw [TypeContext.translate_of_no_overrides hctx] at hm
  exact ⟨m, Except.ok.inj hm⟩

/-- Behind `const` a name is a type. -/
theorem Parameter.IsNamed.type_ne_const {p : Parameter} (h : p.IsNamed ctx) : p.type ≠ lit "const" := by
  intro hconst
  have hmarks : CType.dropMarks p.name = p.name := CType.dropMarks_append_identifier h.name []
  have htext : p.text = lit "const " ++ p.name := by
    rw [Parameter.text, hconst]
    rfl
  have hnone := h.apart
  rw [TypeContext.translate_of_no_overrides hctx, htext, CType.python?, CType.builtin?_const,
    CType.clean_const (solid_of_isIdentifier h.name), hmarks, CType.pythonOfClean?, identifier?, if_pos h.name] at hnone
  simp at hnone

theorem Parameter.IsNamed.isPlain {p : Parameter} (h : p.IsNamed ctx) : p.isPlain = true := by
  obtain ⟨m, hm⟩ := h.python? hctx
  have hne : p.type ≠ [] := by
    intro hnil
    rw [hnil] at hm
    contradiction
  have hhyphen : CodePoint.ofChar '-' ∉ p.type :=
    CType.not_mem_of_python? hm (by decide) (by decide) (by decide)
  rw [Parameter.isPlain_iff]
  refine ⟨?_, h.type_ne_const hctx, h.name⟩
  have hpoints : ∀ c ∈ p.type, isTypePoint c = true := by
    intro c hc
    obtain ⟨hblank, hother⟩ := h.word c hc
    have hminus : c ≠ CodePoint.ofChar '-' := by
      rintro rfl
      exact hhyphen hc
    have hothers : c ≠ CodePoint.ofChar ',' ∧ c ≠ CodePoint.ofChar '(' ∧ c ≠ CodePoint.ofChar ')' ∧
        c ≠ CodePoint.ofChar '/' := by simpa [lit] using hother
    simp [isTypePoint, hblank, hothers, hminus]
  simpa [isTypeWord, hne] using hpoints

/-- A parameter is read as the argument of its type and its place. -/
theorem result_readArgument_parameter {p : Parameter} (h : p.IsNamed ctx) {text : Text}
    (htext : Text.strip text = p.text) (path : Text) (index : Int) :
    (readArgument verbosity ctx path text index).result =
      .ok (some (typedArgument index (CType.python? p.type) none)) := by
  obtain ⟨m, hm⟩ := h.python? hctx
  obtain ⟨hword, -, hname⟩ := Parameter.isPlain_iff.1 (h.isPlain hctx)
  rw [result_readArgument_words hctx htext (strip_word hword) (CType.annotated?_of_python? hm) hname
    (Or.inl rfl), hm]
  rfl

theorem result_readArguments_parameters (verbosity : Int) (path shown : Text) :
    ∀ (ps : List Parameter) (texts : List Text) (index : Nat) (seen : List Text),
      (∀ p ∈ ps, p.IsNamed ctx) → texts.map Text.strip = ps.map Parameter.text →
      (readArguments verbosity ctx path shown index seen texts).result =
        .ok (some (numberedArguments index ps))
  | [], texts, index, seen, _, htexts => by
      obtain rfl : texts = [] := List.map_eq_nil_iff.1 htexts
      rfl
  | p :: ps, [], index, seen, _, htexts => by simp at htexts
  | p :: ps, t :: ts, index, seen, hps, htexts => by
      obtain ⟨ht, hts⟩ := List.cons.inj htexts
      have hrest := fun seen => result_readArguments_parameters verbosity path shown ps ts (index + 1) seen
        (fun q hq => hps q (List.mem_cons_of_mem _ hq)) hts
      rw [result_readArguments_cons,
        result_readArgument_parameter hctx (hps p List.mem_cons_self) ht, numberedArguments_cons]
      simp only [Except.bind, hrest]
      rfl

end Reading

/-- **Names of parameters.** Where no override speaks about types, a signature of parameters with types and
names is read with all of its types, in order, and with numbered names. The names of the text are kept
exactly if each is the numbered one of its place. -/
theorem read_namedParameters {ctx : TypeContext} (hctx : ctx.overrides = []) (path : Text)
    {ps : List Parameter} (hps : ∀ p ∈ ps, p.IsNamed ctx) :
    ∃ args, (read verbosity ctx path (lit "(" ++ parameterTexts ps ++ lit ")")).result =
        .ok (some ⟨none, none, args⟩) ∧
      args = numberedArguments 0 ps ∧
      (args.map Argument.name = ps.map Parameter.name ↔
        ∀ (i : Nat) p, ps[i]? = some p → p.name = argumentName i) := by
  have hplain : ∀ p ∈ ps, p.isPlain = true := fun p hp => (hps p hp).isPlain hctx
  refine ⟨_, ?_, rfl, names_numberedArguments_iff ps⟩
  have hempty : Text.Balanced [] := by decide
  have hcall : read verbosity ctx path (lit "(" ++ parameterTexts ps ++ lit ")") = _ :=
    read_call hempty (balanced_parameterTexts hplain)
  have harguments := fun shown => result_readArguments_parameters hctx verbosity path shown ps _ 0 [] hps
    (map_strip_pieces hplain)
  -- nothing stands before the parentheses, so no type is returned
  have hnone : dropFunctionName (Text.lastPiece '.' path) (Text.strip []) = [] :=
    dropFunctionName_nil (Text.lastPiece '.' path)
  rw [hcall, strip_parameterTexts hplain, readParts_eq, hnone, Trace.result_bind_of_ok rfl,
    Trace.result_bind_of_ok (harguments _)]
  rfl

/-- The parameters of `(int x, CyUnit* pUnit)`. -/
def unitParameters : List Parameter := [⟨lit "int", lit "x"⟩, ⟨lit "CyUnit*", lit "pUnit"⟩]

/-- They are read with their types. -/
theorem read_namedParameters_unit :
    lit "(" ++ parameterTexts unitParameters ++ lit ")" = lit "(int x, CyUnit* pUnit)" ∧
    ∃ args, (read 0 {} (lit "Ext.f") (lit "(" ++ parameterTexts unitParameters ++ lit ")")).result =
        .ok (some ⟨none, none, args⟩) ∧
      args = [⟨lit "arg0", some ⟨some (lit "int"), none⟩⟩,
        ⟨lit "arg1", some ⟨some (lit "CyUnit"), none⟩⟩] ∧
      args.map Argument.name ≠ unitParameters.map Parameter.name := by
  have hnamed : ∀ p ∈ unitParameters, p.IsNamed {} := by
    intro p hp
    simp only [unitParameters, List.mem_cons, List.not_mem_nil, or_false] at hp
    rcases hp with rfl | rfl
    · exact ⟨by decide, ⟨lit "int", by decide⟩, by decide, by decide⟩
    · exact ⟨by decide, ⟨lit "CyUnit", by decide⟩, by decide, by decide⟩
  have hctx : ({} : TypeContext).overrides = [] := rfl
  obtain ⟨args, hread, hargs, hnames⟩ := read_namedParameters hctx (lit "Ext.f") hnamed
  refine ⟨by decide, args, hread, hargs.trans (by decide +kernel), ?_⟩
  intro hkept
  exact absurd (hnames.1 hkept 0 ⟨lit "int", lit "x"⟩ rfl) (by decide)

/-- The name of a parameter is lost although its type is read. -/
theorem parameter_name_lost :
    Parameter.IsNamed {} ⟨lit "int", lit "x"⟩ ∧
    (read 0 {} (lit "Ext.f") (lit "(int x)")).result =
      .ok (some ⟨none, none, [⟨lit "arg0", some ⟨some (lit "int"), none⟩⟩]⟩) ∧
    lit "arg0" ≠ lit "x" :=
  ⟨⟨by decide, ⟨lit "int", by decide⟩, by decide, by decide⟩, by decide +kernel, by decide⟩

end Signature

end ModuleStubs
