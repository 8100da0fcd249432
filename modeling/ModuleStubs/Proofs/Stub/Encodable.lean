import ModuleStubs.Console
import ModuleStubs.Proofs.Json.RoundTrip
import ModuleStubs.Proofs.Signature.Scalar
import ModuleStubs.Proofs.Stub.Bodies
import ModuleStubs.Proofs.Stub.Shown

/-!
# Stubs that a file takes

A file of UTF-8 takes all that is written for a skeleton whose texts have no halves of surrogate pairs
(`accepted_writeModule`): the values that are shown are made of these texts, of numerals and of escapes
(`isScalar_display`). So the run of a writer is stopped by the console alone, if at all, and where the
console takes the warnings it does what the writer does (`run_eq_writeModule`).
-/

set_option autoImplicit false

namespace ModuleStubs

/-! ## Literals -/

namespace Text

theorem isScalar_join {sep : Text} (hsep : sep.isScalar = true) {ts : List Text}
    (hts : ∀ t ∈ ts, t.isScalar = true) : (join sep ts).isScalar = true :=
  isScalar_iff.2 (forall_mem_join (isScalar_iff.1 hsep) fun t ht => isScalar_iff.1 (hts t ht))

theorem isScalar_hexFixed (width n : Nat) : (hexFixed width n).isScalar = true := by
  induction width generalizing n with
  | zero => rfl
  | succ width ih =>
      rw [hexFixed, isScalar_append]
      exact ⟨ih _, isScalar_cons.2 ⟨(Wire.isPrintable_hexDigit n).not_isSurrogate, rfl⟩⟩

theorem isScalar_hexEscape (c : CodePoint) : (hexEscape c).isScalar = true := by
  rw [hexEscape]
  split
  · exact isScalar_append.2 ⟨isScalar_lit _, isScalar_hexFixed _ _⟩
  · split
    · exact isScalar_append.2 ⟨isScalar_lit _, isScalar_hexFixed _ _⟩
    · exact isScalar_append.2 ⟨isScalar_lit _, isScalar_hexFixed _ _⟩

theorem isScalar_quotedPoint {c : CodePoint} (hc : c.isSurrogate = false) (quote : CodePoint) :
    (quotedPoint quote c).isScalar = true := by
  have hone : Text.isScalar [c] = true := isScalar_cons.2 ⟨hc, rfl⟩
  rw [quotedPoint]
  split
  · exact isScalar_cons.2 ⟨CodePoint.isSurrogate_ofChar _, hone⟩
  split
  · exact isScalar_lit _
  split
  · exact isScalar_lit _
  split
  · exact isScalar_lit _
  split
  · exact hone
  · exact isScalar_hexEscape c

theorem isScalar_quoted {t : Text} (ht : t.isScalar = true) : (quoted t).isScalar = true := by
  have hquote : (quoteFor t).isSurrogate = false := by
    rw [quoteFor]
    split <;> exact CodePoint.isSurrogate_ofChar _
  have hbody : Text.isScalar (t.flatMap (quotedPoint (quoteFor t))) = true := by
    refine isScalar_iff.2 fun d hd => ?_
    obtain ⟨c, hc, hd⟩ := List.mem_flatMap.1 hd
    exact isScalar_iff.1 (isScalar_quotedPoint (isScalar_iff.1 ht c hc) _) d hd
  rw [quoted, isScalar_cons, isScalar_append]
  exact ⟨hquote, hbody, isScalar_cons.2 ⟨hquote, rfl⟩⟩

end Text

namespace Json

theorem isScalar_text (x : Binary64) : x.text.isScalar = true := by
  cases hparts : x.parts with
  | nan => simp [Binary64.text, hparts]
  | infinite negative => cases negative <;> simp [Binary64.text, hparts]
  | finite negative m e =>
      refine Text.isScalar_iff.2 fun c hc => ?_
      exact (isPrintable_of_numeral (Binary64.numeral_text hparts) c hc).not_isSurrogate

mutual

theorem isScalar_literal : ∀ v : Json, v.every hasScalarTexts = true → v.literal.isScalar = true
  | .null, _ => by simp [literal]
  | .bool b, _ => by cases b <;> simp [literal, boolLiteral]
  | .int n, _ => Text.isScalar_decimalInt n
  | .float x, _ => isScalar_text x
  | .str s, h => Text.isScalar_quoted (every_hasScalarTexts_str.1 h)
  | .list items, h => by
      rw [literal, Text.isScalar_append, Text.isScalar_append]
      exact ⟨⟨Text.isScalar_lit _, Text.isScalar_join (Text.isScalar_lit _)
        (isScalar_itemLiterals items (every_list.1 h).2)⟩, Text.isScalar_lit _⟩
  | .object fields, h => by
      obtain ⟨hkeys, hvalues⟩ := every_object.1 h
      rw [literal, Text.isScalar_append, Text.isScalar_append]
      refine ⟨⟨Text.isScalar_lit _, Text.isScalar_join (Text.isScalar_lit _)
        (isScalar_fieldLiterals fields (fun f hf => ⟨?_, hvalues f hf⟩))⟩, Text.isScalar_lit _⟩
      exact List.all_eq_true.1 hkeys f.1 (List.mem_map_of_mem hf)

theorem isScalar_itemLiterals : ∀ items : List Json,
    (∀ v ∈ items, v.every hasScalarTexts = true) → ∀ t ∈ itemLiterals items, t.isScalar = true
  | [], _ => by simp [itemLiterals]
  | v :: vs, h => by
      rw [itemLiterals, List.forall_mem_cons]
      exact ⟨isScalar_literal v (h v List.mem_cons_self),
        isScalar_itemLiterals vs fun w hw => h w (List.mem_cons_of_mem v hw)⟩

theorem isScalar_fieldLiterals : ∀ fields : List (Text × Json),
    (∀ f ∈ fields, f.1.isScalar = true ∧ f.2.every hasScalarTexts = true) →
      ∀ t ∈ fieldLiterals fields, t.isScalar = true
  | [], _ => by simp [fieldLiterals]
  | (k, v) :: fs, h => by
      obtain ⟨hk, hv⟩ := h (k, v) List.mem_cons_self
      rw [fieldLiterals, List.forall_mem_cons]
      refine ⟨?_, isScalar_fieldLiterals fs fun f hf => h f (List.mem_cons_of_mem _ hf)⟩
      rw [Text.isScalar_append, Text.isScalar_append]
      exact ⟨⟨Text.isScalar_quoted hk, Text.isScalar_lit _⟩, isScalar_literal v hv⟩

end

/-- What is shown of a value has no halves of surrogate pairs if its texts have none. -/
theorem isScalar_display {v : Json} (h : v.every hasScalarTexts = true) :
    v.display.isScalar = true := by
  cases v with
  | str s => exact every_hasScalarTexts_str.1 h
  | _ => exact isScalar_literal _ h

end Json

namespace Stub

/-! ## Nodes without their members -/

section Scalar

variable {indent path : Text}

/-- A file takes the entry. -/
def Accepted (e : Emission) : Prop := refusal .any e = none

theorem accepted_write {t : Text} (ht : t.isScalar = true) :
    ∀ e ∈ (write t).log, Accepted e := by
  simp [write, Accepted, refusal, ht]

theorem accepted_quiet {α : Type} (r : Except Fault α) :
    ∀ e ∈ (⟨[], r⟩ : Writing α).log, Accepted e := by simp

/-- The values that a node shows have the texts of the node. -/
theorem isScalar_of_mem_shownValues {node : Json} (hnode : node.every Json.hasScalarTexts = true) :
    ∀ x ∈ shownValues node, x.display.isScalar = true := by
  intro x hx
  refine Json.isScalar_display ?_
  cases node with
  | object fields =>
      rcases List.mem_append.1 hx with hx | hx
      · obtain ⟨key, -, hget⟩ := List.mem_filterMap.1 hx
        exact Json.every_field? hnode hget
      · obtain ⟨signature, hsignature, hx⟩ := List.mem_flatMap.1 hx
        have hs := Json.every_field? hnode (Option.mem_toList.1 hsignature)
        rcases List.mem_append.1 hx with hx | hx
        · exact Json.every_field? hs (Option.mem_toList.1 hx)
        · split at hx
          · rename_i arguments hargs
            obtain ⟨a, ha, hx⟩ := List.mem_flatMap.1 hx
            have harg := (Json.every_list.1 (Json.every_field? hs hargs)).2 a ha
            rcases List.mem_append.1 hx with hx | hx
            · exact Json.every_field? harg (Option.mem_toList.1 hx)
            · exact Json.every_field? harg (Option.mem_toList.1 hx)
          · contradiction
  | _ => contradiction

variable {fields : Record Json}
  (hnode : (Json.object fields).every Json.hasScalarTexts = true) (hindent : indent.isScalar = true)
include hnode hindent

theorem accepted_writeFunction {isMethod : Bool} {name : Json} (hname : name.display.isScalar = true) :
    ∀ e ∈ (writeFunction indent isMethod name fields).log, Accepted e := by
  have hpass : (passLine indent).isScalar = true := by simp [passLine, hindent]
  have hbody : ∀ doc, Record.get? (lit "doc") fields = some doc →
      (if doc.truthy then docLine indent doc else passLine indent).isScalar = true := by
    intro doc hdoc
    split
    · simp [docLine, hindent, Json.isScalar_display (Json.every_field? hnode hdoc)]
    · exact hpass
  refine Trace.forall_mem_log_bind_ok (accepted_quiet _) fun head hhead => ?_
  obtain ⟨parameters, comment⟩ := head
  obtain ⟨hparameters, hcomment⟩ := shown_of_readHead (P := fun t => t.isScalar = true) (by decide)
    hhead (isScalar_of_mem_shownValues hnode)
  refine Trace.forall_mem_log_bind (accepted_write ?_) fun _ => ?_
  · simp [functionHeader, hindent, hname, Text.isScalar_join (Text.isScalar_lit _) hparameters]
  · have htyped : ∀ c, comment = some c → (typeComment indent c.types c.returned).isScalar = true := by
      intro c hc
      obtain ⟨htypes, hreturned⟩ := hcomment c hc
      simp [typeComment, hindent, hreturned, Text.isScalar_join (Text.isScalar_lit _) htypes]
    cases hdoc : Record.get? (lit "doc") fields with
    | none =>
        cases comment with
        | none => exact accepted_write hpass
        | some c =>
            exact Trace.forall_mem_log_bind (accepted_write (htyped c rfl)) fun _ => accepted_write hpass
    | some doc =>
        have hlast := accepted_write (hbody doc hdoc)
        cases comment with
        | none => exact hlast
        | some c => exact Trace.forall_mem_log_bind (accepted_write (htyped c rfl)) fun _ => hlast

theorem accepted_writeOther {name type : Json} (hname : name.display.isScalar = true)
    (htype : type.display.isScalar = true) :
    ∀ e ∈ (writeOther indent path name type fields).log, Accepted e := by
  rw [writeOther]
  cases hvalue : Record.get? (lit "value") fields with
  | some value =>
      refine accepted_write ?_
      simp [constantLine, hindent, hname, htype,
        Json.isScalar_display (Json.every_field? hnode hvalue)]
  | none =>
      dsimp only
      split
      · refine accepted_write ?_
        delta propertyLines
        simp only [Text.isScalar_append, Text.isScalar_lit, hindent, hname, and_self]
      · split
        · exact accepted_quiet _
        · simp [Accepted, refusal, Console.refusal, Console.any]

theorem accepted_writeContainer {type name : Json} (hname : name.display.isScalar = true) :
    ∀ e ∈ (writeContainer indent type name fields).log, Accepted e := by
  refine Trace.forall_mem_log_bind (accepted_write ?_) fun _ => ?_
  · split <;> simp [typeHeader, classHeader, hindent, hname]
  refine Trace.forall_mem_log_bind ?_ fun documented => ?_
  · rw [writeDoc]
    cases hdoc : Record.get? (lit "doc") fields with
    | none => exact accepted_quiet _
    | some doc =>
        refine Trace.forall_mem_log_bind (accepted_write ?_) fun _ => accepted_quiet _
        simp [docLine, hindent, Json.isScalar_display (Json.every_field? hnode hdoc)]
  · refine Trace.forall_mem_log_bind (accepted_quiet _) fun nodes => ?_
    split
    · exact accepted_write (by simp [passLine, hindent])
    · exact accepted_quiet _

theorem accepted_writeSelf : ∀ e ∈ (writeSelf indent path (.object fields)).log, Accepted e := by
  cases htype : Record.get? (lit "type") fields with
  | none =>
      rw [writeSelf_untyped htype]
      exact accepted_quiet _
  | some type =>
      cases hname : Record.get? (lit "name") fields with
      | none =>
          rw [writeSelf_unnamed htype hname]
          split <;> exact accepted_quiet _
      | some name =>
          have hn := Json.isScalar_display (Json.every_field? hnode hname)
          rw [writeSelf_of_fields htype hname]
          split
          · exact accepted_quiet _
          split
          · exact accepted_writeContainer hnode hindent hn
          split
          · exact accepted_writeFunction hnode hindent hn
          split
          · exact accepted_writeFunction hnode hindent hn
          · exact accepted_writeOther hnode hindent hn
              (Json.isScalar_display (Json.every_field? hnode htype))

end Scalar

/-! ## Nodes with their members -/

theorem every_of_mem_memberNodes {fields : Record Json} {nodes : List Json}
    (hnode : (Json.object fields).every Json.hasScalarTexts = true)
    (h : memberNodes fields = .ok nodes) {node : Json} (hmem : node ∈ nodes) :
    node.every Json.hasScalarTexts = true := by
  have hfield := memberNodes_eq_ok h (List.ne_nil_of_mem hmem)
  exact (Json.every_list.1 (Json.every_field? hnode hfield)).2 node hmem

/-- The list companion of `accepted_writeNode`. -/
theorem accepted_writeNodes {nodes : List Json} {indent path : Text}
    (h : ∀ node ∈ nodes, ∀ e ∈ (writeNode indent path node).log, Accepted e) :
    ∀ e ∈ (writeNodes indent path nodes).log, Accepted e := by
  induction nodes with
  | nil => exact accepted_quiet _
  | cons node nodes ih =>
      rw [writeNodes]
      exact Trace.forall_mem_log_bind (h node List.mem_cons_self) fun _ =>
        ih fun n hn => h n (List.mem_cons_of_mem node hn)

/-- A file takes what is written for a node. -/
theorem accepted_writeNode {indent path : Text} {node : Json}
    (hnode : node.every Json.hasScalarTexts = true) (hindent : indent.isScalar = true) :
    ∀ e ∈ (writeNode indent path node).log, Accepted e := by
  cases node with
  | object fields =>
      rw [writeNode_object]
      refine Trace.forall_mem_log_bind (accepted_writeSelf hnode hindent) fun _ => ?_
      cases containerName? fields with
      | none => exact accepted_quiet _
      | some name =>
          cases hm : memberNodes fields with
          | error e => exact accepted_quiet _
          | ok nodes =>
              refine accepted_writeNodes fun n hn => ?_
              -- the members are smaller than the node, and have no other texts
              have := size_lt_of_mem_memberNodes hm hn
              exact accepted_writeNode (every_of_mem_memberNodes hnode hm hn)
                (Text.isScalar_append.2 ⟨hindent, by decide⟩)
  | _ => exact accepted_quiet _
termination_by node.size

/-- A file takes all that is written for a skeleton without halves of surrogate pairs. -/
theorem accepted_writeModule {data : Json} (hdata : data.every Json.hasScalarTexts = true) :
    ∀ e ∈ (writeModule data).log, Accepted e := by
  rw [writeModule]
  refine Trace.forall_mem_log_bind (accepted_quiet _) fun type => ?_
  split
  · exact accepted_quiet _
  refine Trace.forall_mem_log_bind_ok (accepted_quiet _) fun name hname => ?_
  refine Trace.forall_mem_log_bind_ok (accepted_quiet _) fun doc hdoc => ?_
  refine Trace.forall_mem_log_bind (accepted_write ?_) fun _ => ?_
  · simp [moduleHead, Json.isScalar_display (Json.every_index hdata hname),
      Json.isScalar_display (Json.every_fieldOr hdata rfl hdoc)]
  refine Trace.forall_mem_log_bind_ok (accepted_quiet _) fun members hmembers => ?_
  refine Trace.forall_mem_log_each fun node hnode => ?_
  refine Trace.forall_mem_log_bind (accepted_write (by decide)) fun _ => ?_
  refine accepted_writeNode ?_ rfl
  obtain ⟨v, hv, helements⟩ := except_bind_eq_ok.1 hmembers
  refine Json.every_hasScalarTexts_of_mem_elements ?_ helements hnode
  exact Json.every_fieldOr hdata rfl hv

/-- On a console that takes the warnings, the run of a writer does what the writer does. -/
theorem run_eq_writeModule {console : Console} {data : Json}
    (hdata : data.every Json.hasScalarTexts = true)
    (hwarnings : ∀ line ∈ warnings (writeModule data).log, console.takes line = true) :
    run console data = writeModule data := by
  refine Trace.stopAt_eq_self fun e he => ?_
  cases e with
  | write t => exact accepted_writeModule hdata _ he
  | warn t =>
      exact Console.refusal_eq_none_iff.2 (hwarnings t (List.mem_filterMap.2 ⟨_, he, rfl⟩))

end Stub

end ModuleStubs
