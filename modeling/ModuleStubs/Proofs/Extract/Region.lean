import ModuleStubs.Extract.Report
import ModuleStubs.Proofs.Extract.Walk
import ModuleStubs.Proofs.Grammar.Reading
import ModuleStubs.Proofs.Wire.Documents

/-!
# What stands between the markers

Where the document goes to the same place as the rest of a report, what the walk prints comes between
the start line and the document. So the region between the markers is the document and a line feed, and
JSON at all, exactly if the walk meets no place about which something is said: no module or class at the
greatest depth, and none whose members cannot be listed (`region_of_completed`).
-/

set_option autoImplicit false

namespace ModuleStubs

namespace Report

open DocTree (Met Place complaint? noMembers)
open Grammar (Dialect Document not_document_cons)

/-! ## The text of a report -/

theorem together_append (log log' : List Emission) :
    together (log ++ log') = together log ++ together log' := List.flatMap_append

theorem together_map_print (ts : List Text) : together (ts.map .print) = ts.flatten := by
  rw [together, List.flatMap_map, List.flatMap_def]
  simp

theorem together_map_document (ts : List Text) : together (ts.map .document) = ts.flatten := by
  rw [together, List.flatMap_map, List.flatMap_def]
  simp

/-- The document of a skeleton is given out as it is written. -/
theorem together_document {t : DocTree} (h : (document t).result = .ok ()) :
    t.toDatum.written {} = .ok (together (document t).log) := by
  have hlog : together (document t).log = Text.concat (t.toDatum.chunks {}).log :=
    together_map_document _
  rw [hlog, Wire.Datum.written, Wire.document]
  cases hresult : (t.toDatum.chunks {}).result with
  | error fault =>
      rw [document, hresult] at h
      contradiction
  | ok marks => rfl

section Reports

variable {ρ : Type} [DecidableEq ρ] {memory : Memory ρ} {greatest : Int} {room : Nat} {o : ρ}
  {name : Text}

/-- A report that completes consists of the markers and, between them, what the walk printed and the
document of the skeleton. -/
theorem together_of_completed (h : (make memory greatest room o name).result = .ok ()) :
    ∃ t doc, (DocTree.make memory greatest room ⟨o, name, 0, false⟩).result = .ok t ∧
      t.toDatum.written {} = .ok doc ∧
      together (make memory greatest room o name).log = ruler ++ (startLine name ++
        ((DocTree.make memory greatest room ⟨o, name, 0, false⟩).log.flatten ++ (doc ++ lit "\n") ++
          (endLine name ++ ruler))) := by
  simp only [make, print, Trace.say_eq, Trace.bind_ok] at h ⊢
  obtain ⟨t, htree, hrest⟩ := Trace.result_bind_eq_ok.1 h
  obtain ⟨⟨⟩, hdocument, -⟩ := Trace.result_bind_eq_ok.1 hrest
  have ht : (DocTree.make memory greatest room ⟨o, name, 0, false⟩).result = .ok t := by
    rw [tree] at htree
    cases hmade : (DocTree.make memory greatest room ⟨o, name, 0, false⟩).result with
    | error stop =>
        rw [hmade] at htree
        contradiction
    | ok t' =>
        rw [hmade] at htree
        exact congrArg Except.ok (Except.ok.inj htree)
  refine ⟨t, _, ht, together_document hdocument, ?_⟩
  rw [Trace.log_bind htree, Trace.log_bind hdocument, tree]
  simp only [together_append, together_map_print, List.append_assoc]
  simp [together]

omit [DecidableEq ρ] in
/-- What is said about a place starts as no JSON does. -/
theorem complaint_eq_cons {p : Place ρ} {x : Text} (h : complaint? memory greatest p = some x) :
    ∃ c r, x = c :: r ∧ isSpace c = false ∧ c ∉ Grammar.starts := by
  rw [complaint?] at h
  split at h
  · split at h
    · obtain rfl := Option.some.inj h
      exact ⟨_, _, rfl, by decide, by decide⟩
    · split at h
      · obtain rfl := Option.some.inj h
        exact ⟨_, _, rfl, by decide, by decide⟩
      · contradiction
  · contradiction

theorem document_append_feed {doc : Text} {v : Json} (h : Document .wire doc v) :
    Document .wire (doc ++ lit "\n") v := by
  obtain ⟨before, text, after, hbefore, hvalue, hafter, rfl⟩ := h
  refine ⟨before, text, after ++ lit "\n", hbefore, hvalue, ?_, by simp⟩
  exact List.forall_mem_append.2 ⟨hafter, by decide⟩

/-- Nothing is printed if and only if nothing is said about any place that the walk meets. -/
theorem log_eq_nil_iff {p : Place ρ} {t : DocTree}
    (h : (DocTree.make memory greatest room p).result = .ok t) :
    (DocTree.make memory greatest room p).log = [] ↔
      ∀ q, Met memory greatest p q → complaint? memory greatest q = none := by
  rw [List.eq_nil_iff_forall_not_mem]
  constructor
  · intro hsilent q hq
    cases hsaid : complaint? memory greatest q with
    | none => rfl
    | some x => exact absurd ((DocTree.mem_log_iff_met h x).2 ⟨q, hq, hsaid⟩) (hsilent x)
  · intro hsilent x hx
    obtain ⟨q, hq, hsaid⟩ := (DocTree.mem_log_iff_met h x).1 hx
    rw [hsilent q hq] at hsaid
    contradiction

/-- What was printed spoils the document behind it. -/
theorem not_document_of_said {p : Place ρ} {t : DocTree}
    (h : (DocTree.make memory greatest room p).result = .ok t)
    (hsaid : (DocTree.make memory greatest room p).log ≠ []) (behind : Text) (D : Dialect) (v : Json) :
    ¬Document D ((DocTree.make memory greatest room p).log.flatten ++ behind) v := by
  obtain ⟨x, log, hlog⟩ := List.exists_cons_of_ne_nil hsaid
  obtain ⟨q, -, hq⟩ := (DocTree.mem_log_iff_met h x).1 (hlog ▸ List.mem_cons_self)
  obtain ⟨c, r, rfl, hspace, hc⟩ := complaint_eq_cons hq
  rw [hlog]
  exact not_document_cons hspace hc _ v

/-- Between the markers of a report that completes stands the document of the skeleton and a line feed, if
and only if nothing is said about any place that the walk meets. Otherwise it is no JSON at all. -/
theorem region_of_completed (h : (make memory greatest room o name).result = .ok ()) :
    ∃ t doc region, (DocTree.make memory greatest room ⟨o, name, 0, false⟩).result = .ok t ∧
      t.toDatum.written {} = .ok doc ∧
      together (make memory greatest room o name).log =
        ruler ++ (startLine name ++ (region ++ (endLine name ++ ruler))) ∧
      (region = doc ++ lit "\n" ↔ ∀ q, Met memory greatest ⟨o, name, 0, false⟩ q →
        complaint? memory greatest q = none) ∧
      (region = doc ++ lit "\n" ↔ ∃ v, Document .wire region v) := by
  obtain ⟨t, doc, ht, hdoc, htext⟩ := together_of_completed h
  obtain ⟨v, hv⟩ := Wire.document_of_written rfl hdoc
  have hfeed := document_append_feed hv
  refine ⟨t, doc, _, ht, hdoc, htext, ?_⟩
  rw [← log_eq_nil_iff ht]
  by_cases hlog : (DocTree.make memory greatest room ⟨o, name, 0, false⟩).log = []
  · rw [hlog]
    exact ⟨iff_of_true rfl rfl, iff_of_true rfl ⟨v, hfeed⟩⟩
  · have hspoilt := not_document_of_said ht hlog (doc ++ lit "\n") .wire
    have hne : (DocTree.make memory greatest room ⟨o, name, 0, false⟩).log.flatten ++
        (doc ++ lit "\n") ≠ doc ++ lit "\n" := by
      intro heq
      apply hspoilt v
      rw [heq]
      exact hfeed
    exact ⟨iff_of_false hne hlog, iff_of_false hne (not_exists.2 hspoilt)⟩

end Reports

/-- A module with a class inside another one. The inner class has the outer one as an attribute. -/
def nestedMemory : Memory Nat := .ofObjects
  ⟨lit "module", none, none, .error [], .container ⟨.ok [(lit "Outer", 1)], []⟩⟩
  [⟨lit "type", none, some (lit "Around."), .error [], .container ⟨.ok [(lit "Inner", 2)], []⟩⟩,
   ⟨lit "class", none, none, .error [], .container ⟨.ok [(lit "outer", 1)], []⟩⟩]

/-- The walk stops at the outer class, which has a member. -/
theorem region_of_completed_nestedModule :
    (make nestedMemory 1 9 0 (lit "CvPythonExtensions")).result = .ok () ∧
      ∃ t doc region, (DocTree.make nestedMemory 1 9 ⟨0, lit "CvPythonExtensions", 0, false⟩).result =
          .ok t ∧
        t.toDatum.written {} = .ok doc ∧
        together (make nestedMemory 1 9 0 (lit "CvPythonExtensions")).log =
          ruler ++ (startLine (lit "CvPythonExtensions") ++
            (region ++ (endLine (lit "CvPythonExtensions") ++ ruler))) ∧
        (region = doc ++ lit "\n" ↔ ∀ q, Met nestedMemory 1 ⟨0, lit "CvPythonExtensions", 0, false⟩ q →
          complaint? nestedMemory 1 q = none) ∧
        (region = doc ++ lit "\n" ↔ ∃ v, Document .wire region v) := by
  have hcompletes : (make nestedMemory 1 9 0 (lit "CvPythonExtensions")).result = .ok () := by
    decide +kernel
  exact ⟨hcompletes, region_of_completed hcompletes⟩

/-- A module with a class whose members cannot be listed. -/
def secretiveMemory : Memory Nat := .ofObjects
  ⟨lit "module", none, none, .error [], .container ⟨.ok [(lit "Gone", 1)], []⟩⟩
  [⟨lit "type", none, none, .error [], .container ⟨.error (lit "broken dir of Gone"), []⟩⟩]

/-- A report that completes although there is more between its markers than the document. -/
theorem region_secretiveModule :
    (make secretiveMemory 3 9 0 (lit "CvPythonExtensions")).result = .ok () ∧
      ∃ t doc region, (DocTree.make secretiveMemory 3 9 ⟨0, lit "CvPythonExtensions", 0, false⟩).result =
          .ok t ∧
        t.toDatum.written {} = .ok doc ∧
        together (make secretiveMemory 3 9 0 (lit "CvPythonExtensions")).log =
          ruler ++ (startLine (lit "CvPythonExtensions") ++
            (region ++ (endLine (lit "CvPythonExtensions") ++ ruler))) ∧
        region = noMembers (lit "broken dir of Gone") ++ (doc ++ lit "\n") ∧
        region ≠ doc ++ lit "\n" := by
  have hcompletes : (make secretiveMemory 3 9 0 (lit "CvPythonExtensions")).result = .ok () := by
    decide +kernel
  have hlog : (DocTree.make secretiveMemory 3 9 ⟨0, lit "CvPythonExtensions", 0, false⟩).log =
      [noMembers (lit "broken dir of Gone")] := by
    decide +kernel
  obtain ⟨t, doc, ht, hdoc, htext⟩ := together_of_completed hcompletes
  rw [hlog, List.flatten_singleton] at htext
  refine ⟨hcompletes, t, doc, _, ht, hdoc, htext, rfl, ?_⟩
  intro heq
  have hlength := congrArg List.length heq
  rw [List.length_append, Nat.add_eq_right] at hlength
  exact absurd hlength (by decide)

end Report

end ModuleStubs
