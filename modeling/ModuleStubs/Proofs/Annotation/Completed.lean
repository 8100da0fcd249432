import ModuleStubs.Annotation.Module
import ModuleStubs.Proofs.Completion
import ModuleStubs.Proofs.Json.Fields
import ModuleStubs.Proofs.Text.Cut

/-!
# Annotations that complete

What is known of an annotation that ends without a fault: the annotator was made from the
configuration, the members of the module are a list, the annotation of each one completed, and the
result has the annotated members in their places (`annotate_completed`,
`annotateMembers_completed`).
-/

set_option autoImplicit false

namespace ModuleStubs

namespace Json

@[simp] theorem withField_object (key : Text) (w : Json) (fields : Record Json) :
    (Json.object fields).withField key w = .object (Record.set key w fields) := rfl

/-- A field that is set, looked up again. -/
theorem field?_withField_self {v u : Json} {k : Text} (h : v.field? k = some u) (key : Text)
    (w : Json) : (v.withField key w).field? key = some w := by
  obtain ⟨fields, rfl⟩ := eq_object_of_field? h
  rw [withField_object, field?_object, Record.get?_set, if_pos rfl]

theorem eq_of_field?_withField {v w u : Json} {key : Text}
    (h : (v.withField key w).field? key = some u) : u = w := by
  cases v with
  | object fields =>
      rw [withField_object, field?_object, Record.get?_set, if_pos rfl] at h
      exact (Option.some.inj h).symm
  | _ => simp [withField, field?] at h

/-- The other fields are as they were. -/
theorem field?_withField_of_ne {key key' : Text} (h : key ≠ key') (v w : Json) :
    (v.withField key w).field? key' = v.field? key' := by
  cases v with
  | object fields => rw [withField_object, field?_object, Record.get?_set, if_neg h, field?_object]
  | _ => rfl

end Json

namespace Annotator

variable {config data name : Json} {verbosity : Int} {a : Annotator}

/-! ## Modules -/

/-- What the annotator of a module was made from. -/
theorem prepare_eq_ok (h : prepare config verbosity data = .ok (name, a)) :
    data.field? (lit "type") = some (.str (lit "module")) ∧ data.field? (lit "name") = some name ∧
      ofConfig (if config.kind = .null then .object [] else config) verbosity data = .ok a := by
  obtain ⟨type, htype, h⟩ := except_bind_eq_ok.1 h
  -- past this guard the type is the text `module`
  cases hmodule : type.isStr (lit "module") with
  | false => simp [hmodule, bind, Except.bind, throw, throwThe, MonadExceptOf.throw] at h
  | true =>
      simp only [hmodule] at h
      obtain ⟨name', hname, h⟩ := except_bind_eq_ok.1 h
      obtain ⟨a', ha, h⟩ := except_bind_eq_ok.1 h
      obtain ⟨rfl, rfl⟩ := Prod.mk.inj (Except.ok.inj h)
      exact ⟨Json.eq_str_of_isStr hmodule ▸ Json.index_eq_ok_iff.1 htype, Json.index_eq_ok_iff.1 hname, ha⟩

/-- The end of an annotation: the overrides that were not used. -/
def unusedReport (a : Annotator) (notes : List Note) : Trace Note Fault Unit :=
  reportUnused (Note.usedIndices notes) 0 a.overrides

/-- The members of a module annotated. -/
def annotatedMembers (a : Annotator) (data name : Json) : Progress Note Fault Json :=
  annotateMembers (a.annotateMember name) data

theorem listTypes_eq (a : Annotator) (data : Json) : a.listTypes data =
    ⟨if 2 ≤ a.verbosity then [.message (knownTypes a.context)] else [], .ok data⟩ := by
  rw [listTypes]
  split <;> rfl

/-- An annotation that completes has annotated the members and reported the overrides. -/
theorem annotate_completed (h : (annotate config verbosity data).failure = none) :
    ∃ name a, prepare config verbosity data = .ok (name, a) ∧
      (a.annotatedMembers data name).failure = none ∧
      (a.unusedReport (a.annotatedMembers data name).log).result = .ok () := by
  rw [annotate] at h
  split at h
  · exact absurd h (by simp [Progress.stopped])
  · rename_i name a hprep
    refine ⟨name, a, hprep, ?_⟩
    simp only [Progress.run_cons] at h
    obtain ⟨-, h⟩ := Progress.failure_andThen_eq_none.1 h
    obtain ⟨hmembers, h⟩ := Progress.failure_andThen_eq_none.1 h
    obtain ⟨hreport, -⟩ := Progress.failure_andThen_eq_none.1 h
    obtain ⟨d, hd⟩ := Progress.failure_step_eq_none.1 hreport
    obtain ⟨u, hu, -⟩ := Trace.result_bind_eq_ok.1 hd
    exact ⟨hmembers, hu⟩

/-- The result of an annotation that completes, and what it logs: the known types, the notes about
the members, and the report. -/
theorem annotate_eq (hprep : prepare config verbosity data = .ok (name, a))
    (hmembers : (a.annotatedMembers data name).failure = none)
    (hreport : (a.unusedReport (a.annotatedMembers data name).log).result = .ok ()) :
    annotate config verbosity data =
      ⟨(a.annotatedMembers data name).value,
       (if 2 ≤ a.verbosity then [.message (knownTypes a.context)] else []) ++
         ((a.annotatedMembers data name).log ++
           (a.unusedReport (a.annotatedMembers data name).log).log), none⟩ := by
  rw [annotate, hprep]
  simp only [annotatedMembers, unusedReport] at hmembers hreport ⊢
  generalize annotateMembers (a.annotateMember name) data = members at hmembers hreport ⊢
  obtain ⟨value, log, failure⟩ := members
  obtain rfl : failure = none := hmembers
  simp only at hreport
  -- the report changes nothing, so only its log is added
  have hlast : Progress.step (fun d => do
      reportUnused (Note.usedIndices log) 0 a.overrides
      return d) value = ⟨value, (reportUnused (Note.usedIndices log) 0 a.overrides).log, none⟩ := by
    rw [Progress.step_of_ok (b := value)]
    · rw [Trace.log_bind hreport]
      simp
    · rw [Trace.result_bind_of_ok hreport]
      rfl
  have hfirst : Progress.step a.listTypes data =
      ⟨data, if 2 ≤ a.verbosity then [.message (knownTypes a.context)] else [], none⟩ := by
    rw [Progress.step, listTypes_eq]
  simp only [Progress.run_cons, Progress.run_nil, Progress.andThen, hfirst, hlast, Progress.done,
    List.append_nil]

/-! ## Members -/

/-- The items of a list that can all be changed are changed in their places. -/
theorem annotateMembers_list {change : Change} {node : Json} {items : List Json}
    (hitems : node.field? (lit "members") = some (.list items))
    (hall : ∀ x ∈ items, (change x).failure = none) :
    annotateMembers change node = ⟨node.withField (lit "members")
      (.list (items.map fun x => (change x).value)), items.flatMap fun x => (change x).log, none⟩ := by
  rw [annotateMembers, Json.index_of_field? hitems]
  simp only [Progress.map, Progress.value_walk hall, Progress.log_walk hall,
    Progress.failure_walk_eq_none.2 hall]

theorem failure_annotateMembers_list {change : Change} {node : Json} {items : List Json}
    (hitems : node.field? (lit "members") = some (.list items)) :
    (annotateMembers change node).failure = none ↔ ∀ x ∈ items, (change x).failure = none := by
  rw [annotateMembers, Json.index_of_field? hitems]
  exact Progress.failure_walk_eq_none

/-- Members that were all annotated are the items of a list, each changed in its place. Another
value in their place has its parts looked at, and stays. -/
theorem annotateMembers_completed {change : Change} {node : Json}
    (h : (annotateMembers change node).failure = none) :
    (∃ items, node.field? (lit "members") = some (.list items) ∧
      ∀ x ∈ items, (change x).failure = none) ∨
    (∃ v parts, node.field? (lit "members") = some v ∧ v.kind ≠ .list ∧ v.elements = .ok parts ∧
      (∀ x ∈ parts, (change x).failure = none) ∧
      annotateMembers change node = ⟨node, parts.flatMap fun x => (change x).log, none⟩) := by
  rw [annotateMembers] at h ⊢
  split at h
  · exact absurd h (by simp [Progress.stopped])
  · rename_i items hitems
    exact Or.inl ⟨items, Json.index_eq_ok_iff.1 hitems, Progress.failure_walk_eq_none.1 h⟩
  · rename_i v hv hindex
    -- neither missing nor a list: its parts are walked, but the value stays
    right
    split at h
    · exact absurd h (by simp [Progress.stopped])
    · rename_i parts hparts
      have hall := Progress.failure_walk_eq_none.1 h
      refine ⟨v, parts, Json.index_eq_ok_iff.1 hindex, ?_, hparts, hall, ?_⟩
      · intro hkind
        cases v with
        | list items => exact hv items rfl
        | _ => simp [Json.kind] at hkind
      · rw [Progress.map, Progress.log_walk hall, Progress.failure_walk_eq_none.2 hall]

end Annotator

end ModuleStubs
