import Mathlib.Logic.Relation
import ModuleStubs.Proofs.Annotation.Candidates

/-!
# Skeletons stay skeletons

`Skeleton P` says of a node, and of all nodes below it, that it has the fields of a skeleton: a name
and a type, a doc that is a text, members that are a list, and a signature with the property `P`, if
it has one. Annotating keeps a skeleton one (`skeleton_annotate`), where the signatures that its
functions end with have the property. What is read on the way and replaced again does not matter.
-/

set_option autoImplicit false

namespace ModuleStubs

/-- A member of a node: an item of the list of its members. -/
def Json.IsMember (node x : Json) : Prop :=
  ∃ items, node.field? (lit "members") = some (.list items) ∧ x ∈ items

/-- A node of a skeleton with the nodes below it, whose signatures have a property. -/
inductive Skeleton (P : Json → Prop) : Json → Prop
  | node {fields : Record Json} {name type : Text} {members : List Json}
      (hname : Record.get? (lit "name") fields = some (.str name))
      (htype : Record.get? (lit "type") fields = some (.str type))
      (hdoc : ∀ doc, Record.get? (lit "doc") fields = some doc → ∃ t, doc = .str t)
      (hsignature : ∀ s, Record.get? (lit "signature") fields = some s → P s)
      (hmembers : (Record.get? (lit "members") fields).getD (.list []) = .list members)
      (hall : ∀ x ∈ members, Skeleton P x) : Skeleton P (.object fields)

namespace Skeleton

variable {P Q : Json → Prop} {node : Json}

/-- A skeleton by its fields. -/
theorem iff_fields : Skeleton P node ↔
    (∃ t, node.field? (lit "name") = some (.str t)) ∧
    (∃ t, node.field? (lit "type") = some (.str t)) ∧
    (∀ doc, node.field? (lit "doc") = some doc → ∃ t, doc = .str t) ∧
    (∀ s, node.field? (lit "signature") = some s → P s) ∧
    (∀ v, node.field? (lit "members") = some v →
      ∃ items, v = .list items ∧ ∀ x ∈ items, Skeleton P x) := by
  constructor
  · rintro (@⟨fields, name, type, members, hname, htype, hdoc, hsignature, hmembers, hall⟩)
    refine ⟨⟨name, hname⟩, ⟨type, htype⟩, hdoc, hsignature, ?_⟩
    intro v hv
    rw [Json.field?_object] at hv
    rw [hv] at hmembers
    exact ⟨members, hmembers, hall⟩
  · rintro ⟨⟨name, hname⟩, ⟨type, htype⟩, hdoc, hsignature, hmembers⟩
    obtain ⟨fields, rfl⟩ := Json.eq_object_of_field? hname
    -- a node without members counts as one with an empty list of them
    cases hv : Record.get? (lit "members") fields with
    | none =>
        have hnil : (Record.get? (lit "members") fields).getD (.list []) = .list [] := by rw [hv]; rfl
        exact .node hname htype hdoc hsignature hnil (by simp)
    | some v =>
        obtain ⟨items, rfl, hall⟩ := hmembers v hv
        exact .node hname htype hdoc hsignature (by simp [hv]) hall

/-- The members of a skeleton are skeletons. -/
theorem of_mem_members (h : Skeleton P node) {items : List Json}
    (hitems : node.field? (lit "members") = some (.list items)) : ∀ x ∈ items, Skeleton P x := by
  obtain ⟨-, -, -, -, hmembers⟩ := iff_fields.1 h
  obtain ⟨items', heq, hall⟩ := hmembers _ hitems
  obtain rfl := Json.list.inj heq
  exact hall

/-- The nodes below a skeleton are skeletons. -/
theorem of_below {x : Json} (h : Skeleton P node)
    (hx : Relation.ReflTransGen Json.IsMember node x) : Skeleton P x := by
  induction hx with
  | refl => exact h
  | tail _ hmember ih =>
      obtain ⟨items, hitems, hx⟩ := hmember
      exact ih.of_mem_members hitems _ hx

/-- The property of the signatures may be weakened. -/
theorem mono (hPQ : ∀ s, P s → Q s) (h : Skeleton P node) : Skeleton Q node := by
  induction h with
  | node hname htype hdoc hsignature hmembers _ ih =>
      exact .node hname htype hdoc (fun s hs => hPQ s (hsignature s hs)) hmembers ih

end Skeleton

namespace Annotator

variable {P : Json → Prop} {a : Annotator} {path : Text} {node : Json}

/-! ## Functions -/

/-- The doc of a function stays, or it loses a part of its text. -/
theorem doc_functionChanges
    (hdoc : ∀ doc, node.field? (lit "doc") = some doc → ∃ t, doc = .str t)
    (h : (Progress.run (a.functionChanges path) node).failure = none) {doc : Json}
    (hfield : (Progress.run (a.functionChanges path) node).value.field? (lit "doc") = some doc) :
    ∃ t, doc = .str t := by
  obtain ⟨node', hfirst, hothers, hvalue⟩ := functionChanges_completed h
  rw [hvalue, field?_overrideChanges (by decide) hothers] at hfield
  rcases annotateFromDoc_completed hfirst with ⟨rfl, -⟩ | ⟨doc', s, rest, -, -, rfl⟩
  · exact hdoc doc hfield
  · exact ⟨rest, Json.eq_of_field?_withField hfield⟩

/-- The signature that is stored for a function has a property. -/
def StoresAs (P : Json → Prop) (a : Annotator) (path : Text) (node : Json) : Prop :=
  ∀ s, a.lastParsed? path node = some s → P s.toJson

/-- A function of a skeleton stays a skeleton, where the signature stored for it has the property. -/
theorem skeleton_functionChanges (hnode : Skeleton P node)
    (h : (Progress.run (a.functionChanges path) node).failure = none)
    (hstored : StoresAs P a path node) :
    Skeleton P (Progress.run (a.functionChanges path) node).value := by
  obtain ⟨⟨name, hname⟩, ⟨type, htype⟩, hdoc, hsignature, hmembers⟩ := Skeleton.iff_fields.1 hnode
  refine Skeleton.iff_fields.2 ⟨⟨name, ?_⟩, ⟨type, ?_⟩, ?_, ?_, ?_⟩
  · rw [field?_functionChanges (by decide) (by decide) h, hname]
  · rw [field?_functionChanges (by decide) (by decide) h, htype]
  · exact fun doc hfield => doc_functionChanges hdoc h hfield
  · intro signature hfield
    rw [field?_signature_functionChanges hname (by decide) (by decide) h] at hfield
    cases hlast : a.lastParsed? path node with
    | none =>
        rw [hlast] at hfield
        exact hsignature signature hfield
    | some s =>
        rw [hlast] at hfield
        obtain rfl : s.toJson = signature := Option.some.inj hfield
        exact hstored s hlast
  · rw [field?_functionChanges (by decide) (by decide) h]
    exact hmembers

/-! ## Members -/

/-- A skeleton whose members were changed has a list of them. There is no other value in their place. -/
theorem annotateMembers_completed_list {change : Change} (hnode : Skeleton P node)
    (h : (annotateMembers change node).failure = none) :
    ∃ items, node.field? (lit "members") = some (.list items) ∧
      ∀ x ∈ items, (change x).failure = none := by
  rcases annotateMembers_completed h with hlist | ⟨v, parts, hv, hkind, -, -, -⟩
  · exact hlist
  · obtain ⟨-, -, -, -, hmembers⟩ := Skeleton.iff_fields.1 hnode
    obtain ⟨items, rfl, -⟩ := hmembers v hv
    exact absurd rfl hkind

/-- Members that stay skeletons leave their node one. -/
theorem skeleton_annotateMembers {change : Change} (hnode : Skeleton P node)
    (h : (annotateMembers change node).failure = none)
    (hall : ∀ items, node.field? (lit "members") = some (.list items) →
      ∀ x ∈ items, (change x).failure = none → Skeleton P (change x).value) :
    Skeleton P (annotateMembers change node).value := by
  obtain ⟨⟨name, hname⟩, ⟨type, htype⟩, hdoc, hsignature, -⟩ := Skeleton.iff_fields.1 hnode
  refine Skeleton.iff_fields.2 ⟨⟨name, ?_⟩, ⟨type, ?_⟩, ?_, ?_, ?_⟩
  · rw [field?_annotateMembers (by decide) h, hname]
  · rw [field?_annotateMembers (by decide) h, htype]
  · rw [field?_annotateMembers (by decide) h]
    exact hdoc
  · rw [field?_annotateMembers (by decide) h]
    exact hsignature
  · obtain ⟨items, hitems, hok⟩ := annotateMembers_completed_list hnode h
    intro w hw
    rw [annotateMembers_list hitems hok] at hw
    obtain rfl := Json.eq_of_field?_withField hw
    refine ⟨_, rfl, fun y hy => ?_⟩
    obtain ⟨x, hx, rfl⟩ := List.mem_map.1 hy
    exact hall items hitems x hx (hok x hx)

/-- A change that is made at once leaves what it gives. -/
theorem skeleton_step {f : Json → Trace Note Fault Json}
    (h : (Progress.step f node).failure = none)
    (hf : ∀ node', (f node).result = .ok node' → Skeleton P node') :
    Skeleton P (Progress.step f node).value := by
  obtain ⟨node', hnode'⟩ := Progress.failure_step_eq_none.1 h
  rw [Progress.step_of_ok hnode']
  exact hf node' hnode'

theorem ignoreMember_completed {verbosity : Int} {parent : Text} {type node' : Json}
    (h : (ignoreMember verbosity parent type node).result = .ok node') : node' = node := by
  rw [ignoreMember] at h
  split at h
  · exact (Except.ok.inj h).symm
  · obtain ⟨name, -, h⟩ := Trace.result_bind_eq_ok.1 h
    obtain ⟨_, -, h⟩ := Trace.result_bind_eq_ok.1 h
    exact (Except.ok.inj h).symm

theorem skeleton_ignoreMember {verbosity : Int} {parent : Text} {type : Json}
    (hnode : Skeleton P node)
    (h : (Progress.step (ignoreMember verbosity parent type) node).failure = none) :
    Skeleton P (Progress.step (ignoreMember verbosity parent type) node).value := by
  refine skeleton_step h fun node' hnode' => ?_
  rw [ignoreMember_completed hnode']
  exact hnode

/-- The type of a member of a type stays, or it loses the name of the module and a point. -/
theorem shortenType_completed {moduleName node' : Json}
    (h : (shortenType moduleName node).result = .ok node') :
    node' = node ∨ ∃ m short, moduleName = .str m ∧
      node.field? (lit "type") = some (.str (m ++ lit "." ++ short)) ∧
      node' = node.withField (lit "type") (.str short) := by
  obtain ⟨type, htype, hrest⟩ := Trace.result_bind_eq_ok.1 h
  obtain ⟨m, hm, hlast⟩ := Trace.result_bind_eq_ok.1 hrest
  split at hlast
  · rename_i short hshort
    obtain ⟨v, hindex, hv⟩ := except_bind_eq_ok.1 htype
    obtain rfl := Json.textFor_eq_ok hv
    obtain rfl := Text.afterPrefix?_eq_some.1 hshort
    exact Or.inr ⟨m, short, Json.leftText_eq_ok hm, Json.index_eq_ok_iff.1 hindex,
      (Except.ok.inj hlast).symm⟩
  · exact Or.inl (Except.ok.inj hlast).symm

theorem skeleton_shortenType {moduleName node' : Json} (hnode : Skeleton P node)
    (h : (shortenType moduleName node).result = .ok node') : Skeleton P node' := by
  rcases shortenType_completed h with rfl | ⟨-, short, -, -, rfl⟩
  · exact hnode
  · obtain ⟨⟨name, hname⟩, -, hdoc, hsignature, hmembers⟩ := Skeleton.iff_fields.1 hnode
    refine Skeleton.iff_fields.2 ⟨⟨name, ?_⟩, ⟨short, Json.field?_withField_self hname _ _⟩, ?_⟩
    · rw [Json.field?_withField_of_ne (by decide), hname]
    · simp only [Json.field?_withField_of_ne (show lit "type" ≠ lit "doc" by decide),
        Json.field?_withField_of_ne (show lit "type" ≠ lit "signature" by decide),
        Json.field?_withField_of_ne (show lit "type" ≠ lit "members" by decide)]
      exact ⟨hdoc, hsignature, hmembers⟩

theorem skeleton_annotateFunction {p : Text} (hnode : Skeleton P node)
    (h : (a.annotateFunction (.str p) node).failure = none)
    (hstored : ∀ f, node.field? (lit "name") = some (.str f) →
      StoresAs P a (p ++ lit "." ++ f) node) :
    Skeleton P (a.annotateFunction (.str p) node).value := by
  obtain ⟨⟨f, hf⟩, -⟩ := Skeleton.iff_fields.1 hnode
  rw [annotateFunction_eq hf] at h ⊢
  exact skeleton_functionChanges hnode h (hstored f hf)

theorem skeleton_annotateClassMember {p : Text} (hnode : Skeleton P node)
    (h : (a.annotateClassMember p node).failure = none)
    (hstored : ∀ f, node.field? (lit "type") = some (.str (lit "instancemethod")) →
      node.field? (lit "name") = some (.str f) → StoresAs P a (p ++ lit "." ++ f) node) :
    Skeleton P (a.annotateClassMember p node).value := by
  obtain ⟨-, ⟨type, htype⟩, -⟩ := Skeleton.iff_fields.1 hnode
  by_cases hmethod : type = lit "instancemethod"
  · subst hmethod
    rw [annotateClassMember_method htype] at h ⊢
    exact skeleton_annotateFunction hnode h fun f hf => hstored f htype hf
  · rw [annotateClassMember, Json.index_of_field? htype] at h ⊢
    simp only [Json.isStr, decide_eq_true_eq, if_neg hmethod] at h ⊢
    revert h
    split
    · exact fun _ => hnode
    · exact skeleton_ignoreMember hnode

theorem skeleton_annotateMember {m : Text} (hnode : Skeleton P node)
    (h : (a.annotateMember (.str m) node).failure = none)
    (hfunction : ∀ f, node.field? (lit "type") = some (.str (lit "function")) →
      node.field? (lit "name") = some (.str f) → StoresAs P a (m ++ lit "." ++ f) node)
    (hmethod : ∀ c methods method f, node.field? (lit "type") = some (.str (lit "class")) →
      node.field? (lit "name") = some (.str c) →
      node.field? (lit "members") = some (.list methods) → method ∈ methods →
      method.field? (lit "type") = some (.str (lit "instancemethod")) →
      method.field? (lit "name") = some (.str f) →
      StoresAs P a (m ++ lit "." ++ c ++ lit "." ++ f) method) :
    Skeleton P (a.annotateMember (.str m) node).value := by
  obtain ⟨⟨c, hc⟩, ⟨type, htype⟩, -⟩ := Skeleton.iff_fields.1 hnode
  by_cases hclass : type = lit "class"
  · subst hclass
    rw [annotateMember_class htype hc] at h ⊢
    refine skeleton_annotateMembers hnode h fun items hitems x hx hok => ?_
    exact skeleton_annotateClassMember (hnode.of_mem_members hitems x hx) hok fun f hxtype hf =>
      hmethod c items x f htype hc hitems hx hxtype hf
  by_cases hfun : type = lit "function"
  · subst hfun
    rw [annotateMember_function htype] at h ⊢
    exact skeleton_annotateFunction hnode h fun f hf => hfunction f htype hf
  · rw [annotateMember, Json.index_of_field? htype] at h ⊢
    simp only [Json.isStr, decide_eq_true_eq, if_neg hclass, if_neg hfun] at h ⊢
    -- what is left are types, whose members lose the module's name, and members that stay
    revert h
    split
    · intro h
      refine skeleton_annotateMembers hnode h fun items hitems x hx hok => ?_
      exact skeleton_step hok fun x' hx' =>
        skeleton_shortenType (hnode.of_mem_members hitems x hx) hx'
    · split
      · exact fun _ => hnode
      · exact skeleton_ignoreMember hnode

/-- Annotating keeps a skeleton one, where the signatures that are stored for its functions have the
property of the signatures in it. -/
theorem skeleton_annotate {config data name : Json} {verbosity : Int}
    (hprep : prepare config verbosity data = .ok (name, a))
    (hok : (annotate config verbosity data).failure = none) (hdata : Skeleton P data)
    (hstored : ∀ address path node, FunctionAt data address path node → StoresAs P a path node) :
    Skeleton P (annotate config verbosity data).value := by
  obtain ⟨hmembers, hvalue⟩ := value_annotate hprep hok
  obtain ⟨-, hname, -⟩ := prepare_eq_ok hprep
  obtain ⟨⟨m, hm⟩, -⟩ := Skeleton.iff_fields.1 hdata
  obtain rfl : name = .str m := Option.some.inj (hname.symm.trans hm)
  rw [hvalue]
  refine skeleton_annotateMembers hdata hmembers fun items hitems x hx hxok => ?_
  obtain ⟨i, hi⟩ := List.mem_iff_getElem?.1 hx
  refine skeleton_annotateMember (hdata.of_mem_members hitems x hx) hxok ?_ ?_
  · intro f htype hf
    exact hstored _ _ x (.function hm hitems hi htype hf)
  · intro c methods method f hclass hc hmethods hmem htype hf
    obtain ⟨j, hj⟩ := List.mem_iff_getElem?.1 hmem
    exact hstored _ _ method (.method hm hitems hi hclass hc hmethods hj htype hf)

end Annotator

end ModuleStubs
