import ModuleStubs.Proofs.Annotation.Completed

/-!
# Functions of a skeleton and their annotations

The functions that get a signature are the functions of the module and the methods of its classes;
`FunctionAt` says where such a function stands and what its path is. Delivered here:

* what a single change of a function node can do: nothing, or a signature from the doc
  (`annotateFromDoc_completed`), or a signature from an override (`annotateFromOverride_completed`);
* the fields that no change writes (`field?_functionChanges`) and the overrides that make no change
  (`annotateFromOverride_of_not_isFor`);
* `FunctionAt.annotated`: after an annotation that completes, each function stands where it stood,
  changed by its own changes only.
-/

set_option autoImplicit false

namespace ModuleStubs

/-- The rule is for a path. -/
def PathRule.isFor (path : Text) : PathRule → Bool
  | .exact p => decide (path = p)
  | .pattern p => (p.fullMatch? path).isSome
  | .invalid _ => false

/-- A function node of a module skeleton: the indices of the members that lead to it, its path and
the node. It is a function among the members of the module or a method among those of a class. -/
inductive FunctionAt (data : Json) : List Nat → Text → Json → Prop
  | function {m f : Text} {items : List Json} {i : Nat} {node : Json}
      (hmodule : data.field? (lit "name") = some (.str m))
      (hitems : data.field? (lit "members") = some (.list items)) (hi : items[i]? = some node)
      (htype : node.field? (lit "type") = some (.str (lit "function")))
      (hname : node.field? (lit "name") = some (.str f)) :
      FunctionAt data [i] (m ++ lit "." ++ f) node
  | method {m c f : Text} {items methods : List Json} {i j : Nat} {cls node : Json}
      (hmodule : data.field? (lit "name") = some (.str m))
      (hitems : data.field? (lit "members") = some (.list items)) (hi : items[i]? = some cls)
      (hclass : cls.field? (lit "type") = some (.str (lit "class")))
      (hcname : cls.field? (lit "name") = some (.str c))
      (hmethods : cls.field? (lit "members") = some (.list methods)) (hj : methods[j]? = some node)
      (htype : node.field? (lit "type") = some (.str (lit "instancemethod")))
      (hname : node.field? (lit "name") = some (.str f)) :
      FunctionAt data [i, j] (m ++ lit "." ++ c ++ lit "." ++ f) node

namespace Annotator

variable {a : Annotator} {path : Text} {node node' : Json}

/-! ## Docs -/

/-- The part of a doc that may be a signature: what stands before its first hyphen, or all of it. -/
def docPart (t : Text) : Text :=
  match Text.cutFirst '-' t with
  | some (before, _) => Text.strip before
  | none => t

/-- What is left of a doc without the signature. -/
def docRest (t : Text) : Text :=
  match Text.cutFirst '-' t with
  | some (_, after) => Text.strip after
  | none => []

/-- A doc is read by reading its first part as a signature. -/
theorem readDoc_str (a : Annotator) (path t : Text) :
    a.readDoc path (.str t) = (do
      let signature ← a.readSignature path (.str (docPart t))
      return signature.map fun s => (s, docRest t)) := by
  have hmentions : (Json.str t).mentions (lit "-") = .ok (Text.cutFirst '-' t).isSome :=
    congrArg Except.ok (Text.occursIn_singleton '-' t)
  rw [readDoc, hmentions, docPart, docRest]
  cases hcut : Text.cutFirst '-' t with
  | none => rfl
  | some parts =>
      obtain ⟨before, after⟩ := parts
      simp only [cutDoc, hcut, Trace.liftM_ok, pure_bind]
      rfl

/-! ## Changes of a function node -/

/-- A change from the doc that completes: no signature was found, or the doc lost it to a field of
its own. -/
theorem annotateFromDoc_completed (h : (a.annotateFromDoc path node).result = .ok node') :
    (node' = node ∧ ∀ doc, node.field? (lit "doc") = some doc →
      (a.readDoc path doc).result = .ok none) ∨
    ∃ doc s rest, node.field? (lit "doc") = some doc ∧
      (a.readDoc path doc).result = .ok (some (s, rest)) ∧
      node' = (withSignature s node).withField (lit "doc") (.str rest) := by
  rw [annotateFromDoc] at h
  cases hdoc : node.field? (lit "doc") with
  | none =>
      simp only [hdoc] at h
      exact Or.inl ⟨(Except.ok.inj h).symm, by simp⟩
  | some doc =>
      simp only [hdoc] at h
      obtain ⟨read, hread, h⟩ := Trace.result_bind_eq_ok.1 h
      cases read with
      | none => exact Or.inl ⟨(Except.ok.inj h).symm, by simpa using hread⟩
      | some found =>
          obtain ⟨s, rest⟩ := found
          exact Or.inr ⟨doc, s, rest, rfl, hread, (Except.ok.inj h).symm⟩

/-- A change from an override that completes: it gave no signature, or the one that is stored. -/
theorem annotateFromOverride_completed {o : SignatureOverride} {index : Nat}
    (h : (a.annotateFromOverride path o index node).result = .ok node') :
    node' = node ∨ ∃ candidate s, o.candidate? path = .ok (some candidate) ∧
      (Signature.readJson a.verbosity a.context path candidate).result = .ok (some s) ∧
      node' = withSignature s node := by
  obtain ⟨found, hfound, h⟩ := Trace.result_bind_eq_ok.1 h
  cases found with
  | none => exact Or.inl (Except.ok.inj h).symm
  | some candidate =>
      -- the two notes before the reading are only logged
      obtain ⟨-, -, h⟩ := Trace.result_bind_eq_ok.1 h
      obtain ⟨-, -, h⟩ := Trace.result_bind_eq_ok.1 h
      obtain ⟨read, hread, h⟩ := Trace.result_bind_eq_ok.1 h
      cases read with
      | none => exact Or.inl (Except.ok.inj h).symm
      | some s => exact Or.inr ⟨candidate, s, hfound, hread, (Except.ok.inj h).symm⟩

/-- An override for other paths changes nothing. -/
theorem annotateFromOverride_of_not_isFor {o : SignatureOverride} (ho : o.rule.isFor path = false)
    {index : Nat} (h : (a.annotateFromOverride path o index node).result = .ok node') :
    node' = node := by
  rcases annotateFromOverride_completed h with heq | ⟨candidate, s, hcandidate, -, -⟩
  · exact heq
  · -- a candidate is given only to the paths that the rule is for
    rw [SignatureOverride.candidate?] at hcandidate
    cases hrule : o.rule with
    | exact p =>
        have hne : path ≠ p := by simpa [hrule, PathRule.isFor] using ho
        simp [hrule, hne] at hcandidate
    | pattern p =>
        have hnone : p.fullMatch? path = none := by simpa [hrule, PathRule.isFor] using ho
        simp [hrule, hnone] at hcandidate
    | invalid v => simp [hrule] at hcandidate

/-- The changes from the overrides. -/
def overrideChanges (a : Annotator) (path : Text) : List Change :=
  a.overrides.mapIdx fun i o => Progress.step (a.annotateFromOverride path o i)

/-- The changes of a function node: first the one from the doc, then those from the overrides. -/
theorem functionChanges_completed
    (h : (Progress.run (a.functionChanges path) node).failure = none) :
    ∃ node', (a.annotateFromDoc path node).result = .ok node' ∧
      (Progress.run (a.overrideChanges path) node').failure = none ∧
      (Progress.run (a.functionChanges path) node).value =
        (Progress.run (a.overrideChanges path) node').value := by
  rw [functionChanges, Progress.run_cons] at h ⊢
  obtain ⟨hfirst, hothers⟩ := Progress.failure_andThen_eq_none.1 h
  obtain ⟨node', hnode'⟩ := Progress.failure_step_eq_none.1 hfirst
  rw [Progress.andThen_of_completed hfirst]
  rw [Progress.step_of_ok hnode'] at hothers ⊢
  exact ⟨node', hnode', hothers, rfl⟩

/-- What the change from each override preserves is preserved by all of them together. -/
theorem overrideChanges_invariant {P : Json → Prop}
    (hstep : ∀ o ∈ a.overrides, ∀ i n n', P n →
      (a.annotateFromOverride path o i n).result = .ok n' → P n')
    (hnode : P node) (h : (Progress.run (a.overrideChanges path) node).failure = none) :
    P (Progress.run (a.overrideChanges path) node).value := by
  refine Progress.run_invariant ?_ hnode h
  intro change hchange n hn hok
  obtain ⟨i, hi, rfl⟩ := List.mem_mapIdx.1 hchange
  obtain ⟨n', hn'⟩ := Progress.failure_step_eq_none.1 hok
  rw [Progress.step_of_ok hn']
  exact hstep _ (List.getElem_mem hi) i n n' hn hn'

/-- The overrides write nothing but the signature of a function node. -/
theorem field?_overrideChanges {key : Text} (hsig : lit "signature" ≠ key)
    (h : (Progress.run (a.overrideChanges path) node).failure = none) :
    (Progress.run (a.overrideChanges path) node).value.field? key = node.field? key := by
  refine overrideChanges_invariant (P := fun n => n.field? key = node.field? key) ?_ rfl h
  intro o _ i n n' hn hn'
  rcases annotateFromOverride_completed hn' with rfl | ⟨candidate, s, -, -, rfl⟩
  · exact hn
  · rw [withSignature, Json.field?_withField_of_ne hsig, hn]

/-- Only the signature and the doc of a function node are written. -/
theorem field?_functionChanges {key : Text} (hsig : lit "signature" ≠ key) (hdoc : lit "doc" ≠ key)
    (h : (Progress.run (a.functionChanges path) node).failure = none) :
    (Progress.run (a.functionChanges path) node).value.field? key = node.field? key := by
  obtain ⟨node', hfirst, hothers, hvalue⟩ := functionChanges_completed h
  rw [hvalue, field?_overrideChanges hsig hothers]
  rcases annotateFromDoc_completed hfirst with ⟨rfl, -⟩ | ⟨doc, s, rest, -, -, rfl⟩
  · rfl
  · rw [Json.field?_withField_of_ne hdoc, withSignature, Json.field?_withField_of_ne hsig]

/-! ## Where functions are annotated -/

theorem childPath_eq {p f : Text} (hname : node.field? (lit "name") = some (.str f)) :
    childPath (.str p) node = .ok (p ++ lit "." ++ f) := by
  simp [childPath, Json.leftText, Json.index_of_field? hname, Json.rightText, bind, Except.bind,
    pure, Except.pure]

/-- A path inside a parent is put together from the path of the parent and the name of the node. -/
theorem childPath_eq_ok {parent : Json} (h : childPath parent node = .ok path) :
    ∃ p f, parent = .str p ∧ node.field? (lit "name") = some (.str f) ∧ path = p ++ lit "." ++ f := by
  obtain ⟨p, hp, h⟩ := except_bind_eq_ok.1 h
  obtain ⟨name, hname, h⟩ := except_bind_eq_ok.1 h
  obtain ⟨f, hf, h⟩ := except_bind_eq_ok.1 h
  obtain rfl := Json.rightText_eq_ok hf
  exact ⟨p, f, Json.leftText_eq_ok hp, Json.index_eq_ok_iff.1 hname, (Except.ok.inj h).symm⟩

theorem annotateFunction_eq {p f : Text} (hname : node.field? (lit "name") = some (.str f)) :
    a.annotateFunction (.str p) node =
      Progress.run (a.functionChanges (p ++ lit "." ++ f)) node := by
  rw [annotateFunction, childPath_eq hname]

theorem annotateMember_function {name : Json}
    (htype : node.field? (lit "type") = some (.str (lit "function"))) :
    a.annotateMember name node = a.annotateFunction name node := by
  simp [annotateMember, Json.index_of_field? htype, Json.isStr]

theorem annotateMember_class {m c : Text}
    (htype : node.field? (lit "type") = some (.str (lit "class")))
    (hname : node.field? (lit "name") = some (.str c)) :
    a.annotateMember (.str m) node =
      annotateMembers (a.annotateClassMember (m ++ lit "." ++ c)) node := by
  simp [annotateMember, Json.index_of_field? htype, Json.isStr, annotateClass, childPath_eq hname]

theorem annotateClassMember_method {p : Text}
    (htype : node.field? (lit "type") = some (.str (lit "instancemethod"))) :
    a.annotateClassMember p node = a.annotateFunction (.str p) node := by
  simp [annotateClassMember, Json.index_of_field? htype, Json.isStr]

/-- Members that were annotated, read one by one: the member at an index was annotated, and the
result has it at that index. -/
theorem annotateMembers_getElem? {change : Change} {items : List Json} {x : Json} {i : Nat}
    (hitems : node.field? (lit "members") = some (.list items)) (hi : items[i]? = some x)
    (h : (annotateMembers change node).failure = none) :
    (change x).failure = none ∧ ∃ items',
      (annotateMembers change node).value.field? (lit "members") = some (.list items') ∧
      items'[i]? = some (change x).value := by
  have hall := (failure_annotateMembers_list hitems).1 h
  refine ⟨hall x (List.mem_of_getElem? hi), items.map fun x => (change x).value, ?_, ?_⟩
  · rw [annotateMembers_list hitems hall]
    exact Json.field?_withField_self hitems _ _
  · rw [List.getElem?_map, hi]
    rfl

/-- No other field of a node is written when its members are. -/
theorem field?_annotateMembers {change : Change} {key : Text} (hkey : lit "members" ≠ key)
    (h : (annotateMembers change node).failure = none) :
    (annotateMembers change node).value.field? key = node.field? key := by
  rcases annotateMembers_completed h with ⟨items, hitems, hall⟩ | ⟨v, parts, -, -, -, -, heq⟩
  · rw [annotateMembers_list hitems hall]
    exact Json.field?_withField_of_ne hkey _ _
  · rw [heq]

/-- The value of an annotation that completes is that of its members. -/
theorem value_annotate {config data name : Json} {verbosity : Int}
    (hprep : prepare config verbosity data = .ok (name, a))
    (hok : (annotate config verbosity data).failure = none) :
    (a.annotatedMembers data name).failure = none ∧
      (annotate config verbosity data).value = (a.annotatedMembers data name).value := by
  obtain ⟨name', a', hprep', hmembers, hreport⟩ := annotate_completed hok
  obtain ⟨rfl, rfl⟩ := Prod.mk.inj (Except.ok.inj (hprep'.symm.trans hprep))
  exact ⟨hmembers, by rw [annotate_eq hprep hmembers hreport]⟩

end Annotator

open Annotator

/-- After an annotation that completes, a function stands where it stood, and its own changes are
all that was changed in it. -/
theorem FunctionAt.annotated {config data name node : Json} {verbosity : Int} {a : Annotator}
    {address : List Nat} {path : Text} (hprep : prepare config verbosity data = .ok (name, a))
    (hok : (annotate config verbosity data).failure = none)
    (hat : FunctionAt data address path node) :
    (Progress.run (a.functionChanges path) node).failure = none ∧
      FunctionAt (annotate config verbosity data).value address path
        (Progress.run (a.functionChanges path) node).value := by
  obtain ⟨hmembers, hvalue⟩ := value_annotate hprep hok
  obtain ⟨-, hname, -⟩ := prepare_eq_ok hprep
  rw [hvalue]
  cases hat with
  | @function m f items i _ hmodule hitems hi htype hf =>
      obtain rfl : name = .str m := Option.some.inj (hname.symm.trans hmodule)
      have hchange : a.annotateMember (.str m) node =
          Progress.run (a.functionChanges (m ++ lit "." ++ f)) node := by
        rw [annotateMember_function htype, annotateFunction_eq hf]
      obtain ⟨hnode, items', hitems', hi'⟩ := annotateMembers_getElem? hitems hi hmembers
      rw [hchange] at hnode hi'
      refine ⟨hnode, .function ?_ hitems' hi' ?_ ?_⟩
      · rw [annotatedMembers, field?_annotateMembers (by decide) hmembers, hmodule]
      · rw [field?_functionChanges (by decide) (by decide) hnode, htype]
      · rw [field?_functionChanges (by decide) (by decide) hnode, hf]
  | @method m c f items methods i j cls _ hmodule hitems hi hclass hcname hmethods hj htype hf =>
      obtain rfl : name = .str m := Option.some.inj (hname.symm.trans hmodule)
      have hcls : a.annotateMember (.str m) cls = _ :=
        annotateMember_class hclass hcname
      have hchange : a.annotateClassMember (m ++ lit "." ++ c) node =
          Progress.run (a.functionChanges (m ++ lit "." ++ c ++ lit "." ++ f)) node := by
        rw [annotateClassMember_method htype, annotateFunction_eq hf]
      -- two levels down: the class among the members of the module, the method among its own
      obtain ⟨hclassOk, items', hitems', hi'⟩ := annotateMembers_getElem? hitems hi hmembers
      rw [hcls] at hclassOk hi'
      obtain ⟨hnode, methods', hmethods', hj'⟩ := annotateMembers_getElem? hmethods hj hclassOk
      rw [hchange] at hnode hj'
      refine ⟨hnode, .method ?_ hitems' hi' ?_ ?_ hmethods' hj' ?_ ?_⟩
      · rw [annotatedMembers, field?_annotateMembers (by decide) hmembers, hmodule]
      · rw [field?_annotateMembers (by decide) hclassOk, hclass]
      · rw [field?_annotateMembers (by decide) hclassOk, hcname]
      · rw [field?_functionChanges (by decide) (by decide) hnode, htype]
      · rw [field?_functionChanges (by decide) (by decide) hnode, hf]

end ModuleStubs
