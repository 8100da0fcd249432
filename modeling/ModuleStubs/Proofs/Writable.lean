import ModuleStubs.Proofs.Annotation.Skeleton
import ModuleStubs.Proofs.TypeComment

/-!
# What is annotated can be written

The annotator and the writer share nothing but the skeleton. A skeleton with stored signatures is
written to its end unless the writer comes to a module inside the module, which it refuses, or to a
function whose signature has an argument with something else than a text as its type
(`result_writeModule_iff`). The annotator stores such a type for half typed words alone, so that what
the writer does is known from the sources of the signatures that are stored
(`writeModule_annotate_iff`). Both exceptions occur (`annotated_not_written`).
-/

set_option autoImplicit false

namespace ModuleStubs

/-! ## Stored signatures -/

/-- A signature as the annotator stores it. -/
def IsStored (signature : Json) : Prop := ∃ s : Signature, signature = s.toJson

/-- The type that a stored signature returns is a text, if it is there. -/
def ReturnsText (signature : Json) : Prop :=
  ∀ r, signature.field? (lit "return-type") = some r → ∃ t, r = .str t

/-- The arguments of a stored signature have a text as their type, or no type. -/
def TakesTexts (signature : Json) : Prop :=
  ∃ args, signature.field? (lit "args") = some (.list args) ∧
    ∀ arg ∈ args, arg.field? (lit "type") = none ∨ ∃ t, arg.field? (lit "type") = some (.str t)

theorem returnsText_toJson (s : Signature) : ReturnsText s.toJson := by
  obtain ⟨returned, alternative, arguments⟩ := s
  intro r hr
  cases returned with
  | none => cases alternative <;> simp [Signature.toJson, Record.get?] at hr
  | some t =>
      obtain rfl : .str t = r := by
        cases alternative <;> simpa [Signature.toJson, Record.get?] using hr
      exact ⟨t, rfl⟩

/-- A stored argument has a text as its type, or no type, exactly if it has a type to show. -/
theorem type_toJson_iff (arg : Argument) :
    (arg.toJson.field? (lit "type") = none ∨
        ∃ t, arg.toJson.field? (lit "type") = some (.str t)) ↔
      arg.shown?.isSome = true := by
  obtain ⟨name, type⟩ := arg
  cases type with
  | none => simp [Argument.toJson, Argument.shown?, Record.get?]
  | some types =>
      obtain ⟨main, alternative⟩ := types
      cases main <;> simp [Argument.toJson, Argument.shown?, Record.get?, Json.ofText?]

theorem takesTexts_toJson_iff (s : Signature) :
    TakesTexts s.toJson ↔ ∀ arg ∈ s.arguments, arg.shown?.isSome = true := by
  have hargs : s.toJson.field? (lit "args") = some (.list (s.arguments.map Argument.toJson)) := by
    obtain ⟨returned, alternative, arguments⟩ := s
    cases returned <;> cases alternative <;> simp [Signature.toJson, Record.get?]
  have hlist : TakesTexts s.toJson ↔ ∀ v ∈ s.arguments.map Argument.toJson,
      v.field? (lit "type") = none ∨ ∃ t, v.field? (lit "type") = some (.str t) := by
    constructor
    · rintro ⟨args, hfield, htyped⟩
      obtain rfl := Json.list.inj (Option.some.inj (hfield.symm.trans hargs))
      exact htyped
    · exact fun htyped => ⟨_, hargs, htyped⟩
  rw [hlist, List.forall_mem_map]
  exact forall₂_congr fun arg _ => type_toJson_iff arg

namespace Stub

/-! ## Functions -/

/-- The parameters of a function with a stored signature can be read exactly if its arguments have
texts as their types; those of a function without one always can. -/
theorem exists_readHead_iff {fields : Record Json} (isMethod : Bool)
    (h : ∀ s, Record.get? (lit "signature") fields = some s → IsStored s) :
    (∃ head, readHead isMethod fields = .ok head) ↔
      ∀ s, Record.get? (lit "signature") fields = some s → TakesTexts s := by
  cases hsig : Record.get? (lit "signature") fields with
  | none =>
      refine iff_of_true ?_ (by simp)
      rw [readHead, hsig]
      cases isMethod <;> exact ⟨_, rfl⟩
  | some signature =>
      obtain ⟨s, rfl⟩ := h signature hsig
      simp only [Option.some.injEq, forall_eq', takesTexts_toJson_iff]
      constructor
      · rintro ⟨head, hhead⟩
        rw [readHead, hsig] at hhead
        obtain ⟨parts, hread, -⟩ := except_bind_eq_ok.1 hhead
        exact forall_shown_of_readSignature hread
      · intro hshown
        have htypes : s.arguments.map Argument.shown? =
            (s.arguments.map fun arg => arg.shown?.getD []).map some := by
          rw [List.map_map]
          refine List.map_congr_left fun arg harg => ?_
          obtain ⟨t, ht⟩ := Option.isSome_iff_exists.1 (hshown arg harg)
          simp [ht]
        obtain ⟨parameters, hhead⟩ := readHead_toJson htypes hsig isMethod
        exact ⟨_, hhead⟩

/-- A function is written exactly if its parameters can be read. -/
theorem result_writeFunction_iff {fields : Record Json} {isMethod : Bool} (indent : Text)
    (name : Json) : (writeFunction indent isMethod name fields).result = .ok () ↔
      ∃ head, readHead isMethod fields = .ok head := by
  rw [writeFunction]
  cases h : readHead isMethod fields with
  | error e => simp
  | ok head =>
      obtain ⟨parameters, comment⟩ := head
      refine iff_of_true ?_ ⟨_, rfl⟩
      cases comment <;> cases Record.get? (lit "doc") fields <;> simp [write]

theorem result_writeOther (indent path : Text) (name type : Json) (fields : Record Json) :
    (writeOther indent path name type fields).result = .ok () := by
  rw [writeOther]
  cases Record.get? (lit "value") fields with
  | some value => rfl
  | none =>
      simp only
      split
      · rfl
      · split <;> rfl

theorem result_writeContainer {fields : Record Json} {members : List Json}
    (h : memberNodes fields = .ok members) (indent : Text) (type name : Json) :
    (writeContainer indent type name fields).result = .ok () := by
  rw [writeContainer, h]
  cases hdoc : Record.get? (lit "doc") fields with
  | none =>
      simp only [writeDoc, hdoc, write, Trace.say_eq, Trace.pure_eq, Trace.liftM_eq, Trace.bind_ok]
      split <;> rfl
  | some doc =>
      simp only [writeDoc, hdoc, write, Trace.say_eq, Trace.pure_eq, Trace.liftM_eq, Trace.bind_ok]
      split <;> rfl

/-! ## Nodes -/

theorem memberNodes_of_getD {fields : Record Json} {members : List Json}
    (h : (Record.get? (lit "members") fields).getD (.list []) = .list members) :
    memberNodes fields = .ok members := by
  rw [memberNodes]
  cases hv : Record.get? (lit "members") fields with
  | none =>
      rw [hv] at h
      obtain rfl := Json.list.inj h
      rfl
  | some v =>
      rw [hv] at h
      obtain rfl : v = .list members := h
      rfl

/-- Whether the writer takes a node: no module, and no function whose signature has an argument with
something else than a text as its type. -/
def Takes (node : Json) : Prop :=
  node.field? (lit "type") ≠ some (.str (lit "module")) ∧
    (node.field? (lit "type") = some (.str (lit "function")) ∨
        node.field? (lit "type") = some (.str (lit "instancemethod")) →
      ∀ s, node.field? (lit "signature") = some s → TakesTexts s)

/-- A node of a skeleton with stored signatures is written exactly if the writer takes it. -/
theorem result_writeSelf_iff {node : Json} (h : Skeleton IsStored node) (indent path : Text) :
    (writeSelf indent path node).result = .ok () ↔ Takes node := by
  cases h with
  | @node fields name type members hname htype _ hsignature hmembers _ =>
      have hindex : (Json.object fields).index (lit "type") = .ok (.str type) :=
        Json.index_of_field? (v := .object fields) htype
      rw [writeSelf, hindex, Takes, Json.field?_object, Json.field?_object, htype]
      simp only [Trace.liftM_ok, pure_bind, hname, Json.isStr, decide_eq_true_eq, ne_eq,
        Option.some.injEq, Json.str.injEq]
      by_cases hmodule : type = lit "module"
      · simp [hmodule]
      -- past the guard against modules, only functions are not always written
      · rw [if_neg hmodule]
        simp only [hmodule, not_false_eq_true, true_and]
        split
        · rename_i hcontainer
          refine iff_of_true (result_writeContainer (memberNodes_of_getD hmembers) _ _ _) ?_
          rintro (rfl | rfl) <;> simp at hcontainer
        · split
          · rename_i hfunction
            rw [result_writeFunction_iff, exists_readHead_iff false hsignature]
            simp [hfunction]
          · rename_i hfunction
            split
            · rename_i hmethod
              rw [result_writeFunction_iff, exists_readHead_iff true hsignature]
              simp [hmethod]
            · rename_i hmethod
              refine iff_of_true (result_writeOther _ _ _ _ _) ?_
              simp [hfunction, hmethod]

/-- The nodes that the writer comes to are those of the skeleton. -/
theorem skeleton_of_mem_visits {P : Json → Prop} {node : Json} (h : Skeleton P node) :
    ∀ (address : List Nat) (indent path : Text), ∀ v ∈ visits address indent path node,
      Skeleton P v.node := by
  induction h with
  | @node fields name type members hname htype hdoc hsignature hmembers hall ih =>
      intro address indent path v hv
      rw [visits_object, memberNodes_of_getD hmembers] at hv
      rcases List.mem_cons.1 hv with rfl | hv
      · exact .node hname htype hdoc hsignature hmembers hall
      · split at hv
        · obtain ⟨x, hx, i, hv⟩ := exists_mem_of_mem_listVisits hv
          exact ih x hx _ _ _ v hv
        · simp at hv

/-! ## Modules -/

theorem result_writeHead {data : Json} (h : Skeleton IsStored data)
    (hmodule : data.field? (lit "type") = some (.str (lit "module"))) :
    (writeHead data).result = .ok () := by
  cases h with
  | @node fields name type members hname htype hdoc hsignature hmembers hall =>
      have helements : ((Json.object fields).fieldOr (lit "members") (.list []) >>=
          Json.elements) = .ok members := by
        simp [Json.fieldOr, hmembers, bind, Except.bind, Json.elements]
      rw [writeHead, Json.index_of_field? hmodule,
        Json.index_of_field? (v := .object fields) hname, helements]
      simp [Json.isStr, Json.fieldOr, write]

theorem topNodes_skeleton {P : Json → Prop} {data : Json} (h : Skeleton P data) :
    ∀ x ∈ topNodes data, Skeleton P x := by
  cases h with
  | @node fields name type members hname htype hdoc hsignature hmembers hall =>
      rw [topNodes_object hmembers]
      exact hall

/-- A module skeleton with stored signatures is written to its end exactly if the writer takes each of
the nodes that it comes to. -/
theorem result_writeModule_iff {data : Json} (h : Skeleton IsStored data)
    (hmodule : data.field? (lit "type") = some (.str (lit "module"))) :
    (writeModule data).result = .ok () ↔ ∀ v ∈ moduleVisits data, Takes v.node := by
  have hvisit : ∀ v ∈ moduleVisits data, (v.write.result = .ok () ↔ Takes v.node) := by
    intro v hv
    obtain ⟨x, hx, i, hv⟩ := exists_mem_of_mem_listVisits hv
    have hnode := skeleton_of_mem_visits (topNodes_skeleton h x hx) _ _ _ v hv
    rw [← result_writeSelf_iff hnode v.indent v.path, result_write]
    rfl
  rw [writeModule_eq_each, Trace.result_bind_of_ok (result_writeHead h hmodule),
    Trace.result_each_eq_ok]
  exact forall₂_congr hvisit

end Stub

/-! ## Annotated skeletons -/

/-- A function of a skeleton is a skeleton. -/
theorem FunctionAt.skeleton {P : Json → Prop} {data node : Json} {address : List Nat} {path : Text}
    (hat : FunctionAt data address path node) (h : Skeleton P data) : Skeleton P node := by
  cases hat with
  | function _ hitems hi _ _ => exact h.of_mem_members hitems _ (List.mem_of_getElem? hi)
  | method _ hitems hi _ _ hmethods hj _ _ =>
      have hclass := h.of_mem_members hitems _ (List.mem_of_getElem? hi)
      exact hclass.of_mem_members hmethods _ (List.mem_of_getElem? hj)

/-- A function of a skeleton is a function or a method by its type. -/
theorem FunctionAt.type {data node : Json} {address : List Nat} {path : Text}
    (hat : FunctionAt data address path node) :
    node.field? (lit "type") = some (.str (lit "function")) ∨
      node.field? (lit "type") = some (.str (lit "instancemethod")) := by
  cases hat with
  | function _ _ _ htype _ => exact Or.inl htype
  | method _ _ _ _ _ _ _ htype _ => exact Or.inr htype

namespace Annotator

open Signature

/-- No argument of the signature that is stored for a function, the last one that can be read, is a
half typed word in its source. -/
def StoresTyped (a : Annotator) (path : Text) (node : Json) : Prop :=
  ∀ v, a.lastSource? path node = some v →
    ∀ text ∈ argumentTexts v, isHalfTyped a.context text = false

/-- The arguments of the signature that is stored for a function have texts as their types, if any,
exactly if none of them is a half typed word. -/
theorem storesAs_takesTexts_iff (a : Annotator) (path : Text) (node : Json) :
    StoresAs TakesTexts a path node ↔ a.StoresTyped path node := by
  have hsource : ∀ v s, a.parsed? path v = some s →
      (TakesTexts s.toJson ↔ ∀ text ∈ argumentTexts v, isHalfTyped a.context text = false) := by
    intro v s hs
    rw [takesTexts_toJson_iff]
    exact forall_shown_iff_of_readJson (result_of_parsed? hs)
  constructor
  · intro hstored v hv text htext
    obtain ⟨s, hs⟩ := exists_parsed_of_lastSource? hv
    have hlast : a.lastParsed? path node = some s := by rw [lastParsed?_eq_bind, hv]; exact hs
    exact (hsource v s hs).1 (hstored s hlast) text htext
  · intro htyped s hlast
    rw [lastParsed?_eq_bind] at hlast
    obtain ⟨v, hv, hs⟩ := Option.bind_eq_some_iff.1 hlast
    exact (hsource v s hs).2 (htyped v hv)

end Annotator

open Annotator Stub Signature

section

variable {config data name : Json} {verbosity : Int} {a : Annotator}

/-- The signatures of an annotated skeleton that had none have texts as the types of their arguments
exactly if none of those that are stored has a half typed word. -/
theorem skeleton_takesTexts_annotate_iff
    (hdata : Skeleton (fun _ => False) data) (hprep : prepare config verbosity data = .ok (name, a))
    (hok : (annotate config verbosity data).failure = none) :
    Skeleton TakesTexts (annotate config verbosity data).value ↔
      ∀ address path node, FunctionAt data address path node → a.StoresTyped path node := by
  constructor
  · intro hvalue address path node hat
    refine (storesAs_takesTexts_iff a path node).1 fun s hs => ?_
    obtain ⟨hnode, hat'⟩ := hat.annotated hprep hok
    obtain ⟨-, -, -, hsignature, -⟩ := Skeleton.iff_fields.1 (hat'.skeleton hvalue)
    obtain ⟨⟨f, hf⟩, -⟩ := Skeleton.iff_fields.1 (hat.skeleton hdata)
    refine hsignature _ ?_
    rw [field?_signature_functionChanges hf (by decide) (by decide) hnode, hs]
    rfl
  · intro htyped
    exact skeleton_annotate hprep hok (hdata.mono fun _ => False.elim) fun address path node hat =>
      (storesAs_takesTexts_iff a path node).2 (htyped address path node hat)

/-- **What is annotated can be written.** A skeleton without signatures that was annotated has texts
as the types that its signatures return. The arguments have texts as their types too, if any, exactly
if no function was given a signature with a half typed word: what is read first and replaced by a later
signature, or not read as a signature at all, may have such words. The stub file is written to its end
exactly if this is so and the writer comes to no module inside the module. -/
theorem writeModule_annotate_iff
    (hdata : Skeleton (fun _ => False) data) (hprep : prepare config verbosity data = .ok (name, a))
    (hok : (annotate config verbosity data).failure = none) :
    Skeleton ReturnsText (annotate config verbosity data).value ∧
    (Skeleton TakesTexts (annotate config verbosity data).value ↔
      ∀ address path node, FunctionAt data address path node → a.StoresTyped path node) ∧
    ((writeModule (annotate config verbosity data).value).result = .ok () ↔
      Skeleton TakesTexts (annotate config verbosity data).value ∧
      ∀ v ∈ moduleVisits (annotate config verbosity data).value,
        v.node.field? (lit "type") ≠ some (.str (lit "module"))) := by
  -- there are no signatures at first, so those that are there have any property
  have hstored : ∀ {P : Json → Prop}, (∀ s : Signature, P s.toJson) →
      Skeleton P (annotate config verbosity data).value := fun hP =>
    skeleton_annotate hprep hok (hdata.mono fun _ => False.elim) fun _ _ _ _ s _ => hP s
  have hmodule : (annotate config verbosity data).value.field? (lit "type") =
      some (.str (lit "module")) := by
    obtain ⟨hmembers, hvalue⟩ := value_annotate hprep hok
    rw [hvalue, annotatedMembers, field?_annotateMembers (by decide) hmembers]
    exact (prepare_eq_ok hprep).1
  refine ⟨hstored returnsText_toJson, skeleton_takesTexts_annotate_iff hdata hprep hok, ?_⟩
  rw [result_writeModule_iff (hstored fun s => ⟨s, rfl⟩) hmodule]
  constructor
  · intro htaken
    refine ⟨(skeleton_takesTexts_annotate_iff hdata hprep hok).2 ?_, fun v hv => (htaken v hv).1⟩
    intro address path node hat
    refine (storesAs_takesTexts_iff a path node).1 fun s hs => ?_
    -- every function with a signature is one of the nodes that the writer comes to
    obtain ⟨hnode, hat'⟩ := hat.annotated hprep hok
    obtain ⟨before, v, after, hvisits, -, hv⟩ := exists_visit hat'
    have htakes := (htaken v (hvisits ▸ List.mem_append_right _ List.mem_cons_self)).2
    rw [hv] at htakes
    obtain ⟨⟨f, hf⟩, -⟩ := Skeleton.iff_fields.1 (hat.skeleton hdata)
    refine htakes hat'.type _ ?_
    rw [field?_signature_functionChanges hf (by decide) (by decide) hnode, hs]
    rfl
  · rintro ⟨htexts, hmodules⟩ v hv
    refine ⟨hmodules v hv, fun _ s hs => ?_⟩
    obtain ⟨x, hx, i, hvisit⟩ := exists_mem_of_mem_listVisits hv
    have hnode := skeleton_of_mem_visits (topNodes_skeleton htexts x hx) _ _ _ v hvisit
    obtain ⟨-, -, -, hsignature, -⟩ := Skeleton.iff_fields.1 hnode
    exact hsignature s hs

end

/-- A module with an enumeration and two functions: one takes a value of the enumeration, and the doc
of the other one has a half typed word. -/
def attackModule : Json :=
  .object [(lit "name", .str (lit "Ext")), (lit "type", .str (lit "module")), (lit "members", .list
    [.object [(lit "name", .str (lit "UnitTypes")), (lit "type", .str (lit "type")),
      (lit "members", .list [.object [(lit "name", .str (lit "UNIT_ANY")),
        (lit "type", .str (lit "Ext.UnitTypes")), (lit "value", .int 3)]])],
     .object [(lit "name", .str (lit "attack")), (lit "type", .str (lit "function")),
      (lit "doc", .str (lit "bool attack(int (UnitTypes), CyUnit* pUnit, x) - fights"))],
     .object [(lit "name", .str (lit "retreat")), (lit "type", .str (lit "function")),
      (lit "doc", .str (lit "void retreat(<x>(int))"))]])]

/-- An override in the place of the doc with the half typed word. -/
def retreatConfig : Json :=
  .object [(lit "sig-overrides", .list [.object [(lit "path", .str (lit "Ext.retreat")),
    (lit "signature", .str (lit "void retreat(int x)"))]])]

theorem writeModule_annotate_attack :
    (writeModule (annotate retreatConfig 0 attackModule).value).result = .ok () ∧
    Skeleton ReturnsText (annotate retreatConfig 0 attackModule).value ∧
    Skeleton TakesTexts (annotate retreatConfig 0 attackModule).value ∧
    ∀ v ∈ moduleVisits (annotate retreatConfig 0 attackModule).value,
      v.node.field? (lit "type") ≠ some (.str (lit "module")) := by
  have hdata : Skeleton (fun _ => False) attackModule := by
    refine .node rfl rfl nofun nofun rfl (List.forall_mem_cons.2 ⟨?_,
      List.forall_mem_cons.2 ⟨?_, List.forall_mem_cons.2 ⟨?_, nofun⟩⟩⟩)
    · exact .node rfl rfl nofun nofun rfl
        (List.forall_mem_cons.2 ⟨.node rfl rfl nofun nofun rfl nofun, nofun⟩)
    · exact .node rfl rfl (fun _ h => ⟨_, (Option.some.inj h).symm⟩) nofun rfl nofun
    · exact .node rfl rfl (fun _ h => ⟨_, (Option.some.inj h).symm⟩) nofun rfl nofun
  let a : Annotator := ⟨{ custom := [lit "UnitTypes"] },
    [⟨.exact (lit "Ext.retreat"), .str (lit "void retreat(int x)")⟩], 0⟩
  have hprep : prepare retreatConfig 0 attackModule = .ok (.str (lit "Ext"), a) := rfl
  have hok : (annotate retreatConfig 0 attackModule).failure = none := by decide +kernel
  have hwritten : (writeModule (annotate retreatConfig 0 attackModule).value).result = .ok () := by
    decide +kernel
  obtain ⟨hreturns, -, hiff⟩ := writeModule_annotate_iff hdata hprep hok
  exact ⟨hwritten, hreturns, hiff.1 hwritten⟩

/-- A module inside a module. -/
def nestedModule : Json :=
  .object [(lit "name", .str (lit "Ext")), (lit "type", .str (lit "module")), (lit "members", .list
    [.object [(lit "name", .str (lit "Inner")), (lit "type", .str (lit "module"))]])]

/-- A function whose argument is a half typed word. -/
def halfTypedModule : Json :=
  .object [(lit "name", .str (lit "Ext")), (lit "type", .str (lit "module")), (lit "members", .list
    [.object [(lit "name", .str (lit "f")), (lit "type", .str (lit "function")),
      (lit "doc", .str (lit "void f(<x>(int))"))]])]

/-- Both exceptions occur: there are skeletons that are annotated without a fault, but not written
to their end. -/
theorem annotated_not_written :
    (Skeleton (fun _ => False) nestedModule ∧ (annotate .null 0 nestedModule).failure = none ∧
      (writeModule (annotate .null 0 nestedModule).value).result ≠ .ok ()) ∧
    (Skeleton (fun _ => False) halfTypedModule ∧
      (annotate .null 0 halfTypedModule).failure = none ∧
      (writeModule (annotate .null 0 halfTypedModule).value).result ≠ .ok ()) := by
  refine ⟨⟨?_, by decide +kernel, by decide +kernel⟩, ⟨?_, by decide +kernel, by decide +kernel⟩⟩
  · exact .node rfl rfl nofun nofun rfl
      (List.forall_mem_cons.2 ⟨.node rfl rfl nofun nofun rfl nofun, nofun⟩)
  · refine .node rfl rfl nofun nofun rfl (List.forall_mem_cons.2 ⟨?_, nofun⟩)
    exact .node rfl rfl (fun _ h => ⟨_, (Option.some.inj h).symm⟩) nofun rfl nofun

end ModuleStubs
