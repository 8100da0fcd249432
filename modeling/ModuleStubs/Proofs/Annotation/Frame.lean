import ModuleStubs.Proofs.Annotation.Skeleton
import ModuleStubs.Proofs.Records

/-!
# What an annotation leaves alone

An annotation writes into a module skeleton in place, and a fault may stop it anywhere. Whatever it has
done by then, the skeleton is still the old one, node by node and entry by entry, with two exceptions
(`annotate_frame`):

* a function of the module or a method of one of its classes may have got a signature, and a piece of
  its doc in place of the doc (`FunctionFrame`);
* a member of one of the types of the module may have lost the module's name in front of its own type
  (`losesModule`).

The frames are closed under the single writes, so what a run of changes leaves alone follows from what
each of them leaves alone, and no change has to be followed to its end.
-/

set_option autoImplicit false

namespace ModuleStubs

theorem exists_mem_of_forall₂ {α : Type} {R : α → α → Prop} {as bs : List α}
    (h : List.Forall₂ R as bs) {b : α} (hb : b ∈ bs) : ∃ a ∈ as, R a b := by
  induction h with
  | nil => contradiction
  | @cons a c as bs hac _ ih =>
      rcases List.mem_cons.1 hb with rfl | hb
      · exact ⟨a, List.mem_cons_self, hac⟩
      · obtain ⟨a', ha', hab⟩ := ih hb
        exact ⟨a', List.mem_cons_of_mem _ ha', hab⟩

/-! ## Changes that may have stopped -/

namespace Progress

variable {μ ε α : Type}

/-- A change that is made at once is made or not. -/
theorem value_step {P : α → Prop} {f : α → Trace μ ε α} {a : α} (ha : P a)
    (hf : ∀ b, (f a).result = .ok b → P b) : P (step f a).value := by
  rw [step]
  rcases h : f a with ⟨log, r⟩
  rw [h] at hf
  cases r with
  | error e => exact ha
  | ok b => exact hf b rfl

theorem value_andThen {P : α → Prop} {p : Progress μ ε α} {f : α → Progress μ ε α} (hp : P p.value)
    (hf : P (f p.value).value) : P (p.andThen f).value := by
  rw [andThen]
  cases p.failure with
  | some e => exact hp
  | none => exact hf

/-- What each change keeps is kept by all of them, as far as they get. -/
theorem value_run {P : α → Prop} {fs : List (α → Progress μ ε α)}
    (hstep : ∀ f ∈ fs, ∀ a, P a → P (f a).value) {a : α} (ha : P a) : P (run fs a).value := by
  induction fs generalizing a with
  | nil => exact ha
  | cons f fs ih =>
      have hfirst := hstep f List.mem_cons_self a ha
      rw [run_cons]
      apply value_andThen hfirst
      exact ih (fun g hg => hstep g (List.mem_cons_of_mem _ hg)) hfirst

/-- Each element was changed or, behind a failure, left as it was. -/
theorem forall₂_walk {R : α → α → Prop} (hrefl : ∀ a, R a a) {f : α → Progress μ ε α} {as : List α}
    (h : ∀ a ∈ as, R a (f a).value) : List.Forall₂ R as (walk f as).value := by
  induction as with
  | nil => exact .nil
  | cons a as ih =>
      have ha := h a List.mem_cons_self
      rw [walk]
      cases (f a).failure with
      | some e => exact .cons ha (List.forall₂_same.2 fun b _ => hrefl b)
      | none => exact .cons ha (ih fun b hb => h b (List.mem_cons_of_mem _ hb))

end Progress

/-! ## Frames -/

/-- The stored form of a signature that was read. -/
def Signature.IsRead (v : Json) : Prop :=
  ∃ verbosity ctx path source s,
    (Signature.readJson verbosity ctx path source).result = .ok (some s) ∧ v = s.toJson

/-- The values are the same, or objects with the same entries in the same places but for what may be
written. -/
inductive Json.SameBut (R : Text → Json → Json → Prop) : Json → Json → Prop
  | same (v : Json) : SameBut R v v
  | fields {r r' : Record Json} (h : Record.SameBut R r r') : SameBut R (.object r) (.object r')

/-- Only the members are written: each item of the list stays in its place. -/
def inMembers (R : Json → Json → Prop) (key : Text) (v v' : Json) : Prop :=
  key = lit "members" ∧ ∃ items items', v = .list items ∧ v' = .list items' ∧
    List.Forall₂ R items items'

/-- Only the type is written: it loses the name of the module and the point behind it, once. -/
def losesModule (data : Json) (key : Text) (v v' : Json) : Prop :=
  key = lit "type" ∧ ∃ m short, data.field? (lit "name") = some (.str m) ∧
    v = .str (m ++ lit "." ++ short) ∧ v' = .str short

/-- What is written into a function: a signature, and a piece of its doc in place of the doc. -/
def inFunction (key : Text) (v v' : Json) : Prop :=
  (key = lit "signature" ∧ Signature.IsRead v') ∨
    (key = lit "doc" ∧ ∃ piece, v' = .str piece ∧ ∀ t, v = .str t → piece <:+: t)

/-- A function and what may become of it. The signature is a new entry at the end where there was none. -/
inductive FunctionFrame : Json → Json → Prop
  | same (node : Json) : FunctionFrame node node
  | written {r r' : Record Json} (h : Record.SameBut inFunction r r') :
      FunctionFrame (.object r) (.object r')
  | signed {r r' : Record Json} {s : Json} (h : Record.SameBut inFunction r r')
      (hnew : lit "signature" ∉ Record.keys r) (hs : Signature.IsRead s) :
      FunctionFrame (.object r) (.object (r' ++ [(lit "signature", s)]))

/-- A member of a class and what may become of it. -/
inductive ClassMemberFrame : Json → Json → Prop
  | same (node : Json) : ClassMemberFrame node node
  | method {node node' : Json}
      (htype : node.field? (lit "type") = some (.str (lit "instancemethod")))
      (h : FunctionFrame node node') : ClassMemberFrame node node'

/-- A member of a module and what may become of it. -/
inductive MemberFrame (data : Json) : Json → Json → Prop
  | same (node : Json) : MemberFrame data node node
  | function {node node' : Json} (htype : node.field? (lit "type") = some (.str (lit "function")))
      (h : FunctionFrame node node') : MemberFrame data node node'
  | classNode {node node' : Json} (htype : node.field? (lit "type") = some (.str (lit "class")))
      (h : Json.SameBut (inMembers ClassMemberFrame) node node') : MemberFrame data node node'
  | typeNode {node node' : Json} (htype : node.field? (lit "type") = some (.str (lit "type")))
      (h : Json.SameBut (inMembers (Json.SameBut (losesModule data))) node node') :
      MemberFrame data node node'

/-! ## Functions -/

/-- A frame is not left by writing a signature. -/
theorem FunctionFrame.withSignature {node node' s : Json} (h : FunctionFrame node node')
    (hs : Signature.IsRead s) : FunctionFrame node (node'.withField (lit "signature") s) := by
  have hwrite : ∀ v, inFunction (lit "signature") v s := fun v => Or.inl ⟨rfl, hs⟩
  have hobject : ∀ {r r' : Record Json}, Record.SameBut inFunction r r' →
      FunctionFrame (.object r) ((Json.object r').withField (lit "signature") s) := by
    intro r r' hsame
    by_cases hkey : lit "signature" ∈ Record.keys r
    · exact .written (hsame.set hkey hwrite)
    · rw [Json.withField_object, Record.set_of_not_mem (hsame.keys_eq ▸ hkey)]
      exact .signed hsame hkey hs
  cases h with
  | same =>
      cases node with
      | object r => exact hobject (Record.SameBut.refl _ r)
      | _ => exact .same _
  | written hsame => exact hobject hsame
  | @signed r r' old hsame hnew _ =>
      -- the entry at the end is written again
      have hset : Record.set (lit "signature") s (r' ++ [(lit "signature", old)]) =
          r' ++ [(lit "signature", s)] :=
        Record.set_append_of_not_mem (hsame.keys_eq ▸ hnew) s _
      rw [Json.withField_object, hset]
      exact .signed hsame hnew hs

namespace Annotator

variable {a : Annotator} {path : Text} {node : Json}

theorem docRest_isInfix (t : Text) : docRest t <:+: t := by
  rw [docRest]
  split
  · rename_i before after hcut
    obtain ⟨rfl, -⟩ := Text.cutFirst_append hcut
    have hafter : after <:+ before ++ CodePoint.ofChar '-' :: after :=
      ⟨before ++ [CodePoint.ofChar '-'], by simp⟩
    exact (Text.strip_isInfix after).trans hafter.isInfix
  · exact List.nil_infix

theorem isRead_of_readSignature {source : Json} {s : Signature}
    (h : (a.readSignature path source).result = .ok (some s)) : Signature.IsRead s.toJson :=
  ⟨a.verbosity, a.context, path, source, s, h, rfl⟩

theorem isRead_of_readDoc {doc : Json} {s : Signature} {rest : Text}
    (h : (a.readDoc path doc).result = .ok (some (s, rest))) : Signature.IsRead s.toJson := by
  obtain ⟨hyphen, -, h⟩ := Trace.result_bind_eq_ok.1 h
  -- with or without a hyphen, the signature is what was read from some part of the doc
  split at h
  · obtain ⟨⟨before, after⟩, -, h⟩ := Trace.result_bind_eq_ok.1 h
    obtain ⟨found, hfound, h⟩ := Trace.result_bind_eq_ok.1 h
    obtain ⟨s', rfl, heq⟩ := Option.map_eq_some_iff.1 (Except.ok.inj h)
    obtain ⟨rfl, -⟩ := Prod.mk.inj heq
    exact isRead_of_readSignature hfound
  · obtain ⟨found, hfound, h⟩ := Trace.result_bind_eq_ok.1 h
    obtain ⟨s', rfl, heq⟩ := Option.map_eq_some_iff.1 (Except.ok.inj h)
    obtain ⟨rfl, -⟩ := Prod.mk.inj heq
    exact isRead_of_readSignature hfound

/-- What is left of a doc that is a text is a piece of it. -/
theorem isInfix_of_readDoc {t rest : Text} {s : Signature}
    (h : (a.readDoc path (.str t)).result = .ok (some (s, rest))) : rest <:+: t := by
  rw [readDoc_str] at h
  obtain ⟨found, -, h⟩ := Trace.result_bind_eq_ok.1 h
  obtain ⟨s', rfl, heq⟩ := Option.map_eq_some_iff.1 (Except.ok.inj h)
  obtain ⟨-, rfl⟩ := Prod.mk.inj heq
  exact docRest_isInfix t

theorem functionFrame_annotateFromDoc {node' : Json}
    (h : (a.annotateFromDoc path node).result = .ok node') : FunctionFrame node node' := by
  rcases annotateFromDoc_completed h with ⟨rfl, -⟩ | ⟨doc, s, rest, hdoc, hread, rfl⟩
  · exact .same _
  · obtain ⟨r, rfl⟩ := Json.eq_object_of_field? hdoc
    have hpiece : inFunction (lit "doc") doc (.str rest) :=
      Or.inr ⟨rfl, rest, rfl, fun t ht => isInfix_of_readDoc (ht ▸ hread)⟩
    have hframe : FunctionFrame (.object r) (.object (Record.set (lit "doc") (.str rest) r)) :=
      .written (Record.sameBut_set hdoc hpiece)
    -- the doc has its place already, so it might as well have been written first
    have hcomm : (withSignature s (.object r)).withField (lit "doc") (.str rest) =
        (Json.object (Record.set (lit "doc") (.str rest) r)).withField (lit "signature") s.toJson :=
      congrArg Json.object (Record.set_comm (by decide) s.toJson hdoc).symm
    rw [hcomm]
    exact hframe.withSignature (isRead_of_readDoc hread)

theorem functionFrame_annotateFromOverride {o : SignatureOverride} {index : Nat}
    {node' node'' : Json} (hframe : FunctionFrame node node')
    (h : (a.annotateFromOverride path o index node').result = .ok node'') :
    FunctionFrame node node'' := by
  rcases annotateFromOverride_completed h with rfl | ⟨candidate, s, -, hread, rfl⟩
  · exact hframe
  · exact hframe.withSignature ⟨a.verbosity, a.context, path, candidate, s, hread, rfl⟩

/-- The changes of a function keep to its frame, as far as they get. -/
theorem functionFrame_functionChanges (a : Annotator) (path : Text) (node : Json) :
    FunctionFrame node (Progress.run (a.functionChanges path) node).value := by
  have hfirst : FunctionFrame node (Progress.step (a.annotateFromDoc path) node).value :=
    Progress.value_step (.same node) fun _ => functionFrame_annotateFromDoc
  rw [functionChanges, Progress.run_cons]
  apply Progress.value_andThen hfirst
  refine Progress.value_run ?_ hfirst
  intro change hchange n hn
  obtain ⟨i, hi, rfl⟩ := List.mem_mapIdx.1 hchange
  exact Progress.value_step hn fun _ => functionFrame_annotateFromOverride hn

theorem functionFrame_annotateFunction (a : Annotator) (parent node : Json) :
    FunctionFrame node (a.annotateFunction parent node).value := by
  rw [annotateFunction]
  split
  · exact .same node
  · exact functionFrame_functionChanges a _ node

/-! ## Members -/

/-- Writing the members of a node leaves its other entries alone. -/
theorem sameBut_annotateMembers {R : Json → Json → Prop} (hrefl : ∀ x, R x x) {change : Change}
    (h : ∀ x, R x (change x).value) :
    Json.SameBut (inMembers R) node (annotateMembers change node).value := by
  rw [annotateMembers]
  split
  · exact .same node
  · rename_i items hitems
    have hfield := Json.index_eq_ok_iff.1 hitems
    obtain ⟨r, rfl⟩ := Json.eq_object_of_field? hfield
    have hwalk := Progress.forall₂_walk hrefl fun x (_ : x ∈ items) => h x
    exact .fields (Record.sameBut_set hfield ⟨rfl, items, _, rfl, rfl, hwalk⟩)
  -- the parts of any other value are looked at, and the value stays
  · split
    · exact .same node
    · exact .same node

theorem classMemberFrame_annotateClassMember (a : Annotator) (path : Text) (node : Json) :
    ClassMemberFrame node (a.annotateClassMember path node).value := by
  rw [annotateClassMember]
  split
  · exact .same node
  · rename_i type htype
    split
    · rename_i hmethod
      obtain rfl := Json.eq_str_of_isStr hmethod
      exact .method (Json.index_eq_ok_iff.1 htype) (functionFrame_annotateFunction a _ node)
    · split
      · exact .same node
      · refine Progress.value_step (.same node) ?_
        intro node' h
        rw [ignoreMember_completed h]
        exact .same node

section Module

variable {data moduleName : Json} (hname : data.field? (lit "name") = some moduleName)
include hname

theorem sameBut_shortenType (node : Json) :
    Json.SameBut (losesModule data) node (Progress.step (shortenType moduleName) node).value := by
  refine Progress.value_step (.same node) ?_
  intro node' h
  rcases shortenType_completed h with rfl | ⟨m, short, rfl, htype, rfl⟩
  · exact .same _
  · obtain ⟨r, rfl⟩ := Json.eq_object_of_field? htype
    exact .fields (Record.sameBut_set htype ⟨rfl, m, short, hname, rfl, rfl⟩)

/-- A member of a module keeps to its frame, whatever its type is. -/
theorem memberFrame_annotateMember (a : Annotator) (node : Json) :
    MemberFrame data node (a.annotateMember moduleName node).value := by
  rw [annotateMember]
  split
  · exact .same node
  · rename_i type htype
    have hfield := Json.index_eq_ok_iff.1 htype
    split
    · rename_i hclass
      obtain rfl := Json.eq_str_of_isStr hclass
      apply MemberFrame.classNode hfield
      rw [annotateClass]
      split
      · exact .same node
      · exact sameBut_annotateMembers .same (classMemberFrame_annotateClassMember a _)
    · split
      · rename_i hplain
        obtain rfl := Json.eq_str_of_isStr hplain
        apply MemberFrame.typeNode hfield
        exact sameBut_annotateMembers .same (sameBut_shortenType hname)
      · split
        · rename_i hfunction
          obtain rfl := Json.eq_str_of_isStr hfunction
          exact .function hfield (functionFrame_annotateFunction a moduleName node)
        · split
          · exact .same node
          · refine Progress.value_step (.same node) ?_
            intro node' h
            rw [ignoreMember_completed h]
            exact .same node

end Module

/-! ## Modules -/

/-- However far an annotation gets, it ends with the data as given or with its members annotated. -/
theorem value_annotate_of {P : Json → Prop} {config data : Json} {verbosity : Int} (hdata : P data)
    (hmembers : ∀ name a, prepare config verbosity data = .ok (name, a) →
      P (annotateMembers (a.annotateMember name) data).value) :
    P (annotate config verbosity data).value := by
  rw [annotate]
  split
  · exact hdata
  · rename_i name a hprep
    refine Progress.value_run ?_ hdata
    intro change hchange d hd
    simp only [List.mem_cons, List.not_mem_nil, or_false] at hchange
    -- the message in front and the report behind write nothing
    rcases hchange with rfl | rfl | rfl
    · refine Progress.value_step hd ?_
      intro d' h
      rw [listTypes_eq] at h
      obtain rfl := Except.ok.inj h
      exact hd
    · exact hmembers name a hprep
    · refine Progress.value_step hd ?_
      intro d' h
      obtain ⟨_, -, h⟩ := Trace.result_bind_eq_ok.1 h
      obtain rfl := Except.ok.inj h
      exact hd

theorem sameBut_annotateMember {config data name : Json} {verbosity : Int} {a : Annotator}
    (hprep : prepare config verbosity data = .ok (name, a)) :
    Json.SameBut (inMembers (MemberFrame data)) data
      (annotateMembers (a.annotateMember name) data).value := by
  obtain ⟨-, hname, -⟩ := prepare_eq_ok hprep
  exact sameBut_annotateMembers .same (memberFrame_annotateMember hname a)

/-- **What an annotation leaves alone.** However far it gets, all that it has written into a module
skeleton are signatures and pieces of docs, in the functions of the module and the methods of its
classes, and types without the module's name, in the members of its types. -/
theorem annotate_frame (config : Json) (verbosity : Int) (data : Json) :
    Json.SameBut (inMembers (MemberFrame data)) data (annotate config verbosity data).value := by
  apply value_annotate_of (P := Json.SameBut (inMembers (MemberFrame data)) data)
  · exact .same data
  · exact fun name a hprep => sameBut_annotateMember hprep

end Annotator

end ModuleStubs
