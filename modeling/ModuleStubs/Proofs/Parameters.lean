import ModuleStubs.Proofs.Annotation.Frame
import ModuleStubs.Proofs.Signature.Names
import ModuleStubs.Proofs.Stub.Comment

/-!
# The parameters of functions in stub files

A stub file has a header for each function and method that it comes to, and two for each property. The
parameters in a header should have distinct names. They have, with one exception: where a function got
its signature from a text, the bare words of that text are taken for names as they are
(`distinct_parameters`). So a word that occurs twice is a parameter twice, a word such as `arg1` may
meet the numbered name of an argument with types, and the word `self` the first parameter of a method.
All three occur (`repeated_parameters`).

The signatures of an annotated skeleton are known from what an annotation leaves alone: where there were
none, all of them were read (`signedByReading_annotate`).
-/

set_option autoImplicit false

namespace ModuleStubs

/-! ## Signatures that were read -/

namespace Json

/-- Neither the node nor a node below it has a signature. -/
def Unsigned (node : Json) : Prop :=
  ∀ x, Relation.ReflTransGen IsMember node x → x.field? (lit "signature") = none

/-- The signatures of the node and of the nodes below it were read. -/
def SignedByReading (node : Json) : Prop :=
  ∀ x, Relation.ReflTransGen IsMember node x →
    ∀ s, x.field? (lit "signature") = some s → Signature.IsRead s

variable {node node' : Json}

theorem Unsigned.of_isMember {x : Json} (h : node.Unsigned) (hx : node.IsMember x) : x.Unsigned :=
  fun y hy => h y (hy.head hx)

theorem Unsigned.signedByReading (h : node.Unsigned) : node.SignedByReading := by
  intro x hx s hs
  rw [h x hx] at hs
  contradiction

theorem signedByReading_of_members
    (hsignature : ∀ s, node.field? (lit "signature") = some s → Signature.IsRead s)
    (hmembers : ∀ x, node.IsMember x → x.SignedByReading) : node.SignedByReading := by
  intro x hx
  rcases hx.cases_head with rfl | ⟨y, hy, hx⟩
  · exact hsignature
  · exact hmembers y hy x hx

/-- A field of the second value stands in the place of one of the first. -/
theorem SameBut.field? {R : Text → Json → Json → Prop} (h : SameBut R node node') {key : Text}
    {w' : Json} (hget : node'.field? key = some w') :
    ∃ w, node.field? key = some w ∧ (w' = w ∨ R key w w') := by
  cases h with
  | same => exact ⟨w', hget, Or.inl rfl⟩
  | fields hr => exact hr.get? hget

/-- A field under a key that nothing is written under. -/
theorem SameBut.field?_same {R : Text → Json → Json → Prop} (h : SameBut R node node') {key : Text}
    (hkey : ∀ w w', ¬ R key w w') {w' : Json} (hget : node'.field? key = some w') :
    node.field? key = some w' := by
  obtain ⟨w, hw, rfl | hwritten⟩ := h.field? hget
  · exact hw
  · exact absurd hwritten (hkey w w')

end Json

/-- Where only the members are written, each of them stands for one that was there. -/
theorem isMember_of_inMembers {R : Json → Json → Prop} {node node' x' : Json}
    (h : Json.SameBut (inMembers R) node node') (hx' : node'.IsMember x') :
    ∃ x, node.IsMember x ∧ (x' = x ∨ R x x') := by
  obtain ⟨items', hitems', hmem⟩ := hx'
  obtain ⟨v, hv, rfl | ⟨-, items, _, rfl, heq, hall⟩⟩ := h.field? hitems'
  · exact ⟨x', ⟨items', hv, hmem⟩, Or.inl rfl⟩
  · obtain rfl := Json.list.inj heq
    obtain ⟨x, hx, hR⟩ := exists_mem_of_forall₂ hall hmem
    exact ⟨x, ⟨items, hv, hx⟩, Or.inr hR⟩

/-- Members that had no signatures, and were written in a way that signs by reading. -/
theorem signedByReading_of_inMembers {R : Json → Json → Prop} {node node' : Json}
    (h : Json.SameBut (inMembers R) node node')
    (hR : ∀ x x', R x x' → x.Unsigned → x'.SignedByReading)
    (hnode : ∀ x, node.IsMember x → x.Unsigned) : ∀ x', node'.IsMember x' → x'.SignedByReading := by
  intro x' hx'
  obtain ⟨x, hx, rfl | hwritten⟩ := isMember_of_inMembers h hx'
  · exact (hnode x' hx).signedByReading
  · exact hR x x' hwritten (hnode x hx)

/-! ## Frames -/

namespace FunctionFrame

variable {node node' : Json}

/-- The members of a function are none of an annotation's business. -/
theorem isMember (h : FunctionFrame node node') {x : Json} (hx : node'.IsMember x) :
    node.IsMember x := by
  have hsame : ∀ {r r' : Record Json} {v : Json}, Record.SameBut inFunction r r' →
      Record.get? (lit "members") r' = some v → Record.get? (lit "members") r = some v := by
    intro r r' v hr hv
    refine Json.SameBut.field?_same (.fields hr) ?_ hv
    rintro w w' (⟨hkey, -⟩ | ⟨hkey, -⟩)
    · exact absurd hkey (by decide)
    · exact absurd hkey (by decide)
  obtain ⟨items, hitems, hx⟩ := hx
  cases h with
  | same => exact ⟨items, hitems, hx⟩
  | written hr => exact ⟨items, hsame hr hitems, hx⟩
  | @signed r r' s hr hnew hs =>
      rw [Json.field?_object, Record.get?_append] at hitems
      have hold : Record.get? (lit "members") r' = some (.list items) := by
        simpa [Record.get?] using hitems
      exact ⟨items, hsame hr hold, hx⟩

/-- A signature where there was none was read. -/
theorem isRead (h : FunctionFrame node node') (hnode : node.field? (lit "signature") = none) {s : Json}
    (hs : node'.field? (lit "signature") = some s) : Signature.IsRead s := by
  have hnone : ∀ {r r' : Record Json}, Record.SameBut inFunction r r' →
      Record.get? (lit "signature") r = none → Record.get? (lit "signature") r' ≠ some s := by
    intro r r' hr hr' heq
    obtain ⟨v, hv, -⟩ := hr.get? heq
    rw [hr'] at hv
    contradiction
  cases h with
  | same =>
      rw [hnode] at hs
      contradiction
  | written hr => exact absurd hs (hnone hr hnode)
  | @signed r r' t hr hnew ht =>
      rw [Json.field?_object, Record.get?_append] at hs
      rcases Option.or_eq_some_iff.1 hs with hs | ⟨-, hs⟩
      · exact absurd hs (hnone hr hnode)
      · obtain rfl : t = s := by simpa [Record.get?] using hs
        exact ht

theorem signedByReading (h : FunctionFrame node node') (hnode : node.Unsigned) :
    node'.SignedByReading := by
  apply Json.signedByReading_of_members
  · exact fun s hs => h.isRead (hnode node .refl) hs
  · exact fun x hx => (hnode.of_isMember (h.isMember hx)).signedByReading

end FunctionFrame

theorem MemberFrame.signedByReading {data node node' : Json} (h : MemberFrame data node node')
    (hnode : node.Unsigned) : node'.SignedByReading := by
  -- a class and a type have no signatures of their own afterwards either
  have hunsigned : ∀ {R : Text → Json → Json → Prop} {x x' s : Json}, Json.SameBut R x x' → x.Unsigned →
      x'.field? (lit "signature") = some s → Signature.IsRead s := by
    intro R x x' s hx hunsigned hs
    obtain ⟨v, hv, -⟩ := hx.field? hs
    rw [hunsigned x .refl] at hv
    contradiction
  cases h with
  | same => exact hnode.signedByReading
  | function _ h => exact h.signedByReading hnode
  | classNode _ h =>
      apply Json.signedByReading_of_members
      · exact fun s hs => hunsigned h hnode hs
      · refine signedByReading_of_inMembers h ?_ fun x => hnode.of_isMember
        intro x x' hx hx'
        cases hx with
        | same => exact hx'.signedByReading
        | method _ hx => exact hx.signedByReading hx'
  | typeNode _ h =>
      apply Json.signedByReading_of_members
      · exact fun s hs => hunsigned h hnode hs
      · refine signedByReading_of_inMembers h ?_ fun x => hnode.of_isMember
        intro x x' hx hx'
        apply Json.signedByReading_of_members
        · exact fun s hs => hunsigned hx hx' hs
        · rintro y ⟨items, hitems, hy⟩
          -- of a member only the type is written, and not its members
          have hold : x.field? (lit "members") = some (.list items) :=
            hx.field?_same (fun w w' hw => absurd hw.1 (by decide)) hitems
          exact (hx'.of_isMember ⟨items, hold, hy⟩).signedByReading

namespace Annotator

/-- Where there were no signatures, those of an annotated skeleton were read. -/
theorem signedByReading_annotate {data : Json}
    (hdata : ∀ x, Relation.TransGen Json.IsMember data x → x.field? (lit "signature") = none)
    (config : Json) (verbosity : Int) :
    ∀ x, (annotate config verbosity data).value.IsMember x → x.SignedByReading := by
  have hmember : ∀ x, data.IsMember x → x.Unsigned := fun x hx y hy => hdata y (.head' hx hy)
  apply value_annotate_of (P := fun d => ∀ x, d.IsMember x → x.SignedByReading)
  · exact fun x hx => (hmember x hx).signedByReading
  · intro name a hprep
    refine signedByReading_of_inMembers (sameBut_annotateMember hprep) ?_ hmember
    exact fun x x' h => h.signedByReading

end Annotator

/-! ## Nodes of a module -/

namespace Stub

/-- The nodes that the writer comes to are below the first one. -/
theorem below_of_mem_visits {address : List Nat} {indent path : Text} {node : Json} {v : Visit}
    (hv : v ∈ visits address indent path node) : Relation.ReflTransGen Json.IsMember node v.node := by
  cases node with
  | object fields =>
      rw [visits_object] at hv
      rcases List.mem_cons.1 hv with rfl | hv
      · exact .refl
      · split at hv
        · cases hm : memberNodes fields with
          | error e => simp [hm, Except.toOption, listVisits] at hv
          | ok nodes =>
              rw [hm] at hv
              obtain ⟨x, hx, i, hv⟩ := exists_mem_of_mem_listVisits hv
              have := size_lt_of_mem_memberNodes hm hx
              have hmember : (Json.object fields).IsMember x :=
                ⟨nodes, memberNodes_eq_ok hm (List.ne_nil_of_mem hx), hx⟩
              exact (below_of_mem_visits hv).head hmember
        · simp at hv
  | _ =>
      obtain rfl := List.mem_singleton.1 hv
      exact .refl
termination_by node.size

/-- The parts of a module's members are members, or strings where there is no list of members. -/
theorem isMember_of_mem_topNodes {data x : Json} (hx : x ∈ topNodes data) :
    data.IsMember x ∨ ∃ t, x = .str t := by
  cases data with
  | object fields =>
      cases hv : Record.get? (lit "members") fields with
      | none =>
          have hnone : topNodes (.object fields) = [] := topNodes_object (by rw [hv]; rfl)
          rw [hnone] at hx
          contradiction
      | some v =>
          have hparts : topNodes (.object fields) = v.elements.toOption.getD [] := by
            simp [topNodes, Json.fieldOr, hv, bind, Except.bind]
          rw [hparts] at hx
          by_cases hlist : ∃ items, v = .list items
          · obtain ⟨items, rfl⟩ := hlist
            exact Or.inl ⟨items, hv, hx⟩
          · right
            cases hok : v.elements with
            | error e => simp [hok, Except.toOption] at hx
            | ok parts =>
                rw [hok] at hx
                exact Json.eq_str_of_mem_elements (fun items heq => hlist ⟨items, heq⟩) hok hx
  | _ => contradiction

/-- A node of a module that is an object is a member of it, or below one. -/
theorem below_of_mem_moduleVisits {data : Json} {v : Visit} (hv : v ∈ moduleVisits data)
    {fields : Record Json} (hnode : v.node = .object fields) :
    ∃ x, data.IsMember x ∧ Relation.ReflTransGen Json.IsMember x v.node := by
  obtain ⟨x, hx, i, hvisit⟩ := exists_mem_of_mem_listVisits hv
  rcases isMember_of_mem_topNodes hx with hmember | ⟨t, rfl⟩
  · exact ⟨x, hmember, below_of_mem_visits hvisit⟩
  · obtain rfl := List.mem_singleton.1 hvisit
    contradiction

/-! ## Parameters -/

/-- The names that are read from a stored signature are those of its arguments. -/
theorem readSignature_names {s : Signature} {names : List Json} {comment : Comment}
    (h : readSignature s.toJson = .ok (names, comment)) :
    names = (s.arguments.map Argument.name).map .str := by
  rw [readSignature, fieldOr_args_toJson] at h
  change ((s.arguments.map Argument.toJson).mapM (Json.index (lit "name")) >>= _) = _ at h
  rw [mapM_name_toJson] at h
  obtain ⟨found, hfound, h⟩ := except_bind_eq_ok.1 h
  obtain rfl := Except.ok.inj hfound
  obtain ⟨types, -, h⟩ := except_bind_eq_ok.1 h
  obtain ⟨returned, -, h⟩ := except_bind_eq_ok.1 h
  obtain ⟨texts, -, h⟩ := except_bind_eq_ok.1 h
  exact (Prod.mk.inj (Except.ok.inj h)).1.symm

section Head

variable {fields : Record Json} {isMethod : Bool} {parameters : List Text} {comment : Option Comment}
  (h : readHead isMethod fields = .ok (parameters, comment))
include h

theorem parameters_of_unsigned (hnone : Record.get? (lit "signature") fields = none) :
    parameters = (if isMethod then [lit "self"] else []) ++ [lit "*args", lit "**kwargs"] := by
  rw [readHead, hnone] at h
  cases isMethod with
  | false => exact (Prod.mk.inj (Except.ok.inj h)).1.symm
  | true => exact (Prod.mk.inj (Except.ok.inj h)).1.symm

theorem parameters_of_signature {s : Signature}
    (hsignature : Record.get? (lit "signature") fields = some s.toJson) :
    parameters = (if isMethod then [lit "self"] else []) ++ s.arguments.map Argument.name := by
  rw [readHead, hsignature] at h
  obtain ⟨⟨names, c⟩, hstored, h⟩ := except_bind_eq_ok.1 h
  obtain rfl := readSignature_names hstored
  obtain ⟨head, hhead, h⟩ := except_bind_eq_ok.1 h
  obtain rfl := Except.ok.inj hhead
  dsimp only at h
  rw [parameters_map_str, textsFrom_map_str] at h
  exact (Prod.mk.inj (Except.ok.inj h)).1.symm

end Head

/-! ## Headers -/

/-- The node of the visit is written with a header for these parameters: a function or a method with
those of its signature, if it has one, and a property with those to get it and to set it. -/
inductive Visit.Defines (v : Visit) : Bool → Option Json → List Text → Prop
  | function {fields : Record Json} {isMethod : Bool} {name : Json} {parameters : List Text}
      {comment : Option Comment} (hnode : v.node = .object fields)
      (htype : Record.get? (lit "type") fields =
        some (.str (if isMethod then lit "instancemethod" else lit "function")))
      (hname : Record.get? (lit "name") fields = some name)
      (hhead : readHead isMethod fields = .ok (parameters, comment)) :
      Defines v isMethod (Record.get? (lit "signature") fields) parameters
  | getter {fields : Record Json} {name : Json} (hnode : v.node = .object fields)
      (htype : Record.get? (lit "type") fields = some (.str (lit "property")))
      (hname : Record.get? (lit "name") fields = some name)
      (hvalue : Record.get? (lit "value") fields = none) : Defines v true none [lit "self"]
  | setter {fields : Record Json} {name : Json} (hnode : v.node = .object fields)
      (htype : Record.get? (lit "type") fields = some (.str (lit "property")))
      (hname : Record.get? (lit "name") fields = some name)
      (hvalue : Record.get? (lit "value") fields = none) :
      Defines v true none [lit "self", lit "value"]

/-- The lines of a property have the headers of two functions in them. -/
theorem propertyLines_eq (indent : Text) (name : Json) :
    ∃ decorator getter setter, propertyLines indent name = decorator ++
      (functionHeader indent name [lit "self"] ++ (getter ++
        (functionHeader indent name [lit "self", lit "value"] ++ setter))) := by
  have hself : lit "( self ) :\n" =
      lit "( " ++ (Text.join (lit ", ") [lit "self"] ++ lit " ) :\n") := rfl
  have hvalue : lit "( self, value ) :\n" =
      lit "( " ++ (Text.join (lit ", ") [lit "self", lit "value"] ++ lit " ) :\n") := rfl
  refine ⟨indent ++ lit "@property\n",
    indent ++ lit "\t# type: () -> Any\n" ++ indent ++ lit "\tpass\n" ++
      indent ++ lit "@" ++ name.display ++ lit ".setter\n",
    indent ++ lit "\t# type: (Any) -> None\n" ++ indent ++ lit "\tpass\n", ?_⟩
  delta propertyLines functionHeader
  rw [hself, hvalue]
  simp only [List.append_assoc]

theorem fileText_property {v : Visit} {fields : Record Json} {name : Json}
    (hnode : v.node = .object fields)
    (htype : Record.get? (lit "type") fields = some (.str (lit "property")))
    (hname : Record.get? (lit "name") fields = some name)
    (hvalue : Record.get? (lit "value") fields = none) :
    fileText v.writeSelf.log = propertyLines v.indent name := by
  rw [Visit.writeSelf, hnode, writeSelf_of_fields htype hname]
  change fileText (writeOther v.indent v.path name _ fields).log = _
  rw [writeOther, hvalue]
  exact List.append_nil _

section Defines

variable {v : Visit} {isMethod : Bool} {signature : Option Json} {parameters : List Text}
  (h : v.Defines isMethod signature parameters)
include h

/-- The header is in the text. -/
theorem header_of_defines :
    ∃ name before after, fileText v.writeSelf.log =
      before ++ (functionHeader v.indent name parameters ++ after) := by
  cases h with
  | @function fields _ name _ comment hnode htype hname hhead =>
      have hself : v.writeSelf = writeFunction v.indent isMethod name fields := by
        rw [Visit.writeSelf, hnode]
        exact writeSelf_of_function htype hname v.indent v.path
      rcases writeFunction_cases v.indent isMethod name fields with ⟨e, herror, -⟩ |
        ⟨parameters', comment', rest, hok, hrun⟩
      · rw [hhead] at herror
        contradiction
      · rw [hhead] at hok
        obtain ⟨rfl, -⟩ := Prod.mk.inj (Except.ok.inj hok)
        refine ⟨name, [], fileText rest, ?_⟩
        rw [hself, hrun, fileText_write]
        rfl
  | @getter fields name hnode htype hname hvalue =>
      obtain ⟨decorator, getter, setter, heq⟩ := propertyLines_eq v.indent name
      exact ⟨name, decorator, _, (fileText_property hnode htype hname hvalue).trans heq⟩
  | @setter fields name hnode htype hname hvalue =>
      obtain ⟨decorator, getter, setter, heq⟩ := propertyLines_eq v.indent name
      refine ⟨name, decorator ++ (functionHeader v.indent name [lit "self"] ++ getter), setter, ?_⟩
      rw [fileText_property hnode htype hname hvalue, heq]
      simp only [List.append_assoc]

/-- The signature is that of the node. -/
theorem signature_of_defines {t : Json} (ht : signature = some t) :
    ∃ fields, v.node = .object fields ∧ Record.get? (lit "signature") fields = some t := by
  cases h with
  | @function fields _ _ _ _ hnode _ _ _ => exact ⟨fields, hnode, ht⟩
  | getter => contradiction
  | setter => contradiction

theorem nodup_of_unsigned (hnone : signature = none) : parameters.Nodup := by
  cases h with
  | function _ _ _ hhead =>
      rw [parameters_of_unsigned hhead hnone]
      cases isMethod <;> decide
  | getter => decide
  | setter => decide

/-- With a signature, the parameters are distinct exactly if its bare words are. -/
theorem nodup_iff_of_signature {verbosity : Int} {ctx : TypeContext} {path : Text} {source : Json}
    {s : Signature}
    (hread : (Signature.readJson verbosity ctx path source).result = .ok (some s))
    (hs : signature = some s.toJson) :
    parameters.Nodup ↔ Signature.DistinctWords (Signature.bareWords ctx source) ∧
      (isMethod = true → some (lit "self") ∉ Signature.bareWords ctx source) := by
  cases h with
  | function _ _ _ hhead =>
      rw [parameters_of_signature hhead hs, Signature.names_of_readJson hread,
        Signature.nodup_parameters_iff]
  | getter => contradiction
  | setter => contradiction

end Defines

end Stub

open Stub Annotator

/-- **The parameters of a function are distinct, unless its signature has a word too many.** Where a
skeleton had no signatures and was annotated, the signature of each function whose header is written was
read from a text. Its parameters are distinct exactly if no bare word of the text occurs twice, none is
the name of an argument with types, and none is the `self` of a method. Functions without a signature and
properties have distinct parameters always. -/
theorem distinct_parameters {data : Json}
    (hdata : ∀ x, Relation.TransGen Json.IsMember data x → x.field? (lit "signature") = none)
    {config : Json} {verbosity : Int} {v : Visit}
    (hv : v ∈ moduleVisits (annotate config verbosity data).value) {isMethod : Bool}
    {signature : Option Json} {parameters : List Text} (h : v.Defines isMethod signature parameters) :
    (∃ name before after, fileText v.writeSelf.log =
      before ++ (functionHeader v.indent name parameters ++ after)) ∧
    (∀ t, signature = some t → Signature.IsRead t) ∧
    (parameters.Nodup ↔ ∀ w ctx path source s,
      (Signature.readJson w ctx path source).result = .ok (some s) → signature = some s.toJson →
        Signature.DistinctWords (Signature.bareWords ctx source) ∧
          (isMethod = true → some (lit "self") ∉ Signature.bareWords ctx source)) := by
  have hread : ∀ t, signature = some t → Signature.IsRead t := by
    intro t ht
    -- the node is below a member of the annotated module, where all signatures were read
    obtain ⟨fields, hnode, hfield⟩ := signature_of_defines h ht
    obtain ⟨x, hx, hbelow⟩ := below_of_mem_moduleVisits hv hnode
    refine signedByReading_annotate hdata config verbosity x hx v.node hbelow t ?_
    rw [hnode]
    exact hfield
  refine ⟨header_of_defines h, hread, ?_⟩
  constructor
  · intro hnodup w ctx path source s hs hsignature
    exact (nodup_iff_of_signature h hs hsignature).1 hnodup
  · intro hall
    cases signature with
    | none => exact nodup_of_unsigned h rfl
    | some t =>
        -- any text that the signature was read from will do
        obtain ⟨w, ctx, path, source, s, hs, rfl⟩ := hread t rfl
        exact (nodup_iff_of_signature h hs rfl).2 (hall w ctx path source s hs rfl)

/-- A class with a method of two arguments, a type and a bare word. -/
def targetModule : Json :=
  .object [(lit "name", .str (lit "Ext")), (lit "type", .str (lit "module")), (lit "members", .list
    [.object [(lit "name", .str (lit "CyUnit")), (lit "type", .str (lit "class")), (lit "members", .list
      [.object [(lit "name", .str (lit "attack")), (lit "type", .str (lit "instancemethod")),
        (lit "doc", .str (lit "bool attack(CyUnit* pUnit, target)"))]])]])]

/-- The method after the annotation. -/
def targetMethod : Record Json :=
  [(lit "name", .str (lit "attack")), (lit "type", .str (lit "instancemethod")), (lit "doc", .str []),
    (lit "signature", (⟨some (lit "bool"), none, [⟨lit "arg0", some ⟨some (lit "CyUnit"), none⟩⟩,
      ⟨lit "target", none⟩]⟩ : Signature).toJson)]

theorem distinct_parameters_target :
    (∃ name before after, fileText (writeSelf tab (lit "Ext.CyUnit") (.object targetMethod)).log =
      before ++ (functionHeader tab name [lit "self", lit "arg0", lit "target"] ++ after)) ∧
    ∀ w ctx path source s, (Signature.readJson w ctx path source).result = .ok (some s) →
      Record.get? (lit "signature") targetMethod = some s.toJson →
        Signature.DistinctWords (Signature.bareWords ctx source) ∧
          some (lit "self") ∉ Signature.bareWords ctx source := by
  have hskeleton : Skeleton (fun _ => False) targetModule := by
    refine .node rfl rfl nofun nofun rfl (List.forall_mem_cons.2 ⟨?_, nofun⟩)
    refine .node rfl rfl nofun nofun rfl (List.forall_mem_cons.2 ⟨?_, nofun⟩)
    exact .node rfl rfl (fun _ h => ⟨_, (Option.some.inj h).symm⟩) nofun rfl nofun
  have hdata : ∀ x, Relation.TransGen Json.IsMember targetModule x →
      x.field? (lit "signature") = none := by
    intro x hx
    obtain ⟨-, -, -, hsignature, -⟩ := Skeleton.iff_fields.1 (hskeleton.of_below hx.to_reflTransGen)
    exact Option.eq_none_iff_forall_ne_some.2 hsignature
  let v : Visit := ⟨[0, 0], tab, lit "Ext.CyUnit", .object targetMethod⟩
  have hvalue : (annotate .null 0 targetModule).value =
      .object [(lit "name", .str (lit "Ext")), (lit "type", .str (lit "module")), (lit "members", .list
        [.object [(lit "name", .str (lit "CyUnit")), (lit "type", .str (lit "class")),
          (lit "members", .list [.object targetMethod])]])] := by decide +kernel
  have hv : v ∈ moduleVisits (annotate .null 0 targetModule).value := by
    rw [hvalue]
    exact List.mem_cons_of_mem _ List.mem_cons_self
  have hdefines : v.Defines true (Record.get? (lit "signature") targetMethod)
      [lit "self", lit "arg0", lit "target"] := .function rfl rfl rfl rfl
  obtain ⟨hheader, -, hnodup⟩ := distinct_parameters hdata hv hdefines
  refine ⟨hheader, fun w ctx path source s hread hs => ?_⟩
  obtain ⟨hdistinct, hself⟩ := hnodup.1 (by decide) w ctx path source s hread hs
  exact ⟨hdistinct, hself rfl⟩

/-- **Parameters of the same name.** A word that occurs twice, a word that is the name of an argument
with a type, and the word `self` in a method. -/
theorem repeated_parameters :
    fileText (writeModule (annotate .null 0 (.object [(lit "name", .str (lit "Ext")),
      (lit "type", .str (lit "module")), (lit "members", .list
        [.object [(lit "name", .str (lit "f")), (lit "type", .str (lit "function")),
          (lit "doc", .str (lit "void f(x, x)"))],
         .object [(lit "name", .str (lit "g")), (lit "type", .str (lit "function")),
          (lit "doc", .str (lit "void g(arg1, int)"))],
         .object [(lit "name", .str (lit "C")), (lit "type", .str (lit "class")), (lit "members", .list
          [.object [(lit "name", .str (lit "m")), (lit "type", .str (lit "instancemethod")),
            (lit "doc", .str (lit "void m(self)"))]])]])])).value).log =
      lit "\"\"\"\nExt\n\n\n\"\"\"\n" ++
      lit "\ndef f( x, x ) :\n\t# type: (Any, Any) -> None\n\tpass\n" ++
      lit "\ndef g( arg1, arg1 ) :\n\t# type: (Any, int) -> None\n\tpass\n" ++
      lit "\nclass C( object ) :\n\tdef m( self, self ) :\n\t\t# type: (Any) -> None\n\t\tpass\n" := by
  decide +kernel

end ModuleStubs
