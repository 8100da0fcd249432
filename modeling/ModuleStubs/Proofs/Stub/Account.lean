import ModuleStubs.Proofs.Stub.Bodies

/-!
# What becomes of every node

The nodes below a module are the members of the module, and the members of the classes and types among
them (`Below`). A writer that ends without a fault has come to each of them, in pre-order: the visits of
a module are the nodes below it (`mem_moduleVisits_iff`), by ascending addresses
(`pairwise_precedes_moduleVisits`). Each node has one of three fates, and no other
(`Visit.hasOneFate`): it is defined in the file, it is left out with a warning that gives its full path, or
it is a constructor or a slot without a value, which are left out without a word. The file and the warnings
consist of what the nodes leave there, one after the other (`nodes_accounted`).
-/

set_option autoImplicit false

namespace ModuleStubs

namespace Stub

/-! ## The nodes below a module -/

/-- A visit is that of a member of a class or a type: its address has one index more, its indent one tab
more, and its path the name of the class or type. -/
def Visit.HasMember (v w : Visit) : Prop :=
  ∃ fields name items i, v.node = .object fields ∧ containerName? fields = some name ∧
    Record.get? (lit "members") fields = some (.list items) ∧ items[i]? = some w.node ∧
    w = ⟨v.address ++ [i], v.indent ++ tab, v.path ++ lit "." ++ name.display, w.node⟩

/-- A visit is that of a node below a module: a member of the module, or a member of a class or a type
that is below the module. -/
inductive Below (data : Json) : Visit → Prop
  | member {name : Json} {items : List Json} {i : Nat} {node : Json}
      (hname : data.field? (lit "name") = some name)
      (hmembers : data.field? (lit "members") = some (.list items)) (hnode : items[i]? = some node) :
      Below data ⟨[i], [], name.display, node⟩
  | nested {v w : Visit} (hv : Below data v) (hw : v.HasMember w) : Below data w

/-- The member nodes of a class or a type are the items of its list of members. -/
theorem getElem?_memberNodes {fields : Record Json} {i : Nat} {node : Json} :
    ((memberNodes fields).toOption.getD [])[i]? = some node ↔
      ∃ items, Record.get? (lit "members") fields = some (.list items) ∧ items[i]? = some node := by
  constructor
  · intro h
    cases hm : memberNodes fields with
    | error e =>
        rw [hm] at h
        simp [Except.toOption] at h
    | ok nodes =>
        rw [hm] at h
        replace h : nodes[i]? = some node := h
        have hne : nodes ≠ [] := by
          rintro rfl
          simp at h
        exact ⟨nodes, memberNodes_eq_ok hm hne, h⟩
  · rintro ⟨items, hitems, hnode⟩
    have hm : memberNodes fields = .ok items := by rw [memberNodes, hitems]
    rw [hm]
    exact hnode

/-- The visits from a node on: its own, and those from its members on. -/
theorem mem_visits_iff {u v : Visit} :
    v ∈ visits u.address u.indent u.path u.node ↔
      v = u ∨ ∃ w, u.HasMember w ∧ v ∈ visits w.address w.indent w.path w.node := by
  obtain ⟨address, indent, path, node⟩ := u
  cases node with
  | object fields =>
      rw [visits_object, List.mem_cons]
      refine or_congr_right ?_
      constructor
      · intro hv
        split at hv
        · rename_i name hname
          obtain ⟨i, node, hnode, hv⟩ := mem_listVisits_iff.1 hv
          obtain ⟨items, hitems, hnode⟩ := getElem?_memberNodes.1 hnode
          rw [Nat.zero_add] at hv
          exact ⟨⟨_, _, _, node⟩, ⟨fields, name, items, i, rfl, hname, hitems, hnode, rfl⟩, hv⟩
        · simp at hv
      · rintro ⟨w, ⟨fields', name, items, i, hfields, hname, hitems, hnode, hw⟩, hv⟩
        obtain rfl := Json.object.inj hfields
        rw [hname]
        refine mem_listVisits_iff.2 ⟨i, w.node, getElem?_memberNodes.2 ⟨items, hitems, hnode⟩, ?_⟩
        rw [hw] at hv
        rwa [Nat.zero_add]
  | _ =>
      simp only [visits, List.mem_singleton]
      refine (or_iff_left ?_).symm
      rintro ⟨w, ⟨fields, name, items, i, hfields, -⟩, -⟩
      contradiction

theorem Visit.HasMember.size_lt {v w : Visit} (h : v.HasMember w) : w.node.size < v.node.size := by
  obtain ⟨fields, name, items, i, hfields, -, hitems, hnode, -⟩ := h
  have hitem := Json.size_lt_of_mem_items (List.mem_of_getElem? hnode)
  have hfield : (Json.list items).size < (Json.object fields).size := Json.size_field_lt hitems
  rw [hfields]
  omega

/-- All nodes that are visited from a node below the module on are below the module. -/
theorem Below.of_mem_visits {data : Json} {u v : Visit} (hu : Below data u)
    (hv : v ∈ visits u.address u.indent u.path u.node) : Below data v := by
  rcases mem_visits_iff.1 hv with rfl | ⟨w, hw, hv⟩
  · exact hu
  · have := hw.size_lt
    exact Below.of_mem_visits (hu.nested hw) hv
termination_by u.node.size

/-- With a node its members are visited too. -/
theorem mem_visits_of_hasMember {u v w : Visit}
    (hv : v ∈ visits u.address u.indent u.path u.node) (hw : v.HasMember w) :
    w ∈ visits u.address u.indent u.path u.node := by
  refine mem_visits_iff.2 (Or.inr ?_)
  rcases mem_visits_iff.1 hv with rfl | ⟨x, hx, hv⟩
  · exact ⟨w, hw, mem_visits_iff.2 (Or.inl rfl)⟩
  · have := hx.size_lt
    exact ⟨x, hx, mem_visits_of_hasMember hv hw⟩
termination_by u.node.size

/-! ## Whole modules -/

/-- A head that was written: the name and the doc of the module, and nothing else. -/
theorem writeHead_completed {data : Json} (h : (writeHead data).result = .ok ()) :
    ∃ name doc, data.field? (lit "name") = some name ∧
      (writeHead data).log = [.write (moduleHead name doc)] := by
  rw [writeHead] at h ⊢
  -- the head stops at the first field that is missing
  cases htype : data.index (lit "type") with
  | error e => simp [htype] at h
  | ok type =>
      cases hmodule : type.isStr (lit "module") with
      | false => simp [htype, hmodule] at h
      | true =>
          cases hname : data.index (lit "name") with
          | error e => simp [htype, hmodule, hname] at h
          | ok name =>
              cases hdoc : data.fieldOr (lit "doc") (.str []) with
              | error e => simp [htype, hmodule, hname, hdoc] at h
              | ok doc =>
                  refine ⟨name, doc, Json.index_eq_ok_iff.1 hname, ?_⟩
                  cases data.fieldOr (lit "members") (.list []) >>= Json.elements <;>
                    simp [hmodule, write]

/-- A module that was written has a name, and it is what the paths of its members start with. -/
theorem completed_module {data : Json} (h : (writeModule data).result = .ok ()) :
    ∃ fields name doc, data = .object fields ∧ data.field? (lit "name") = some name ∧
      modulePath data = name.display ∧ (writeHead data).log = [.write (moduleHead name doc)] := by
  rw [writeModule_eq_each] at h
  obtain ⟨_, hhead, -⟩ := Trace.result_bind_eq_ok.1 h
  obtain ⟨name, doc, hname, hlog⟩ := writeHead_completed hhead
  obtain ⟨fields, rfl⟩ := Json.eq_object_of_field? hname
  exact ⟨fields, name, doc, rfl, hname, by rw [modulePath, Json.index_of_field? hname]; rfl, hlog⟩

/-- The nodes that a module was written from are the items of its list of members. -/
theorem getElem?_topNodes {data : Json} (h : (writeModule data).result = .ok ()) {i : Nat}
    {node : Json} (hnode : (topNodes data)[i]? = some node) :
    ∃ items, data.field? (lit "members") = some (.list items) ∧ items[i]? = some node := by
  obtain ⟨fields, name, doc, rfl, -, -, -⟩ := completed_module h
  cases hmembers : Record.get? (lit "members") fields with
  | none =>
      have hnodes : topNodes (.object fields) = [] := topNodes_object (by rw [hmembers]; rfl)
      simp [hnodes] at hnode
  | some members =>
      by_cases hlist : ∃ items, members = .list items
      · obtain ⟨items, rfl⟩ := hlist
        have hnodes : topNodes (.object fields) = items := topNodes_object (by rw [hmembers]; rfl)
        exact ⟨items, hmembers, hnodes ▸ hnode⟩
      · -- the parts of any other value are strings, and no string is written
        have helements : topNodes (.object fields) = members.elements.toOption.getD [] := by
          simp [topNodes, Json.fieldOr, hmembers, bind, Except.bind]
        cases hparts : members.elements with
        | error e =>
            rw [helements, hparts] at hnode
            simp [Except.toOption] at hnode
        | ok parts =>
            have hmem : node ∈ parts := by
              rw [helements, hparts] at hnode
              exact List.mem_of_getElem? hnode
            obtain ⟨t, rfl⟩ := Json.eq_str_of_mem_elements (fun items hl => hlist ⟨items, hl⟩) hparts hmem
            have hvisit : ⟨[0 + i], [], modulePath (.object fields), .str t⟩ ∈
                moduleVisits (.object fields) :=
              mem_listVisits_iff.2 ⟨i, .str t, hnode, List.mem_singleton.2 rfl⟩
            have hwrite := (writeModule_completed h).1 _ hvisit
            rw [result_write] at hwrite
            contradiction

theorem mem_moduleVisits_iff {data : Json} (h : (writeModule data).result = .ok ()) {v : Visit} :
    v ∈ moduleVisits data ↔ Below data v := by
  obtain ⟨fields, name, doc, rfl, hname, hpath, -⟩ := completed_module h
  constructor
  · intro hv
    obtain ⟨i, node, hnode, hv⟩ := mem_listVisits_iff.1 hv
    obtain ⟨items, hitems, hnode⟩ := getElem?_topNodes h hnode
    rw [hpath, Nat.zero_add] at hv
    exact (Below.member hname hitems hnode).of_mem_visits hv
  · intro hv
    induction hv with
    | @member name' items i node hname' hitems hnode =>
        obtain rfl := Option.some.inj (hname.symm.trans hname')
        have htop : topNodes (.object fields) = items :=
          topNodes_object (by rw [show Record.get? (lit "members") fields = _ from hitems]; rfl)
        refine mem_listVisits_iff.2 ⟨i, node, by rwa [htop], ?_⟩
        rw [hpath, Nat.zero_add]
        exact mem_visits_iff (u := ⟨[i], [], name.display, node⟩).2 (Or.inl rfl)
    | nested hv hw ih =>
        obtain ⟨i, node, hnode, hv⟩ := mem_listVisits_iff.1 ih
        exact mem_listVisits_iff.2 ⟨i, node, hnode, mem_visits_of_hasMember (u := ⟨_, _, _, node⟩) hv hw⟩

/-! ## Pre-order -/

/-- The node of a visit comes before that of another in pre-order: by the first index in which their
addresses differ, or above it. -/
def Visit.Precedes (v w : Visit) : Prop := List.Lex (· < ·) v.address w.address

theorem precedes_of_longer {v w : Visit} {address : List Nat} {i : Nat} {rest : List Nat}
    (hv : v.address = address) (hw : w.address = address ++ i :: rest) : v.Precedes w := by
  have hlt : address ++ [] < address ++ i :: rest := List.append_left_lt (List.nil_lt_cons i rest)
  rw [Visit.Precedes, hv, hw]
  rwa [List.append_nil] at hlt

theorem precedes_of_lt {v w : Visit} {address : List Nat} {i j : Nat} {rest rest' : List Nat}
    (hv : v.address = address ++ i :: rest) (hw : w.address = address ++ j :: rest') (hij : i < j) :
    v.Precedes w := by
  have hlt : address ++ i :: rest < address ++ j :: rest' :=
    List.append_left_lt (List.cons_lt_cons_iff.2 (Or.inl hij))
  rw [Visit.Precedes, hv, hw]
  exact hlt

/-- The list companion of `pairwise_precedes_visits`. -/
theorem pairwise_precedes_listVisits {nodes : List Json}
    (h : ∀ node ∈ nodes, ∀ (address : List Nat) (indent path : Text),
      (visits address indent path node).Pairwise Visit.Precedes)
    (address : List Nat) (indent path : Text) (i : Nat) :
    (listVisits address indent path i nodes).Pairwise Visit.Precedes := by
  induction nodes generalizing i with
  | nil => exact List.Pairwise.nil
  | cons node nodes ih =>
      rw [listVisits, List.pairwise_append]
      refine ⟨h node List.mem_cons_self _ _ _, ih (fun n hn => h n (List.mem_cons_of_mem _ hn)) _, ?_⟩
      intro v hv w hw
      obtain ⟨rest, hrest⟩ := address_of_mem_visits hv
      obtain ⟨j, n, -, hw⟩ := mem_listVisits_iff.1 hw
      obtain ⟨rest', hrest'⟩ := address_of_mem_visits hw
      rw [List.append_assoc] at hrest hrest'
      exact precedes_of_lt hrest hrest' (by omega)

theorem pairwise_precedes_visits (address : List Nat) (indent path : Text) (node : Json) :
    (visits address indent path node).Pairwise Visit.Precedes := by
  cases node with
  | object fields =>
      rw [visits_object, List.pairwise_cons]
      constructor
      · intro v hv
        split at hv
        · obtain ⟨i, n, -, hv⟩ := mem_listVisits_iff.1 hv
          obtain ⟨rest, hrest⟩ := address_of_mem_visits hv
          rw [List.append_assoc] at hrest
          exact precedes_of_longer rfl hrest
        · simp at hv
      · split
        · cases hm : memberNodes fields with
          | error e => exact List.Pairwise.nil
          | ok nodes =>
              -- the members are smaller than the node
              refine pairwise_precedes_listVisits (fun n hn a i p => ?_) _ _ _ _
              have := size_lt_of_mem_memberNodes hm hn
              exact pairwise_precedes_visits a i p n
        · exact List.Pairwise.nil
  | _ => exact List.pairwise_singleton _ _
termination_by node.size

theorem pairwise_precedes_moduleVisits (data : Json) :
    (moduleVisits data).Pairwise Visit.Precedes :=
  pairwise_precedes_listVisits (fun n _ a i p => pairwise_precedes_visits a i p n) _ _ _ _

/-! ## Fates -/

/-- The forms of a definition: what stands between the indent and the name, and what follows the name. -/
def definitionForms : List (Text × Text) :=
  [(lit "class ", lit " :\n"), (lit "class ", lit "( object ) :\n"), (lit "def ", lit "( "),
   ([], lit " = ")]

/-- A line of the text starts with the indent and a definition of the name. -/
def Defines (indent name text : Text) : Prop :=
  ∃ before form after, form ∈ definitionForms ∧
    (before = [] ∨ before.getLast? = some (CodePoint.ofChar '\n')) ∧
    text = before ++ (indent ++ form.1 ++ name ++ form.2) ++ after

/-- The node is defined in the file, and there is no warning about it. -/
structure Visit.IsDefined (v : Visit) : Prop where
  defines : ∃ name, v.node.field? (lit "name") = some name ∧
    Defines v.indent name.display (fileText v.writeSelf.log)
  unwarned : warnings v.writeSelf.log = []

/-- Nothing is written for the node, and there is one warning, which gives its path, its name and its
type. -/
structure Visit.IsWarnedOf (v : Visit) : Prop where
  unwritten : fileText v.writeSelf.log = []
  warned : ∃ name type, v.node.field? (lit "name") = some name ∧
    v.node.field? (lit "type") = some type ∧ warnings v.writeSelf.log = [ignored v.path name type]

/-- The node is a constructor or a slot without a value, and nothing is written or said about it. -/
structure Visit.IsOmitted (v : Visit) : Prop where
  unwritten : fileText v.writeSelf.log = []
  unwarned : warnings v.writeSelf.log = []
  valueless : v.node.field? (lit "value") = none
  exempt : v.node.field? (lit "name") = some (.str (lit "__init__")) ∨
    v.node.field? (lit "type") = some (.str (lit "member_descriptor"))

/-- Exactly one of the three holds of a node. -/
def Visit.HasOneFate (v : Visit) : Prop :=
  (v.IsDefined ∧ ¬ v.IsWarnedOf ∧ ¬ v.IsOmitted) ∨ (¬ v.IsDefined ∧ v.IsWarnedOf ∧ ¬ v.IsOmitted) ∨
    (¬ v.IsDefined ∧ ¬ v.IsWarnedOf ∧ v.IsOmitted)

theorem Defines.ne_nil {indent name text : Text} (h : Defines indent name text) : text ≠ [] := by
  obtain ⟨before, form, after, hform, -, rfl⟩ := h
  have hclosing : ∀ form ∈ definitionForms, form.2 ≠ [] := by decide
  have := hclosing form hform
  simp [this]

/-- A text that starts with a definition. -/
theorem defines_of_prefix {indent name text : Text} {form : Text × Text}
    (hform : form ∈ definitionForms) (h : indent ++ form.1 ++ name ++ form.2 <+: text) :
    Defines indent name text := by
  obtain ⟨after, rfl⟩ := h
  exact ⟨[], form, after, hform, Or.inl rfl, rfl⟩

theorem warnings_bind {α β : Type} {x : Writing α} {f : α → Writing β} (hx : warnings x.log = [])
    (hf : ∀ a, warnings (f a).log = []) : warnings (x >>= f).log = [] := by
  obtain ⟨log, result⟩ := x
  cases result with
  | error e => exact hx
  | ok a =>
      replace hx : warnings log = [] := hx
      rw [Trace.bind_ok, warnings, List.filterMap_append, ← warnings, ← warnings, hx, hf a]
      rfl

theorem warnings_writeDoc (indent : Text) (fields : Record Json) :
    warnings (writeDoc indent fields).log = [] := by
  rw [writeDoc]
  split
  · rfl
  · rfl

theorem warnings_writeContainer (indent : Text) (type name : Json) (fields : Record Json) :
    warnings (writeContainer indent type name fields).log = [] := by
  refine warnings_bind rfl fun _ => warnings_bind (warnings_writeDoc indent fields) fun documented => ?_
  refine warnings_bind rfl fun nodes => ?_
  split
  · rfl
  · rfl

theorem warnings_writeFunction (indent : Text) (isMethod : Bool) (name : Json) (fields : Record Json) :
    warnings (writeFunction indent isMethod name fields).log = [] := by
  rw [writeFunction]
  refine warnings_bind rfl fun head => ?_
  obtain ⟨parameters, comment⟩ := head
  refine warnings_bind rfl fun _ => ?_
  cases comment <;> cases Record.get? (lit "doc") fields <;> rfl

@[simp] theorem fileText_log_write (t : Text) : fileText (write t).log = t := List.append_nil t

/-- What is written first stands at the start of the text. -/
theorem prefix_write_bind {β : Type} (t : Text) (f : Unit → Writing β) :
    t <+: fileText (write t >>= f).log := by
  have hprefix := fileText_bind (write t) f
  rwa [fileText_log_write] at hprefix

theorem defines_writeContainer (indent : Text) (type name : Json) (fields : Record Json) :
    Defines indent name.display (fileText (writeContainer indent type name fields).log) := by
  have hheader := prefix_write_bind (if type.isStr (lit "type") then typeHeader indent name
    else classHeader indent name) fun _ => (do
      let documented ← writeDoc indent fields
      let nodes ← (memberNodes fields : Except Fault (List Json))
      if !documented && nodes.isEmpty then write (passLine indent))
  rw [← writeContainer] at hheader
  split at hheader
  · have hform : (lit "class ", lit " :\n") ∈ definitionForms := by decide
    exact defines_of_prefix hform hheader
  · have hform : (lit "class ", lit "( object ) :\n") ∈ definitionForms := by decide
    exact defines_of_prefix hform hheader

theorem defines_functionHeader {indent : Text} {name : Json} {parameters : List Text} {text : Text}
    (h : functionHeader indent name parameters <+: text) : Defines indent name.display text := by
  have hform : (lit "def ", lit "( ") ∈ definitionForms := by decide
  refine defines_of_prefix hform (List.IsPrefix.trans ?_ h)
  rw [functionHeader, List.append_assoc _ (Text.join _ _)]
  exact List.prefix_append _ _

theorem defines_constantLine (indent : Text) (name value type : Json) :
    Defines indent name.display (constantLine indent name value type) := by
  refine ⟨[], ([], lit " = "), value.display ++ lit " # type: " ++ type.display ++ lit "\n", by decide,
    Or.inl rfl, ?_⟩
  rw [constantLine]
  simp only [List.append_assoc, List.nil_append]

/-- The getter of a property stands behind its decorator. -/
theorem defines_propertyLines (indent : Text) (name : Json) :
    Defines indent name.display (propertyLines indent name) := by
  have hgetter : lit "( self ) :\n" = lit "( " ++ lit "self ) :\n" := rfl
  have hlines : ∃ after, propertyLines indent name =
      indent ++ lit "@property\n" ++ (indent ++ lit "def " ++ name.display ++ lit "( ") ++ after := by
    delta propertyLines
    rw [hgetter]
    simp only [List.append_assoc]
    exact ⟨_, rfl⟩
  obtain ⟨after, hlines⟩ := hlines
  exact ⟨indent ++ lit "@property\n", (lit "def ", lit "( "), after, by decide,
    Or.inr (by simp [lit]), hlines⟩

/-- A node that was written has a type and a name. -/
theorem fields_of_writeSelf {indent path : Text} {node : Json}
    (h : (writeSelf indent path node).result = .ok ()) :
    ∃ fields type name, node = .object fields ∧ Record.get? (lit "type") fields = some type ∧
      Record.get? (lit "name") fields = some name := by
  cases node with
  | object fields =>
      cases htype : Record.get? (lit "type") fields with
      | none =>
          rw [writeSelf_untyped htype] at h
          contradiction
      | some type =>
          cases hname : Record.get? (lit "name") fields with
          | none =>
              rw [writeSelf_unnamed htype hname] at h
              split at h <;> contradiction
          | some name => exact ⟨fields, type, name, rfl, htype, hname⟩
  | _ => contradiction

/-- A node that is neither a class nor a function: a constant, a property, or nothing. -/
theorem fate_of_writeOther {v : Visit} {fields : Record Json} {type name : Json}
    (hnode : v.node = .object fields) (htype : Record.get? (lit "type") fields = some type)
    (hname : Record.get? (lit "name") fields = some name)
    (hself : v.writeSelf = writeOther v.indent v.path name type fields) :
    v.IsDefined ∨ v.IsWarnedOf ∨ v.IsOmitted := by
  have hfield : ∀ key, v.node.field? key = Record.get? key fields := by
    intro key
    rw [hnode]
    rfl
  rw [writeOther] at hself
  cases hvalue : Record.get? (lit "value") fields with
  | some value =>
      simp only [hvalue] at hself
      refine Or.inl ⟨⟨name, by rw [hfield, hname], ?_⟩, by rw [hself]; rfl⟩
      rw [hself, fileText_log_write]
      exact defines_constantLine v.indent name value type
  | none =>
      simp only [hvalue] at hself
      split at hself
      · refine Or.inl ⟨⟨name, by rw [hfield, hname], ?_⟩, by rw [hself]; rfl⟩
        rw [hself, fileText_log_write]
        exact defines_propertyLines v.indent name
      · split at hself
        · rename_i hexempt
          refine Or.inr (Or.inr ⟨by rw [hself]; rfl, by rw [hself]; rfl, by rw [hfield, hvalue], ?_⟩)
          rw [hfield, hfield, hname, htype]
          rcases Bool.or_eq_true_iff.1 hexempt with hinit | hslot
          · exact Or.inl (by rw [Json.eq_str_of_isStr hinit])
          · exact Or.inr (by rw [Json.eq_str_of_isStr hslot])
        · exact Or.inr (Or.inl ⟨by rw [hself]; rfl,
            ⟨name, type, by rw [hfield, hname], by rw [hfield, htype], by rw [hself]; rfl⟩⟩)

/-- A function that was written. -/
theorem isDefined_of_writeFunction {v : Visit} {isMethod : Bool} {fields : Record Json} {name : Json}
    (hnode : v.node = .object fields) (hname : Record.get? (lit "name") fields = some name)
    (hself : v.writeSelf = writeFunction v.indent isMethod name fields)
    (h : v.writeSelf.result = .ok ()) : v.IsDefined := by
  refine ⟨⟨name, by rw [hnode]; exact hname, ?_⟩, ?_⟩
  · rcases writeFunction_cases v.indent isMethod name fields with ⟨e, -, hrun⟩ |
      ⟨parameters, comment, rest, -, hrun⟩
    · rw [hself, hrun] at h
      contradiction
    · rw [hself, hrun, fileText_write]
      exact defines_functionHeader (List.prefix_append _ _)
  · rw [hself]
    exact warnings_writeFunction v.indent isMethod name fields

/-- A node that was written has one of the three fates. -/
theorem fate_of_completed {v : Visit} (h : v.writeSelf.result = .ok ()) :
    v.IsDefined ∨ v.IsWarnedOf ∨ v.IsOmitted := by
  obtain ⟨fields, type, name, hnode, htype, hname⟩ := fields_of_writeSelf h
  have hself := writeSelf_of_fields htype hname v.indent v.path
  rw [← hnode, ← Visit.writeSelf] at hself
  -- the types in the order in which the writer looks for them
  split at hself
  · rw [hself] at h
    contradiction
  · split at hself
    · refine Or.inl ⟨⟨name, by rw [hnode]; exact hname, ?_⟩, ?_⟩
      · rw [hself]
        exact defines_writeContainer v.indent type name fields
      · rw [hself]
        exact warnings_writeContainer v.indent type name fields
    · split at hself
      · exact Or.inl (isDefined_of_writeFunction hnode hname hself h)
      · split at hself
        · exact Or.inl (isDefined_of_writeFunction hnode hname hself h)
        · exact fate_of_writeOther hnode htype hname hself

theorem Visit.hasOneFate {v : Visit} (h : v.writeSelf.result = .ok ()) : v.HasOneFate := by
  have hwritten : v.IsDefined → fileText v.writeSelf.log ≠ [] := by
    rintro ⟨⟨name, -, hdefines⟩, -⟩
    exact hdefines.ne_nil
  have hquiet : v.IsWarnedOf → ¬ v.IsOmitted := by
    rintro ⟨-, name, type, -, -, hwarned⟩ ⟨-, hunwarned, -, -⟩
    rw [hunwarned] at hwarned
    contradiction
  rcases fate_of_completed h with hd | hw | ho
  · exact Or.inl ⟨hd, fun hw => hwritten hd hw.unwritten, fun ho => hwritten hd ho.unwritten⟩
  · exact Or.inr (Or.inl ⟨fun hd => hwritten hd hw.unwritten, hw, hquiet hw⟩)
  · exact Or.inr (Or.inr ⟨fun hd => hwritten hd ho.unwritten, fun hw => hquiet hw ho, ho⟩)

/-! ## The account -/

theorem warnings_append (log log' : List Emission) :
    warnings (log ++ log') = warnings log ++ warnings log' := List.filterMap_append

theorem warnings_flatMap {α : Type} (f : α → List Emission) (as : List α) :
    warnings (as.flatMap f) = as.flatMap fun a => warnings (f a) := List.filterMap_flatMap

/-- The empty line before a member of the module is no warning. -/
theorem warnings_log_write (v : Visit) : warnings v.write.log = warnings v.writeSelf.log := by
  rw [log_write, warnings_append]
  split
  · rfl
  · rfl

/-- **No node vanishes.** A module that is written to the end is written from the nodes below it, each of
them once and in pre-order: the file and the warnings are the head of the module, and then what each node
leaves there, the members of the module after an empty line. Of every node exactly one of these holds: it
writes a text that defines its name; it writes nothing and prints one warning, which names its full path;
it writes and prints nothing, has no value, and is a constructor or a slot. The warnings that are printed
are those of the nodes, in pre-order. -/
theorem nodes_accounted {data : Json} (h : (writeModule data).result = .ok ()) :
    (∀ v, v ∈ moduleVisits data ↔ Below data v) ∧
    (moduleVisits data).Pairwise Visit.Precedes ∧
    (∃ name doc, data.field? (lit "name") = some name ∧
      (writeModule data).log = .write (moduleHead name doc) ::
        (moduleVisits data).flatMap fun v =>
          (if v.address.length = 1 then [.write (lit "\n")] else []) ++ v.writeSelf.log) ∧
    (∀ v, Below data v → v.HasOneFate) ∧
    warnings (writeModule data).log =
      (moduleVisits data).flatMap fun v => warnings v.writeSelf.log := by
  obtain ⟨hwritten, hlog⟩ := writeModule_completed h
  obtain ⟨fields, name, doc, -, hname, -, hhead⟩ := completed_module h
  rw [hhead] at hlog
  refine ⟨fun v => mem_moduleVisits_iff h, pairwise_precedes_moduleVisits data,
    ⟨name, doc, hname, ?_⟩, ?_, ?_⟩
  · simp only [hlog, log_write, List.singleton_append]
  · intro v hv
    apply Visit.hasOneFate
    rw [← result_write]
    exact hwritten v ((mem_moduleVisits_iff h).2 hv)
  · rw [hlog, warnings_append, warnings_flatMap]
    simp only [warnings_log_write]
    rfl

/-- A node of a kind that is not known. -/
def oddNode : Json := .object [(lit "name", .str (lit "odd")), (lit "type", .str (lit "ellipsis"))]

/-- A module with a class in which there are a constructor, a property and a type with a constant and an
unknown node, and with a function behind the class. -/
def layeredModule : Json :=
  .object [(lit "name", .str (lit "M")), (lit "type", .str (lit "module")), (lit "members", .list
    [.object [(lit "name", .str (lit "Outer")), (lit "type", .str (lit "class")), (lit "members", .list
      [.object [(lit "name", .str (lit "__init__")), (lit "type", .str (lit "wrapper_descriptor"))],
       .object [(lit "name", .str (lit "size")), (lit "type", .str (lit "property"))],
       .object [(lit "name", .str (lit "Inner")), (lit "type", .str (lit "type")), (lit "members", .list
        [.object [(lit "name", .str (lit "NO_UNIT")), (lit "type", .str (lit "int")), (lit "value", .int (-1))],
         oddNode])]])],
     .object [(lit "name", .str (lit "f")), (lit "type", .str (lit "function"))]])]

theorem nodes_accounted_layered :
    (writeModule layeredModule).result = .ok () ∧
    Below layeredModule ⟨[0, 2, 1], tab ++ tab, lit "M.Outer.Inner", oddNode⟩ ∧
    Visit.HasOneFate ⟨[0, 2, 1], tab ++ tab, lit "M.Outer.Inner", oddNode⟩ ∧
    warnings (writeModule layeredModule).log = [lit "WARNING: Ignored M.Outer.Inner.odd of type ellipsis"] := by
  have hcompleted : (writeModule layeredModule).result = .ok () := rfl
  obtain ⟨hbelow, -, -, hfate, hwarnings⟩ := nodes_accounted hcompleted
  have hodd : Below layeredModule ⟨[0, 2, 1], tab ++ tab, lit "M.Outer.Inner", oddNode⟩ := by
    apply (hbelow _).1
    exact List.mem_of_getElem? (show (moduleVisits layeredModule)[5]? = some _ from rfl)
  exact ⟨hcompleted, hodd, hfate _ hodd, hwarnings.trans rfl⟩

end Stub

end ModuleStubs
