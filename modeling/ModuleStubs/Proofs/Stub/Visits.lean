import ModuleStubs.Proofs.Completion
import ModuleStubs.Stub.Module

/-!
# The nodes that a stub file is written from

The writer of stub files calls itself for the members of classes and types. What it writes is the
same as if it went through a list: `visits` has the nodes that it comes to, each before its members,
with the indent and the path that it has there; `writeSelf` writes a node without its members; and a
node is written by writing its visits one after the other (`writeNode_eq_each`), a file by its head
and the visits of its module (`writeModule_eq_each`). Nothing is assumed of the data: where one
writer stops, the other stops too, with the same fault.
-/

set_option autoImplicit false

namespace ModuleStubs

namespace Stub

/-- A node that the writer comes to: the indices of the members that lead to it, its indent, the
path of its parent, and the node itself. -/
structure Visit where
  address : List Nat
  indent : Text
  path : Text
  node : Json

/-- The members among the fields of a class or a type. Values other than lists have no nodes in
them, and are refused unless they are empty. -/
def memberNodes (fields : Record Json) : Except Fault (List Json) :=
  match Record.get? (lit "members") fields with
  | none => .ok []
  | some (.list items) => .ok items
  | some v => do
    let parts ← v.elements
    if parts.isEmpty then .ok [] else .error (.keyIntoSequence .str)

/-- The name of a class or a type; other nodes have their members left out. -/
def containerName? (fields : Record Json) : Option Json :=
  match Record.get? (lit "type") fields with
  | none => none
  | some type =>
    if type.isStr (lit "type") || type.isStr (lit "class") then Record.get? (lit "name") fields
    else none

/-- A class or a type without its members. -/
def writeContainer (indent : Text) (type name : Json) (fields : Record Json) : Writing Unit := do
  write (if type.isStr (lit "type") then typeHeader indent name else classHeader indent name)
  let documented ← writeDoc indent fields
  let nodes ← (memberNodes fields : Except Fault (List Json))
  if !documented && nodes.isEmpty then write (passLine indent)

/-- A node without its members. -/
def writeSelf (indent path : Text) (node : Json) : Writing Unit :=
  match node with
  | .object fields => do
    let type ← ((Json.object fields).index (lit "type") : Except Fault Json)
    if type.isStr (lit "module") then Trace.fail (.violated .isNoModule)
    else
      match Record.get? (lit "name") fields with
      | none => Trace.fail (.violated .isNamed)
      | some name =>
        if type.isStr (lit "type") || type.isStr (lit "class") then
          writeContainer indent type name fields
        else if type.isStr (lit "function") then writeFunction indent false name fields
        else if type.isStr (lit "instancemethod") then writeFunction indent true name fields
        else writeOther indent path name type fields
  | v => do
    let _ ← (v.index (lit "type") : Except Fault Json)

mutual

/-- A node and the nodes below it that the writer comes to, in order. -/
def visits (address : List Nat) (indent path : Text) : Json → List Visit
  | .object fields =>
    ⟨address, indent, path, .object fields⟩ ::
      match containerName? fields with
      | some name =>
        memberVisits address (indent ++ tab) (path ++ lit "." ++ name.display) fields
      | none => []
  | v => [⟨address, indent, path, v⟩]

/-- The visits of the members among the fields of a node. -/
def memberVisits (address : List Nat) (indent path : Text) : List (Text × Json) → List Visit
  | [] => []
  | (key, .list items) :: fields =>
    if key = lit "members" then listVisits address indent path 0 items
    else memberVisits address indent path fields
  | (key, _) :: fields =>
    if key = lit "members" then [] else memberVisits address indent path fields

/-- The visits of the members of a list, from an index on. -/
def listVisits (address : List Nat) (indent path : Text) : Nat → List Json → List Visit
  | _, [] => []
  | i, node :: nodes =>
    visits (address ++ [i]) indent path node ++ listVisits address indent path (i + 1) nodes

end

/-! ## Members -/

/-- Values other than lists: both writers look at their parts in the same way. -/
theorem refused_parts (indent path : Text) (parts : Except Fault (List Json)) :
    (do
      let parts ← (parts : Writing (List Json))
      if parts.isEmpty then return false else Trace.fail (.keyIntoSequence .str)) = (do
      let nodes ← ((parts >>= fun parts =>
        if parts.isEmpty then .ok [] else .error (.keyIntoSequence .str) :
          Except Fault (List Json)) : Writing (List Json))
      writeNodes indent path nodes
      return !nodes.isEmpty) := by
  cases parts with
  | error e => rfl
  | ok parts =>
      cases parts with
      | nil => rfl
      | cons v vs => rfl

theorem writeMembers_eq (indent path : Text) (fields : Record Json) :
    writeMembers indent path fields = (do
      let nodes ← (memberNodes fields : Except Fault (List Json))
      writeNodes indent path nodes
      return !nodes.isEmpty) := by
  -- the writer finds the members by going through the fields, `memberNodes` by looking them up
  induction fields with
  | nil => simp [writeMembers, memberNodes, Record.get?, writeNodes]
  | cons field fields ih =>
      obtain ⟨key, v⟩ := field
      by_cases hkey : key = lit "members"
      · subst hkey
        cases v with
        | list items => simp [writeMembers, memberNodes, Record.get?]
        | _ =>
            -- strings and objects have parts too, so they are refused unless empty
            simp only [writeMembers, memberNodes, Record.get?, if_true]
            exact refused_parts indent path _
      · have hget : memberNodes ((key, v) :: fields) = memberNodes fields := by
          simp [memberNodes, Record.get?, hkey]
        rw [hget, ← ih]
        cases v <;> simp [writeMembers, hkey]

/-- The visits of the members are those of the member nodes. -/
theorem memberVisits_eq (address : List Nat) (indent path : Text) (fields : Record Json) :
    memberVisits address indent path fields =
      listVisits address indent path 0 ((memberNodes fields).toOption.getD []) := by
  induction fields with
  | nil => simp [memberVisits, memberNodes, Record.get?, Except.toOption, listVisits]
  | cons field fields ih =>
      obtain ⟨key, v⟩ := field
      by_cases hkey : key = lit "members"
      · subst hkey
        cases v with
        | list items => simp [memberVisits, memberNodes, Record.get?, Except.toOption]
        | _ =>
            simp only [memberVisits, memberNodes, Record.get?, if_true]
            cases Json.elements _ with
            | error e => simp [bind, Except.bind, Except.toOption, listVisits]
            | ok parts =>
                cases parts <;> simp [bind, Except.bind, Except.toOption, listVisits]
      · have hget : memberNodes ((key, v) :: fields) = memberNodes fields := by
          simp [memberNodes, Record.get?, hkey]
        rw [hget, ← ih]
        cases v <;> simp [memberVisits, hkey]

/-- Only the items of a list are member nodes. -/
theorem memberNodes_eq_ok {fields : Record Json} {nodes : List Json}
    (h : memberNodes fields = .ok nodes) (hne : nodes ≠ []) :
    Record.get? (lit "members") fields = some (.list nodes) := by
  rw [memberNodes] at h
  split at h
  · exact absurd (Except.ok.inj h).symm hne
  · rename_i items hitems
    rw [hitems, Except.ok.inj h]
  · rename_i v _ hv
    cases he : v.elements with
    | error e => simp [he, bind, Except.bind] at h
    | ok parts =>
        simp only [he, bind, Except.bind] at h
        split at h
        · exact absurd (Except.ok.inj h).symm hne
        · exact absurd h (by simp)

theorem size_lt_of_mem_memberNodes {fields : Record Json} {nodes : List Json}
    (h : memberNodes fields = .ok nodes) {node : Json} (hnode : node ∈ nodes) :
    node.size < (Json.object fields).size := by
  have hfield := memberNodes_eq_ok h (List.ne_nil_of_mem hnode)
  have h₁ := Json.size_lt_of_mem_items hnode
  have h₂ : (Json.list nodes).size < (Json.object fields).size := Json.size_field_lt hfield
  omega

/-! ## Nodes -/

/-- The node of a visit without its members. -/
def Visit.writeSelf (v : Visit) : Writing Unit := Stub.writeSelf v.indent v.path v.node

/-- The list companion of `writeNode_eq_each`. -/
theorem writeNodes_eq_each {nodes : List Json}
    (h : ∀ node ∈ nodes, ∀ (address : List Nat) (indent path : Text),
      writeNode indent path node = Trace.each Visit.writeSelf (visits address indent path node))
    (address : List Nat) (indent path : Text) (i : Nat) :
    writeNodes indent path nodes =
      Trace.each Visit.writeSelf (listVisits address indent path i nodes) := by
  induction nodes generalizing i with
  | nil => rfl
  | cons node nodes ih =>
      rw [writeNodes, listVisits, Trace.each_append,
        h node List.mem_cons_self (address ++ [i]) indent path,
        ih (fun n hn => h n (List.mem_cons_of_mem _ hn)) (i + 1)]

/-- The body of a class or a type: its members come after what it writes itself. -/
theorem writeContainer_bind (indent path : Text) (type name : Json) (fields : Record Json) :
    (do
      write (if type.isStr (lit "type") then typeHeader indent name else classHeader indent name)
      let documented ← writeDoc indent fields
      let populated ← writeMembers (indent ++ tab) path fields
      if !documented && !populated then write (passLine indent)) = (do
      writeContainer indent type name fields
      writeNodes (indent ++ tab) path ((memberNodes fields).toOption.getD [])) := by
  simp only [writeMembers_eq, writeContainer]
  cases hm : memberNodes fields with
  | error e => simp only [Trace.liftM_error_bind, bind_assoc, Trace.fail_eq, Trace.bind_error]
  | ok nodes =>
      cases nodes with
      | nil =>
          simp [-Trace.pure_eq, -Trace.liftM_eq, Trace.liftM_ok, Except.toOption, writeNodes]
      | cons node nodes =>
          simp [-Trace.pure_eq, -Trace.liftM_eq, Trace.liftM_ok, Except.toOption]

theorem visits_object (address : List Nat) (indent path : Text) (fields : Record Json) :
    visits address indent path (.object fields) =
      ⟨address, indent, path, .object fields⟩ ::
        match containerName? fields with
        | some name => listVisits address (indent ++ tab) (path ++ lit "." ++ name.display) 0
            ((memberNodes fields).toOption.getD [])
        | none => [] := by
  rw [visits]
  cases containerName? fields with
  | none => rfl
  | some name => simp only [memberVisits_eq]

/-- A node that is an object writes itself, and then its members if it is a class or a type. -/
theorem writeNode_object (indent path : Text) (fields : Record Json) :
    writeNode indent path (.object fields) = (do
      writeSelf indent path (.object fields)
      match containerName? fields with
      | some name =>
        writeNodes (indent ++ tab) (path ++ lit "." ++ name.display)
          ((memberNodes fields).toOption.getD [])
      | none => return ()) := by
  rw [writeNode, writeSelf, containerName?]
  cases htype : Record.get? (lit "type") fields with
  | none => simp [Json.index, htype]
  | some type =>
      have hindex : (Json.object fields).index (lit "type") = .ok type := by
        simp [Json.index, htype]
      simp only [hindex, Trace.liftM_ok, pure_bind]
      by_cases hmodule : type.isStr (lit "module") = true
      · simp [hmodule]
      rw [if_neg hmodule, if_neg hmodule]
      cases hname : Record.get? (lit "name") fields with
      | none => simp
      | some name =>
          simp only []
          by_cases hcontainer : (type.isStr (lit "type") || type.isStr (lit "class")) = true
          · rw [if_pos hcontainer, if_pos hcontainer, if_pos hcontainer]
            exact writeContainer_bind indent _ type name fields
          · rw [if_neg hcontainer, if_neg hcontainer, if_neg hcontainer]
            exact bind_pure_unit.symm

/-- A node is written by writing its visits one after the other. -/
theorem writeNode_eq_each (address : List Nat) (indent path : Text) (node : Json) :
    writeNode indent path node = Trace.each Visit.writeSelf (visits address indent path node) := by
  cases node with
  | object fields =>
      rw [visits_object, Trace.each_cons, writeNode_object]
      refine bind_congr fun _ => ?_
      cases containerName? fields with
      | none => rfl
      | some name =>
          cases hm : memberNodes fields with
          | error e => rfl
          | ok nodes =>
              -- the members are written by the same law, at a smaller size
              refine writeNodes_eq_each (fun n hn a i p => ?_) _ _ _ _
              have := size_lt_of_mem_memberNodes hm hn
              exact writeNode_eq_each a i p n
  | _ => simp [writeNode, visits, Visit.writeSelf, writeSelf, Json.index]
termination_by node.size

/-! ## Nodes that are no classes -/

@[simp] theorem fileText_write (t : Text) (log : List Emission) :
    fileText (.write t :: log) = t ++ fileText log := rfl

/-- A function whose parameters cannot be read is not written at all, and any other one to its end,
beginning with its header. -/
theorem writeFunction_cases (indent : Text) (isMethod : Bool) (name : Json) (fields : Record Json) :
    (∃ e, readHead isMethod fields = .error e ∧
      writeFunction indent isMethod name fields = ⟨[], .error e⟩) ∨
    ∃ parameters comment rest, readHead isMethod fields = .ok (parameters, comment) ∧
      writeFunction indent isMethod name fields =
        ⟨.write (functionHeader indent name parameters) :: rest, .ok ()⟩ := by
  rw [writeFunction]
  cases hhead : readHead isMethod fields with
  | error e => exact Or.inl ⟨e, rfl, rfl⟩
  | ok head =>
      obtain ⟨parameters, comment⟩ := head
      right
      -- comment and doc decide what comes behind the header, not whether it is written
      cases comment <;> cases Record.get? (lit "doc") fields <;>
        exact ⟨parameters, _, _, rfl, rfl⟩

/-- A node with a type and a name, written by its type. -/
theorem writeSelf_of_fields {fields : Record Json} {type name : Json}
    (htype : Record.get? (lit "type") fields = some type)
    (hname : Record.get? (lit "name") fields = some name) (indent path : Text) :
    writeSelf indent path (.object fields) =
      if type.isStr (lit "module") then Trace.fail (.violated .isNoModule)
      else if type.isStr (lit "type") || type.isStr (lit "class") then
        writeContainer indent type name fields
      else if type.isStr (lit "function") then writeFunction indent false name fields
      else if type.isStr (lit "instancemethod") then writeFunction indent true name fields
      else writeOther indent path name type fields := by
  have hindex : (Json.object fields).index (lit "type") = .ok type := by simp [Json.index, htype]
  rw [writeSelf, hindex, Trace.liftM_ok, pure_bind, hname]

/-- A function or a method is written as one. -/
theorem writeSelf_of_function {fields : Record Json} {isMethod : Bool} {name : Json}
    (htype : Record.get? (lit "type") fields =
      some (.str (if isMethod then lit "instancemethod" else lit "function")))
    (hname : Record.get? (lit "name") fields = some name) (indent path : Text) :
    writeSelf indent path (.object fields) = writeFunction indent isMethod name fields := by
  rw [writeSelf_of_fields htype hname]
  cases isMethod with
  | false => rfl
  | true => rfl

/-! ## Addresses -/

/-- The visits of a list are those of its members, each with its index behind the address. -/
theorem mem_listVisits_iff {nodes : List Json} {address : List Nat} {indent path : Text} {k : Nat}
    {v : Visit} :
    v ∈ listVisits address indent path k nodes ↔
      ∃ i node, nodes[i]? = some node ∧ v ∈ visits (address ++ [k + i]) indent path node := by
  induction nodes generalizing k with
  | nil => simp [listVisits]
  | cons n nodes ih =>
      rw [listVisits, List.mem_append, ih]
      constructor
      · rintro (hv | ⟨i, node, hnode, hv⟩)
        · exact ⟨0, n, rfl, hv⟩
        · exact ⟨i + 1, node, hnode, by rwa [Nat.add_comm i 1, ← Nat.add_assoc]⟩
      · rintro ⟨i, node, hnode, hv⟩
        cases i with
        | zero =>
            obtain rfl : n = node := by simpa using hnode
            exact Or.inl hv
        | succ i => exact Or.inr ⟨i, node, hnode, by rwa [Nat.add_assoc, Nat.add_comm 1 i]⟩

theorem exists_mem_of_mem_listVisits {nodes : List Json} {address : List Nat} {indent path : Text}
    {k : Nat} {v : Visit} (hv : v ∈ listVisits address indent path k nodes) :
    ∃ node ∈ nodes, ∃ i, v ∈ visits (address ++ [i]) indent path node := by
  obtain ⟨i, node, hnode, hv⟩ := mem_listVisits_iff.1 hv
  exact ⟨node, List.mem_of_getElem? hnode, k + i, hv⟩

/-- The members of a list have their index behind the address of the list. -/
theorem address_of_mem_listVisits {nodes : List Json}
    (h : ∀ node ∈ nodes, ∀ (address : List Nat) (indent path : Text),
      ∀ v ∈ visits address indent path node, ∃ rest, v.address = address ++ rest)
    {address : List Nat} {indent path : Text} {i : Nat} {v : Visit}
    (hv : v ∈ listVisits address indent path i nodes) :
    ∃ j rest, v.address = address ++ j :: rest := by
  obtain ⟨node, hnode, j, hv⟩ := exists_mem_of_mem_listVisits hv
  obtain ⟨rest, hrest⟩ := h node hnode _ _ _ v hv
  exact ⟨j, rest, by rw [hrest, List.append_assoc]; rfl⟩

/-- The nodes below a node have its address in front of theirs. -/
theorem address_of_mem_visits {address : List Nat} {indent path : Text} {node : Json} {v : Visit}
    (hv : v ∈ visits address indent path node) : ∃ rest, v.address = address ++ rest := by
  cases node with
  | object fields =>
      rw [visits_object] at hv
      rcases List.mem_cons.1 hv with rfl | hv
      · exact ⟨[], by simp⟩
      · split at hv
        · cases hm : memberNodes fields with
          | error e => simp [hm, Except.toOption, listVisits] at hv
          | ok nodes =>
              rw [hm] at hv
              -- the members are smaller than the node, so the law holds of them already
              obtain ⟨j, rest, hrest⟩ := address_of_mem_listVisits (fun n hn a i p w hw => by
                have := size_lt_of_mem_memberNodes hm hn
                exact address_of_mem_visits hw) hv
              exact ⟨j :: rest, hrest⟩
        · simp at hv
  | _ =>
      obtain rfl := List.mem_singleton.1 hv
      exact ⟨[], by simp⟩
termination_by node.size

/-- A node is visited before what is below it, and nothing below it has an address as short. -/
theorem visits_eq_cons (address : List Nat) (indent path : Text) (node : Json) :
    ∃ below, visits address indent path node = ⟨address, indent, path, node⟩ :: below ∧
      ∀ v ∈ below, address.length < v.address.length := by
  cases node with
  | object fields =>
      refine ⟨_, visits_object address indent path fields, ?_⟩
      intro v hv
      split at hv
      · obtain ⟨j, rest, hrest⟩ :=
          address_of_mem_listVisits (fun _ _ _ _ _ _ hw => address_of_mem_visits hw) hv
        rw [hrest]
        simp
      · simp at hv
  | _ => exact ⟨[], rfl, by simp⟩

/-- The visits of the members of a list, those of one member apart. -/
theorem listVisits_getElem? {nodes : List Json} {node : Json} {i : Nat} (hi : nodes[i]? = some node)
    (address : List Nat) (indent path : Text) (k : Nat) :
    ∃ before after, listVisits address indent path k nodes =
      before ++ visits (address ++ [k + i]) indent path node ++ after := by
  induction nodes generalizing i k with
  | nil => simp at hi
  | cons n nodes ih =>
      cases i with
      | zero =>
          obtain rfl : n = node := by simpa using hi
          exact ⟨[], listVisits address indent path (k + 1) nodes, by simp [listVisits]⟩
      | succ i =>
          obtain ⟨before, after, heq⟩ := ih (by simpa using hi) (k + 1)
          refine ⟨visits (address ++ [k]) indent path n ++ before, after, ?_⟩
          rw [listVisits, heq, Nat.add_assoc, Nat.add_comm 1 i]
          simp

/-! ## The part of a node -/

/-- Behind the visit come those of the nodes below it, and then others. -/
def Visit.LeadsTo (v : Visit) (after : List Visit) : Prop :=
  ∃ below rest, visits v.address v.indent v.path v.node = v :: below ∧ after = below ++ rest

theorem Visit.LeadsTo.append {v : Visit} {after : List Visit} (h : v.LeadsTo after)
    (later : List Visit) : v.LeadsTo (after ++ later) := by
  obtain ⟨below, rest, hvisits, rfl⟩ := h
  exact ⟨below, rest ++ later, hvisits, List.append_assoc _ _ _⟩

/-- The list companion of `leadsTo_of_visits`. -/
theorem leadsTo_of_listVisits {nodes : List Json}
    (h : ∀ node ∈ nodes, ∀ address indent path before v after,
      visits address indent path node = before ++ v :: after → v.LeadsTo after)
    {address : List Nat} {indent path : Text} {i : Nat} {before after : List Visit} {v : Visit}
    (hsplit : listVisits address indent path i nodes = before ++ v :: after) : v.LeadsTo after := by
  induction nodes generalizing i before with
  | nil => simp [listVisits] at hsplit
  | cons node nodes ih =>
      have hlater : ∀ before, listVisits address indent path (i + 1) nodes = before ++ v :: after →
          v.LeadsTo after := by
        intro before
        exact ih fun n hn => h n (List.mem_cons_of_mem _ hn)
      rw [listVisits] at hsplit
      rcases List.append_eq_append_iff.1 hsplit with ⟨part, rfl, hpart⟩ | ⟨part, hpart, hafter⟩
      -- the visit is one of those of a later member
      · exact hlater part hpart
      · cases part with
        | nil => exact hlater [] hafter.symm
        -- or of this one, and those of the later members come behind it
        | cons w part =>
            obtain ⟨rfl, rfl⟩ := List.cons.inj hafter
            exact (h node List.mem_cons_self _ _ _ _ _ _ hpart).append _

/-- Behind a visit come those of the nodes below it. -/
theorem leadsTo_of_visits {address : List Nat} {indent path : Text} {node : Json}
    {before after : List Visit} {v : Visit}
    (hsplit : visits address indent path node = before ++ v :: after) : v.LeadsTo after := by
  cases before with
  | nil =>
      obtain ⟨below, hvisits, -⟩ := visits_eq_cons address indent path node
      obtain ⟨rfl, rfl⟩ := List.cons.inj (hvisits.symm.trans hsplit)
      exact ⟨below, [], hvisits, by simp⟩
  | cons first before =>
      cases node with
      | object fields =>
          rw [visits_object] at hsplit
          obtain ⟨-, hbelow⟩ := List.cons.inj hsplit
          split at hbelow
          · cases hm : memberNodes fields with
            | error e => simp [hm, Except.toOption, listVisits] at hbelow
            | ok nodes =>
                rw [hm] at hbelow
                -- the visit is below the node, and the law holds of its members already
                refine leadsTo_of_listVisits (fun n hn a i p b w c hw => ?_) hbelow
                have := size_lt_of_mem_memberNodes hm hn
                exact leadsTo_of_visits hw
          · simp at hbelow
      | _ => simp [visits] at hsplit
termination_by node.size

/-- What the writer logs for a node stands in its log as one piece, as soon as it has come to the
node. -/
theorem log_writeNode_of_visit {address : List Nat} {indent path : Text} {node : Json}
    {before after : List Visit} {v : Visit}
    (hsplit : visits address indent path node = before ++ v :: after)
    (hreached : ∀ w ∈ before, w.writeSelf.result = .ok ()) :
    ∃ rest, (writeNode indent path node).log = (before.flatMap fun w => w.writeSelf.log) ++
      ((writeNode v.indent v.path v.node).log ++ rest) := by
  obtain ⟨below, rest, hvisits, rfl⟩ := leadsTo_of_visits hsplit
  have hcompleted : (Trace.each Visit.writeSelf before).result = .ok () :=
    Trace.result_each_eq_ok.2 hreached
  rw [writeNode_eq_each address, hsplit, Trace.each_append, Trace.log_bind hcompleted,
    Trace.log_each hreached, ← List.cons_append, ← hvisits, Trace.each_append,
    ← writeNode_eq_each v.address]
  -- behind the node the run goes on, or it has ended there
  cases hresult : (writeNode v.indent v.path v.node).result with
  | ok _ => exact ⟨_, by rw [Trace.log_bind hresult]⟩
  | error e =>
      refine ⟨[], ?_⟩
      rw [Trace.bind_eq, Trace.bind, hresult, List.append_nil]

/-! ## Modules -/

/-- The node of a visit in a file: the members of the module stand after an empty line. -/
def Visit.write (v : Visit) : Writing Unit := do
  if v.address.length = 1 then Stub.write (lit "\n")
  v.writeSelf

/-- What a visit logs: the members of the module come after an empty line. -/
theorem log_write (v : Visit) :
    v.write.log = (if v.address.length = 1 then [.write (lit "\n")] else []) ++ v.writeSelf.log := by
  rw [Visit.write]
  split
  · simp [write]
  · simp

theorem result_write (v : Visit) : v.write.result = v.writeSelf.result := by
  rw [Visit.write]
  split
  · simp [write]
  · simp

/-- The head of a file, and a look at the members. -/
def writeHead (data : Json) : Writing Unit := do
  let type ← (data.index (lit "type") : Except Fault Json)
  if !type.isStr (lit "module") then Trace.fail (.violated .isModule)
  let name ← (data.index (lit "name") : Except Fault Json)
  let doc ← (data.fieldOr (lit "doc") (.str []) : Except Fault Json)
  write (moduleHead name doc)
  let _ ← (data.fieldOr (lit "members") (.list []) >>= Json.elements : Except Fault (List Json))

/-- The members of a module. -/
def topNodes (data : Json) : List Json :=
  (data.fieldOr (lit "members") (.list []) >>= Json.elements).toOption.getD []

/-- The path of a module in warnings. -/
def modulePath (data : Json) : Text := ((data.index (lit "name")).toOption.getD .null).display

/-- The nodes of a module that the writer comes to, in order. -/
def moduleVisits (data : Json) : List Visit :=
  listVisits [] [] (modulePath data) 0 (topNodes data)

theorem topNodes_object {fields : Record Json} {members : List Json}
    (h : (Record.get? (lit "members") fields).getD (.list []) = .list members) :
    topNodes (.object fields) = members := by
  simp [topNodes, Json.fieldOr, h, bind, Except.bind, Json.elements, Except.toOption]

theorem each_write_eq {vs : List Visit} (h : ∀ v ∈ vs, v.address.length ≠ 1) :
    Trace.each Visit.write vs = Trace.each Visit.writeSelf vs := by
  induction vs with
  | nil => rfl
  | cons v vs ih =>
      have hv : v.write = v.writeSelf := by
        rw [Visit.write, if_neg (h v List.mem_cons_self)]
      rw [Trace.each_cons, Trace.each_cons, hv, ih fun w hw => h w (List.mem_cons_of_mem _ hw)]

theorem writeTopNode_eq_each (path : Text) (i : Nat) (node : Json) :
    writeTopNode path node = Trace.each Visit.write (visits [i] [] path node) := by
  obtain ⟨below, hvisits, hbelow⟩ := visits_eq_cons [i] [] path node
  -- only the node itself has an address of one index, so only it comes after an empty line
  have htail : Trace.each Visit.write below = Trace.each Visit.writeSelf below :=
    each_write_eq fun v hv h => by
      have := hbelow v hv
      simp [h] at this
  rw [writeTopNode, writeNode_eq_each [i], hvisits, Trace.each_cons, Trace.each_cons, htail,
    ← bind_assoc]
  rfl

theorem each_writeTopNode (path : Text) (i : Nat) (nodes : List Json) :
    Trace.each (writeTopNode path) nodes =
      Trace.each Visit.write (listVisits [] [] path i nodes) := by
  induction nodes generalizing i with
  | nil => rfl
  | cons node nodes ih =>
      rw [Trace.each_cons, listVisits, Trace.each_append, writeTopNode_eq_each path i, ih (i + 1)]
      rfl

/-- A file is its head and what the visits of its module write, one after the other. -/
theorem writeModule_eq_each (data : Json) :
    writeModule data = (writeHead data >>= fun _ => Trace.each Visit.write (moduleVisits data)) := by
  rw [writeModule, writeHead, moduleVisits, ← each_writeTopNode, modulePath, topNodes]
  -- both sides read the same fields in the same order, and stop where the first one is missing
  cases data.index (lit "type") with
  | error e => rfl
  | ok type =>
      cases htype : type.isStr (lit "module") with
      | false => simp [htype]
      | true =>
          cases data.index (lit "name") with
          | error e => simp [htype]
          | ok name =>
              cases data.fieldOr (lit "doc") (.str []) with
              | error e => simp [htype]
              | ok doc =>
                  cases data.fieldOr (lit "members") (.list []) >>= Json.elements with
                  | error e => simp [htype, write]
                  | ok nodes => simp [htype, write, Except.toOption]

/-- A file that was written: its head, and what each visit writes. -/
theorem writeModule_completed {data : Json} (h : (writeModule data).result = .ok ()) :
    (∀ v ∈ moduleVisits data, v.write.result = .ok ()) ∧
      (writeModule data).log =
        (writeHead data).log ++ (moduleVisits data).flatMap fun v => v.write.log := by
  rw [writeModule_eq_each] at h ⊢
  obtain ⟨_, hhead, heach⟩ := Trace.result_bind_eq_ok.1 h
  have hall := Trace.result_each_eq_ok.1 heach
  exact ⟨hall, by rw [Trace.log_bind hhead, Trace.log_each hall]⟩

end Stub

end ModuleStubs
