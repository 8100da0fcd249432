import ModuleStubs.Proofs.Json.Fields
import ModuleStubs.Proofs.Stub.Visits

/-!
# The bodies of classes

The header of a class or a type has to be followed by a body, a line that is indented once more. The
writer puts one there, a docstring, a member or `pass`, with one exception: it leaves `pass` out as soon
as there are members, and there are members that nothing is written for. A class is hollow if it has no
doc, and members of this kind only (`isHollow`); a member that cannot be written ends the run, and
nothing is written for those behind it. The body of a hollow class is empty, and every other body starts
with the indent of its header and a tab (`body_of_header`). Hollow classes occur (`hollow_body`).
-/

set_option autoImplicit false

namespace ModuleStubs

namespace Stub

/-! ## Members without a text -/

/-- The types of nodes that are written, or refused, whether or not they have a value. -/
def writtenTypes : List Text :=
  [lit "module", lit "type", lit "class", lit "function", lit "instancemethod", lit "property"]

/-- Nothing is written for the node, and the run goes on. -/
def isSilent : Json → Bool
  | .object fields =>
    match Record.get? (lit "type") fields, Record.get? (lit "name") fields with
    | some type, some _ =>
      !writtenTypes.any type.isStr && (Record.get? (lit "value") fields).isNone
    | _, _ => false
  | _ => false

/-- Nothing is written for the node, and the run ends there: it has no type or no name, it is a module,
or it is a function whose parameters cannot be read. -/
def isMute : Json → Bool
  | .object fields =>
    match Record.get? (lit "type") fields, Record.get? (lit "name") fields with
    | some type, some _ =>
      type.isStr (lit "module") || (type.isStr (lit "function") && !(readHead false fields).isOk) ||
        (type.isStr (lit "instancemethod") && !(readHead true fields).isOk)
    | _, _ => true
  | _ => true

/-- Nothing is written for the nodes. -/
def unwritten : List Json → Bool
  | [] => true
  | node :: nodes => isMute node || (isSilent node && unwritten nodes)

/-- The fields are those of a class without a body. -/
def isHollow (fields : Record Json) : Bool :=
  (Record.get? (lit "doc") fields).isNone &&
    match memberNodes fields with
    | .ok nodes => !nodes.isEmpty && unwritten nodes
    | .error _ => true

/-- The header of a class or a type. -/
def containerHeader (indent : Text) (name : Json) (fields : Record Json) : Text :=
  if (Record.get? (lit "type") fields).any (Json.isStr · (lit "type")) then typeHeader indent name
  else classHeader indent name

/-- What follows the header of a class or a type. -/
def writeBody (indent path : Text) (name : Json) (fields : Record Json) : Writing Unit := do
  let documented ← writeDoc indent fields
  let populated ← writeMembers (indent ++ tab) (path ++ lit "." ++ name.display) fields
  if !documented && !populated then write (passLine indent)

/-- What a run writes stays in front of what a run behind it writes. -/
theorem fileText_bind {α β : Type} (x : Writing α) (f : α → Writing β) :
    fileText x.log <+: fileText (x >>= f).log := by
  obtain ⟨log, result⟩ := x
  cases result with
  | error e => exact List.prefix_rfl
  | ok a =>
      rw [Trace.bind_ok, fileText, fileText, List.flatMap_append]
      exact List.prefix_append _ _

/-- A run that writes nothing leaves the text to the run behind it. -/
theorem fileText_bind_of_nil {log : List Emission} (h : fileText log = []) (f : Unit → Writing Unit) :
    fileText ((⟨log, .ok ()⟩ : Writing Unit) >>= f).log = fileText (f ()).log := by
  rw [Trace.bind_ok, fileText, List.flatMap_append, ← fileText, ← fileText, h, List.nil_append]

/-! ## Single nodes -/

/-- A class or a type has a name, and one of two types. -/
theorem containerName?_eq_some {fields : Record Json} {name : Json}
    (h : containerName? fields = some name) :
    ∃ type, Record.get? (lit "type") fields = some type ∧ Record.get? (lit "name") fields = some name ∧
      (type = .str (lit "type") ∨ type = .str (lit "class")) := by
  rw [containerName?] at h
  split at h
  · contradiction
  · rename_i type htype
    split at h
    · rename_i hcontainer
      refine ⟨type, htype, h, ?_⟩
      rcases Bool.or_eq_true_iff.1 hcontainer with ht | ht
      · exact Or.inl (Json.eq_str_of_isStr ht)
      · exact Or.inr (Json.eq_str_of_isStr ht)
    · contradiction

/-- A class or a type: its header, and then its body. -/
theorem writeNode_container {fields : Record Json} {name : Json}
    (h : containerName? fields = some name) (indent path : Text) :
    writeNode indent path (.object fields) =
      (write (containerHeader indent name fields) >>= fun _ => writeBody indent path name fields) := by
  obtain ⟨type, htype, hname, hkind⟩ := containerName?_eq_some h
  have hindex : (Json.object fields).index (lit "type") = .ok type := by simp [Json.index, htype]
  rw [writeNode, hindex, Trace.liftM_ok, pure_bind, hname, containerHeader, htype]
  rcases hkind with rfl | rfl
  · rfl
  · rfl

/-- A node that is neither a class nor a type is written without members. -/
theorem writeNode_of_not_container {fields : Record Json} (h : containerName? fields = none)
    (indent path : Text) :
    writeNode indent path (.object fields) = writeSelf indent path (.object fields) := by
  rw [writeNode_object, h]
  exact bind_pure_unit

/-- What the writer does about a node: it stops at once, it passes it over, or it writes a text that
starts with the indent. -/
inductive Outcome (indent : Text) (node : Json) (run : Writing Unit) : Prop
  | stops (hmute : isMute node = true) {e : Fault} (hrun : run = ⟨[], .error e⟩)
  | passes (hmute : isMute node = false) (hsilent : isSilent node = true) {log : List Emission}
      (htext : fileText log = []) (hrun : run = ⟨log, .ok ()⟩)
  | writes (hmute : isMute node = false) (hsilent : isSilent node = false)
      (hindent : indent <+: fileText run.log)

theorem prefix_containerHeader (indent : Text) (name : Json) (fields : Record Json) :
    indent <+: containerHeader indent name fields := by
  rw [containerHeader]
  split
  · simp [typeHeader]
  · simp [classHeader]

theorem prefix_propertyLines (indent : Text) (name : Json) :
    indent <+: propertyLines indent name := by
  delta propertyLines
  simp only [List.append_assoc]
  exact List.prefix_append _ _

theorem outcome_function {fields : Record Json} {isMethod : Bool} {indent : Text} {name : Json}
    (hmute : isMute (.object fields) = !(readHead isMethod fields).isOk)
    (hsilent : isSilent (.object fields) = false) :
    Outcome indent (.object fields) (writeFunction indent isMethod name fields) := by
  rcases writeFunction_cases indent isMethod name fields with ⟨e, hhead, hrun⟩ |
    ⟨parameters, comment, rest, hhead, hrun⟩
  · rw [hhead] at hmute
    exact .stops hmute hrun
  · rw [hhead] at hmute
    refine .writes hmute hsilent ?_
    rw [hrun]
    simp [functionHeader]

theorem outcome_other {fields : Record Json} {indent path : Text} {name type : Json}
    (hmute : isMute (.object fields) = false)
    (hsilent : isSilent (.object fields) =
      (!type.isStr (lit "property") && (Record.get? (lit "value") fields).isNone)) :
    Outcome indent (.object fields) (writeOther indent path name type fields) := by
  rw [writeOther]
  cases hvalue : Record.get? (lit "value") fields with
  | some value =>
      rw [hvalue, Option.isNone_some, Bool.and_false] at hsilent
      exact .writes hmute hsilent (by simp [write, constantLine])
  | none =>
      rw [hvalue, Option.isNone_none, Bool.and_true] at hsilent
      dsimp only
      split
      · rename_i hproperty
        rw [hproperty] at hsilent
        exact .writes hmute hsilent ((prefix_propertyLines indent name).trans (List.prefix_append _ _))
      · rename_i hproperty
        rw [Bool.eq_false_iff.2 hproperty] at hsilent
        -- with or without a warning, which is no part of the file
        split
        · exact .passes hmute hsilent rfl rfl
        · exact .passes hmute hsilent rfl rfl

/-- A node with a type and a name that is neither a class nor a type, by its type. -/
theorem outcome_of_fields {fields : Record Json} {type name : Json}
    (htype : Record.get? (lit "type") fields = some type)
    (hname : Record.get? (lit "name") fields = some name)
    (hcontainer : (type.isStr (lit "type") || type.isStr (lit "class")) = false)
    (indent path : Text) :
    Outcome indent (.object fields) (writeSelf indent path (.object fields)) := by
  obtain ⟨hplain, hclass⟩ := Bool.or_eq_false_iff.1 hcontainer
  rw [writeSelf_of_fields htype hname, hcontainer]
  -- the types in the order in which the writer looks for them
  by_cases hmodule : type.isStr (lit "module") = true
  · rw [if_pos hmodule]
    exact .stops (by simp [isMute, htype, hname, hmodule]) rfl
  by_cases hfunction : type.isStr (lit "function") = true
  · have hmethod : type.isStr (lit "instancemethod") = false := Json.isStr_ne hfunction (by decide)
    rw [if_neg hmodule, if_neg (by simp), if_pos hfunction]
    exact outcome_function (by simp [isMute, htype, hname, hmodule, hfunction, hmethod])
      (by simp [isSilent, htype, hname, writtenTypes, hfunction])
  by_cases hmethod : type.isStr (lit "instancemethod") = true
  · rw [if_neg hmodule, if_neg (by simp), if_neg hfunction, if_pos hmethod]
    exact outcome_function (by simp [isMute, htype, hname, hmodule, hfunction, hmethod])
      (by simp [isSilent, htype, hname, writtenTypes, hmethod])
  · rw [if_neg hmodule, if_neg (by simp), if_neg hfunction, if_neg hmethod]
    refine outcome_other ?_ ?_
    · simp [isMute, htype, hname, hmodule, hfunction, hmethod]
    · simp [isSilent, htype, hname, writtenTypes, hmodule, hplain, hclass, hfunction, hmethod]

theorem writeSelf_untyped {fields : Record Json} (h : Record.get? (lit "type") fields = none)
    (indent path : Text) :
    writeSelf indent path (.object fields) = ⟨[], .error (.missingKey (lit "type"))⟩ := by
  simp [writeSelf, Json.index, h]

theorem writeSelf_unnamed {fields : Record Json} {type : Json}
    (htype : Record.get? (lit "type") fields = some type)
    (hname : Record.get? (lit "name") fields = none) (indent path : Text) :
    writeSelf indent path (.object fields) =
      if type.isStr (lit "module") then Trace.fail (.violated .isNoModule)
      else Trace.fail (.violated .isNamed) := by
  have hindex : (Json.object fields).index (lit "type") = .ok type := by simp [Json.index, htype]
  rw [writeSelf, hindex, Trace.liftM_ok, pure_bind, hname]

/-- What the writer does about a node follows from its fields. -/
theorem outcome_writeNode (indent path : Text) (node : Json) :
    Outcome indent node (writeNode indent path node) := by
  cases node with
  | object fields =>
      cases hcontainer : containerName? fields with
      | some name =>
          obtain ⟨type, htype, hname, hkind⟩ := containerName?_eq_some hcontainer
          rw [writeNode_container hcontainer]
          have hheader : indent <+: fileText (write (containerHeader indent name fields)).log :=
            (prefix_containerHeader indent name fields).trans (List.prefix_append _ _)
          refine .writes ?_ ?_ (hheader.trans (fileText_bind _ _))
          · rcases hkind with rfl | rfl <;> rw [isMute, htype, hname] <;> rfl
          · rcases hkind with rfl | rfl <;> rw [isSilent, htype, hname] <;> rfl
      | none =>
          rw [writeNode_of_not_container hcontainer]
          cases htype : Record.get? (lit "type") fields with
          | none => exact .stops (by simp [isMute, htype]) (writeSelf_untyped htype indent path)
          | some type =>
              cases hname : Record.get? (lit "name") fields with
              | none =>
                  -- a module is refused first, but nothing is written for it either
                  have hmute : isMute (.object fields) = true := by simp [isMute, htype, hname]
                  rw [writeSelf_unnamed htype hname]
                  split
                  · exact .stops hmute rfl
                  · exact .stops hmute rfl
              | some name =>
                  have hneither : (type.isStr (lit "type") || type.isStr (lit "class")) = false := by
                    simpa [containerName?, htype, hname] using hcontainer
                  exact outcome_of_fields htype hname hneither indent path
  | _ => exact .stops rfl rfl

/-! ## Lists of nodes -/

theorem fileText_writeNodes {nodes : List Json} (h : unwritten nodes = true) (indent path : Text) :
    fileText (writeNodes indent path nodes).log = [] := by
  induction nodes with
  | nil => rfl
  | cons node nodes ih =>
      rw [writeNodes]
      rcases outcome_writeNode indent path node with ⟨hmute, hrun⟩ | ⟨hmute, hsilent, htext, hrun⟩ |
        ⟨hmute, hsilent, _⟩
      -- the run ends here, or it goes on to the later nodes
      · rw [hrun]
        rfl
      · rw [unwritten, hmute, hsilent, Bool.false_or, Bool.true_and] at h
        rw [hrun, fileText_bind_of_nil htext]
        exact ih h
      · simp [unwritten, hmute, hsilent] at h

theorem prefix_writeNodes {nodes : List Json} (h : unwritten nodes = false) (indent path : Text) :
    indent <+: fileText (writeNodes indent path nodes).log := by
  induction nodes with
  | nil => contradiction
  | cons node nodes ih =>
      rw [writeNodes]
      rcases outcome_writeNode indent path node with ⟨hmute, _⟩ | ⟨hmute, hsilent, htext, hrun⟩ |
        ⟨_, _, hindent⟩
      · simp [unwritten, hmute] at h
      -- nothing is written for this node, so the text is that of the later ones
      · rw [unwritten, hmute, hsilent, Bool.false_or, Bool.true_and] at h
        rw [hrun, fileText_bind_of_nil htext]
        exact ih h
      · exact hindent.trans (fileText_bind _ _)

/-! ## Bodies -/

theorem prefix_docLine (indent : Text) (doc : Json) : indent ++ tab <+: docLine indent doc := by
  rw [docLine, List.append_assoc, List.append_assoc, List.prefix_append_right_inj]
  exact ⟨lit "\"\"\" " ++ (doc.display ++ lit " \"\"\"\n"), rfl⟩

theorem prefix_passLine (indent : Text) : indent ++ tab <+: passLine indent := by
  rw [passLine, List.prefix_append_right_inj]
  exact ⟨lit "pass\n", rfl⟩

/-- A body without a docstring consists of the members, if there are any. -/
theorem log_writeBody {fields : Record Json} {nodes : List Json}
    (hdoc : Record.get? (lit "doc") fields = none) (hnodes : memberNodes fields = .ok nodes)
    (hne : nodes ≠ []) (indent path : Text) (name : Json) :
    (writeBody indent path name fields).log =
      (writeNodes (indent ++ tab) (path ++ lit "." ++ name.display) nodes).log := by
  have hpopulated : (!nodes.isEmpty) = true := by simpa using hne
  simp only [writeBody, writeDoc, hdoc, pure_bind, writeMembers_eq, hnodes, Trace.liftM_ok, bind_assoc,
    hpopulated]
  exact congrArg Trace.log bind_pure_unit

theorem fileText_writeBody {fields : Record Json} (h : isHollow fields = true) (indent path : Text)
    (name : Json) : fileText (writeBody indent path name fields).log = [] := by
  rw [isHollow, Bool.and_eq_true, Option.isNone_iff_eq_none] at h
  obtain ⟨hdoc, hnodes⟩ := h
  cases hm : memberNodes fields with
  | error e =>
      simp [writeBody, writeDoc, hdoc, writeMembers_eq, hm, fileText]
  | ok nodes =>
      rw [hm] at hnodes
      obtain ⟨hne, hunwritten⟩ := Bool.and_eq_true_iff.1 hnodes
      rw [log_writeBody hdoc hm (by simpa using hne)]
      exact fileText_writeNodes hunwritten _ _

theorem prefix_writeBody {fields : Record Json} (h : isHollow fields = false) (indent path : Text)
    (name : Json) : indent ++ tab <+: fileText (writeBody indent path name fields).log := by
  cases hdoc : Record.get? (lit "doc") fields with
  | some doc =>
      have hline : indent ++ tab <+: fileText (writeDoc indent fields).log := by
        rw [writeDoc, hdoc]
        exact (prefix_docLine indent doc).trans (List.prefix_append _ _)
      exact hline.trans (fileText_bind _ _)
  | none =>
      rw [isHollow, hdoc, Option.isNone_none, Bool.true_and] at h
      cases hm : memberNodes fields with
      | error e => simp [hm] at h
      | ok nodes =>
          simp only [hm] at h
          by_cases hne : nodes = []
          · subst hne
            have hlog : (writeBody indent path name fields).log = [.write (passLine indent)] := by
              simp [writeBody, writeDoc, hdoc, writeMembers_eq, hm, writeNodes, write]
            rw [hlog, fileText_write]
            exact (prefix_passLine indent).trans (List.prefix_append _ _)
          · rw [log_writeBody hdoc hm hne]
            refine prefix_writeNodes ?_ _ _
            simpa [hne] using h

/-- **Every class that is not hollow has a body.** When the writer comes to a class or a type, it writes
the header and then the body: a text that is indented once more than the header, or nothing if the class
is hollow. -/
theorem body_of_header {indent path : Text} {tree : Json} {before after : List Visit} {v : Visit}
    {fields : Record Json} {name : Json}
    (hvisits : visits [] indent path tree = before ++ v :: after)
    (hreached : ∀ w ∈ before, w.writeSelf.result = .ok ())
    (hnode : v.node = .object fields) (hcontainer : containerName? fields = some name) :
    ∃ body rest,
      (writeNode v.indent v.path v.node).log = .write (containerHeader v.indent name fields) :: body ∧
      (writeNode indent path tree).log = (before.flatMap fun w => w.writeSelf.log) ++
        .write (containerHeader v.indent name fields) :: (body ++ rest) ∧
      (isHollow fields = false → v.indent ++ tab <+: fileText body) ∧
      (isHollow fields = true → fileText body = []) := by
  have hlog : (writeNode v.indent v.path v.node).log =
      .write (containerHeader v.indent name fields) :: (writeBody v.indent v.path name fields).log := by
    rw [hnode, writeNode_container hcontainer]
    rfl
  obtain ⟨rest, hrest⟩ := log_writeNode_of_visit hvisits hreached
  refine ⟨(writeBody v.indent v.path name fields).log, rest, hlog, ?_, ?_, ?_⟩
  · rw [hrest, hlog, List.cons_append]
  · intro hfilled
    exact prefix_writeBody hfilled v.indent v.path name
  · intro hhollow
    exact fileText_writeBody hhollow v.indent v.path name

/-- A class with a slot, for which nothing is written, and then an empty type. -/
def outerFields : Record Json :=
  [(lit "name", .str (lit "Outer")), (lit "type", .str (lit "class")), (lit "members", .list
    [.object [(lit "name", .str (lit "slot")), (lit "type", .str (lit "member_descriptor"))],
     .object [(lit "name", .str (lit "Inner")), (lit "type", .str (lit "type"))]])]

theorem body_of_header_inner :
    ∃ body rest,
      (writeNode tab (lit "M.Outer") (.object [(lit "name", .str (lit "Inner")),
        (lit "type", .str (lit "type"))])).log = .write (lit "\tclass Inner :\n") :: body ∧
      (writeNode [] (lit "M") (.object outerFields)).log =
        [.write (lit "class Outer( object ) :\n")] ++ .write (lit "\tclass Inner :\n") :: (body ++ rest) ∧
      tab ++ tab <+: fileText body := by
  let slot : Visit := ⟨[0], tab, lit "M.Outer",
    .object [(lit "name", .str (lit "slot")), (lit "type", .str (lit "member_descriptor"))]⟩
  let inner : Visit := ⟨[1], tab, lit "M.Outer",
    .object [(lit "name", .str (lit "Inner")), (lit "type", .str (lit "type"))]⟩
  have hvisits : visits [] [] (lit "M") (.object outerFields) =
      [⟨[], [], lit "M", .object outerFields⟩, slot] ++ inner :: [] := rfl
  have hreached : ∀ w ∈ [⟨[], [], lit "M", .object outerFields⟩, slot],
      w.writeSelf.result = .ok () := by
    intro w hw
    rcases List.mem_cons.1 hw with rfl | hw
    · rfl
    · obtain rfl := List.mem_singleton.1 hw
      rfl
  obtain ⟨body, rest, hlog, hrun, hfilled, -⟩ := body_of_header hvisits hreached rfl rfl
  exact ⟨body, rest, hlog, hrun, hfilled rfl⟩

/-- **A class without a body.** A class whose one member is a slot wrapper for its constructor: the run
ends as it should, and the file has the header and nothing else. -/
theorem hollow_body :
    (writeNode [] (lit "M") (.object [(lit "name", .str (lit "A")), (lit "type", .str (lit "class")),
      (lit "members", .list [.object [(lit "name", .str (lit "__init__")),
        (lit "type", .str (lit "wrapper_descriptor"))]])])) =
      ⟨[.write (lit "class A( object ) :\n")], .ok ()⟩ := rfl

end Stub

end ModuleStubs
