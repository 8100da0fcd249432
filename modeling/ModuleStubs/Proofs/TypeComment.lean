import ModuleStubs.Proofs.Annotation.Functions
import ModuleStubs.Proofs.Signature.Declaration
import ModuleStubs.Proofs.Stub.Comment

/-!
# From a declaration in a doc to a type comment

The doc of a function may start with its declaration. Annotating the skeleton moves the declaration
to a signature, and the stub file shows the signature as a type comment below the header of the
function. `typeComment_of_declaration` follows a declaration all the way: each parameter has its
type in the comment, in order, and nothing else is there.
-/

set_option autoImplicit false

namespace ModuleStubs

namespace Signature

/-- A doc that starts with a declaration. -/
def declaredDoc (returned name : Text) (ps : List Parameter) (text : Text) : Text :=
  declaration returned name ps ++ lit " - " ++ text

variable {returned name : Text} {ps : List Parameter}

theorem hyphen_not_mem_declaration (hr : isTypeWord returned = true) (hn : isIdentifier name = true)
    (hps : ∀ p ∈ ps, p.isPlain = true) : CodePoint.ofChar '-' ∉ declaration returned name ps := by
  have hreturned : CodePoint.ofChar '-' ∉ returned := not_mem_of_isTypeWord hr (by decide)
  have hname : CodePoint.ofChar '-' ∉ name := not_mem_of_isIdentifier hn (by decide)
  have hparameters : CodePoint.ofChar '-' ∉ parameterTexts ps :=
    not_mem_parameterTexts hps (by decide) (by decide) (by decide)
  simp [declaration, lit, hreturned, hname, hparameters]

/-- A declaration starts with its first word and ends with a parenthesis. -/
theorem strip_declaration (hr : isTypeWord returned = true) :
    Text.strip (declaration returned name ps ++ lit " ") = declaration returned name ps := by
  have hself : Text.strip (declaration returned name ps) = declaration returned name ps := by
    apply Text.strip_eq_self
    · intro c hc
      cases returned with
      | nil => exact absurd rfl (ne_nil_of_isTypeWord hr)
      | cons d r =>
          obtain rfl : d = c := by simpa [declaration] using hc
          exact isBlank_of_isTypePoint (isTypePoint_of_mem hr _ List.mem_cons_self)
    · intro c hc
      obtain rfl : CodePoint.ofChar ')' = c := by
        rw [declaration, show lit ")" = [CodePoint.ofChar ')'] from rfl,
          List.getLast?_concat] at hc
        exact Option.some.inj hc
      decide
  have hspace : lit " " = [CodePoint.ofChar ' '] := rfl
  rw [hspace, Text.strip_append_of_isBlank (by decide), hself]

end Signature

namespace Annotator

open Signature

/-- The first hyphen of the doc stands behind the declaration. -/
theorem docPart_declared {returned name : Text} {ps : List Parameter}
    (hr : isTypeWord returned = true) (hn : isIdentifier name = true)
    (hps : ∀ p ∈ ps, p.isPlain = true) (text : Text) :
    docPart (declaredDoc returned name ps text) = declaration returned name ps := by
  have hhyphen : CodePoint.ofChar '-' ∉ declaration returned name ps ++ lit " " := by
    have := hyphen_not_mem_declaration hr hn hps
    simp [lit, this]
  have hparts : declaredDoc returned name ps text =
      (declaration returned name ps ++ lit " ") ++ CodePoint.ofChar '-' :: (lit " " ++ text) := by
    simp [declaredDoc, lit]
  rw [docPart, hparts, Text.cutFirst_eq_some _ hhyphen]
  exact strip_declaration hr

/-- The signature that is read from a doc with a declaration. -/
theorem readDoc_declared {a : Annotator} (hctx : a.context.IgnoresSpaced) {python : Text → Text}
    {path returned name : Text} {ps : List Parameter} (hpath : Text.lastPiece '.' path = name)
    (hn : isIdentifier name = true) (hr : isTypeWord returned = true)
    (hpr : a.context.translate false returned = .ok (some (python returned)))
    (hps : ∀ p ∈ ps,
      p.isPlain = true ∧ a.context.translate false p.type = .ok (some (python p.type)))
    {text : Text} {result : Option (Signature × Text)}
    (hres : (a.readDoc path (.str (declaredDoc returned name ps text))).result = .ok result) :
    ∃ s rest, result = some (s, rest) ∧ s.returnType = some (python returned) ∧
      s.arguments.map Argument.main? = ps.map fun p => some (python p.type) := by
  have hplain : ∀ p ∈ ps, p.isPlain = true := fun p hp => (hps p hp).1
  rw [readDoc_str, docPart_declared hr hn hplain] at hres
  obtain ⟨found, hfound, hres⟩ := Trace.result_bind_eq_ok.1 hres
  obtain ⟨s, rfl, hreturned, harguments⟩ := read_declaration hctx hpath hn hr hpr hps hfound
  exact ⟨s, _, (Except.ok.inj hres).symm, hreturned, harguments⟩

end Annotator

/-! ## Where functions are written -/

namespace Stub

/-- The visits of a module, those of one member apart. -/
theorem moduleVisits_getElem? {data node : Json} {items : List Json} {i : Nat}
    (hitems : data.field? (lit "members") = some (.list items)) (hi : items[i]? = some node) :
    ∃ before after, moduleVisits data =
      before ++ visits [i] [] (modulePath data) node ++ after := by
  have htop : topNodes data = items := by
    obtain ⟨fields, rfl⟩ := Json.eq_object_of_field? hitems
    rw [Json.field?_object] at hitems
    exact topNodes_object (by rw [hitems]; rfl)
  obtain ⟨before, after, heq⟩ := listVisits_getElem? hi [] [] (modulePath data) 0
  exact ⟨before, after, by rw [moduleVisits, htop, heq, List.nil_append, Nat.zero_add]⟩

/-- The visits of a class: the class, and then those of its members. -/
theorem visits_class {cls name : Json} {members : List Json}
    (htype : cls.field? (lit "type") = some (.str (lit "class")))
    (hname : cls.field? (lit "name") = some name)
    (hmembers : cls.field? (lit "members") = some (.list members))
    (address : List Nat) (indent path : Text) :
    visits address indent path cls = ⟨address, indent, path, cls⟩ ::
      listVisits address (indent ++ tab) (path ++ lit "." ++ name.display) 0 members := by
  obtain ⟨fields, rfl⟩ := Json.eq_object_of_field? htype
  rw [Json.field?_object] at htype hname hmembers
  have hcontainer : containerName? fields = some name := by
    simp [containerName?, htype, hname, Json.isStr]
  have hnodes : memberNodes fields = .ok members := by simp [memberNodes, hmembers]
  rw [visits_object, hcontainer, hnodes]
  rfl

/-- A function of a skeleton has a visit, with its address. -/
theorem exists_visit {data node : Json} {address : List Nat} {path : Text}
    (hat : FunctionAt data address path node) :
    ∃ before v after, moduleVisits data = before ++ v :: after ∧ v.address = address ∧
      v.node = node := by
  cases hat with
  | @function m f items i _ hmodule hitems hi htype hname =>
      obtain ⟨before, after, heq⟩ := moduleVisits_getElem? hitems hi
      obtain ⟨below, hvisits, -⟩ := visits_eq_cons [i] [] (modulePath data) node
      refine ⟨before, ⟨[i], [], modulePath data, node⟩, below ++ after, ?_, rfl, rfl⟩
      rw [heq, hvisits]
      simp
  | @method m c f items methods i j cls _ hmodule hitems hi hclass hcname hmethods hj htype hname =>
      obtain ⟨before, after, heq⟩ := moduleVisits_getElem? hitems hi
      have hcls := visits_class hclass hcname hmethods [i] [] (modulePath data)
      obtain ⟨before', after', heq'⟩ := listVisits_getElem? hj [i] ([] ++ tab)
        (modulePath data ++ lit "." ++ (Json.str c).display) 0
      obtain ⟨below, hvisits, -⟩ := visits_eq_cons [i, j] ([] ++ tab)
        (modulePath data ++ lit "." ++ (Json.str c).display) node
      rw [Nat.zero_add, List.singleton_append, hvisits] at heq'
      refine ⟨before ++ ⟨[i], [], modulePath data, cls⟩ :: before', ⟨[i, j], [] ++ tab,
        modulePath data ++ lit "." ++ (Json.str c).display, node⟩, below ++ after' ++ after, ?_,
        rfl, rfl⟩
      rw [heq, hcls, heq']
      simp

/-- A function of a skeleton is written as a function. -/
theorem writeSelf_function {data node : Json} {address : List Nat} {path f : Text}
    (hat : FunctionAt data address path node)
    (hname : node.field? (lit "name") = some (.str f)) (indent parent : Text) :
    ∃ isMethod fields, node = .object fields ∧
      writeSelf indent parent node = writeFunction indent isMethod (.str f) fields := by
  obtain ⟨fields, rfl⟩ := Json.eq_object_of_field? hname
  rw [Json.field?_object] at hname
  cases hat with
  | function _ _ _ htype _ =>
      refine ⟨false, fields, rfl, ?_⟩
      apply writeSelf_of_function _ hname
      exact htype
  | method _ _ _ _ _ _ _ htype _ =>
      refine ⟨true, fields, rfl, ?_⟩
      apply writeSelf_of_function _ hname
      exact htype

/-- What a function with a signature writes: its header, its type comment and its body. -/
theorem log_writeFunction {isMethod : Bool} {fields : Record Json} {parameters : List Text}
    {c : Comment} (h : readHead isMethod fields = .ok (parameters, some c)) (indent : Text)
    (name : Json) :
    ∃ body, (writeFunction indent isMethod name fields).log =
      [.write (functionHeader indent name parameters),
        .write (typeComment indent c.types c.returned), .write body] := by
  rw [writeFunction, h]
  cases hdoc : Record.get? (lit "doc") fields with
  | none => exact ⟨passLine indent, by simp [write]⟩
  | some doc =>
      exact ⟨if doc.truthy then docLine indent doc else passLine indent, by simp [write]⟩

end Stub

/-! ## The whole way -/

open Annotator Stub Signature

/-- The path of a function ends in its name. -/
theorem FunctionAt.lastPiece_path {data node : Json} {address : List Nat} {path f : Text}
    (hat : FunctionAt data address path node)
    (hname : node.field? (lit "name") = some (.str f)) (hf : isIdentifier f = true) :
    Text.lastPiece '.' path = f := by
  have hdot : CodePoint.ofChar '.' ∉ f := not_mem_of_isIdentifier hf (by decide)
  have hlast : ∀ p : Text, Text.lastPiece '.' (p ++ lit "." ++ f) = f := by
    intro p
    have := Text.lastPiece_append p hdot
    simpa [lit] using this
  cases hat with
  | function _ _ _ _ hf' =>
      obtain rfl := Json.str.inj (Option.some.inj (hf'.symm.trans hname))
      exact hlast _
  | method _ _ _ _ _ _ _ _ hf' =>
      obtain rfl := Json.str.inj (Option.some.inj (hf'.symm.trans hname))
      exact hlast _

/-- The signature that the annotation of a function with a declaration stores, where no override is
for the function. -/
theorem signature_of_declaration {a : Annotator} (hctx : a.context.IgnoresSpaced)
    {python : Text → Text} {path returned f text : Text} {ps : List Parameter} {node : Json}
    (hpath : Text.lastPiece '.' path = f) (hf : isIdentifier f = true)
    (hdoc : node.field? (lit "doc") = some (.str (declaredDoc returned f ps text)))
    (hr : isTypeWord returned = true)
    (hpr : a.context.translate false returned = .ok (some (python returned)))
    (hps : ∀ p ∈ ps,
      p.isPlain = true ∧ a.context.translate false p.type = .ok (some (python p.type)))
    (hoverrides : ∀ o ∈ a.overrides, o.rule.isFor path = false)
    (h : (Progress.run (a.functionChanges path) node).failure = none) :
    ∃ s : Signature,
      (Progress.run (a.functionChanges path) node).value.field? (lit "signature") = some s.toJson ∧
      s.returnType = some (python returned) ∧
      s.arguments.map Argument.main? = ps.map fun p => some (python p.type) := by
  obtain ⟨node', hnode', hothers, hvalue⟩ := functionChanges_completed h
  -- the overrides leave alone what the change from the doc stores
  have hkept : (Progress.run (a.overrideChanges path) node').value = node' := by
    refine overrideChanges_invariant (P := fun n => n = node') ?_ rfl hothers
    rintro o ho i n n' rfl hn'
    exact annotateFromOverride_of_not_isFor (hoverrides o ho) hn'
  rw [hvalue, hkept]
  rcases annotateFromDoc_completed hnode' with ⟨rfl, hnone⟩ | ⟨doc, s, rest, hdoc', hread, rfl⟩
  -- a declaration is always read, so the doc cannot have been left as it was
  · obtain ⟨s, rest, hs, -⟩ := readDoc_declared hctx hpath hf hr hpr hps (hnone _ hdoc)
    simp at hs
  · obtain rfl := Option.some.inj (hdoc'.symm.trans hdoc)
    obtain ⟨s', rest', hs, hreturned, harguments⟩ :=
      readDoc_declared hctx hpath hf hr hpr hps hread
    obtain ⟨rfl, rfl⟩ := Prod.mk.inj (Option.some.inj hs)
    refine ⟨s, ?_, hreturned, harguments⟩
    rw [Json.field?_withField_of_ne (by decide), withSignature]
    exact Json.field?_withField_self hdoc _ _

/-- Arguments with a main type show it. -/
theorem map_shown? {arguments : List Argument} {types : List Text}
    (h : arguments.map Argument.main? = types.map some) :
    arguments.map Argument.shown? = types.map some := by
  rw [← h]
  refine List.map_congr_left fun a ha => ?_
  have hmem : a.main? ∈ types.map some := h ▸ List.mem_map_of_mem ha
  obtain ⟨t, -, ht⟩ := List.mem_map.1 hmem
  cases htype : a.type with
  | none => simp [Argument.main?, htype] at ht
  | some types => simp [Argument.shown?, Argument.main?, htype]

/-- **From a declaration to a type comment.** A function whose doc starts with a declaration, and
that no override is for, has its header in the stub file followed by the comment with the types of
the declaration: those of all parameters in order, and the type returned. -/
theorem typeComment_of_declaration {config data name node : Json} {verbosity : Int} {a : Annotator}
    {address : List Nat} {path f returned text : Text} {ps : List Parameter} {python : Text → Text}
    (hprep : prepare config verbosity data = .ok (name, a))
    (hannotated : (annotate config verbosity data).failure = none)
    (hwritten : (writeModule (annotate config verbosity data).value).result = .ok ())
    (hat : FunctionAt data address path node)
    (hname : node.field? (lit "name") = some (.str f)) (hf : isIdentifier f = true)
    (hdoc : node.field? (lit "doc") = some (.str (declaredDoc returned f ps text)))
    (hr : isTypeWord returned = true)
    (hpr : a.context.translate false returned = .ok (some (python returned)))
    (hps : ∀ p ∈ ps,
      p.isPlain = true ∧ a.context.translate false p.type = .ok (some (python p.type)))
    (hoverrides : ∀ o ∈ a.overrides, o.rule.isFor path = false)
    (hctx : a.context.IgnoresSpaced) :
    ∃ before v after parameters body,
      moduleVisits (annotate config verbosity data).value = before ++ v :: after ∧
      v.address = address ∧
      v.write.log = (if address.length = 1 then [.write (lit "\n")] else []) ++
        [.write (functionHeader v.indent (.str f) parameters),
         .write (v.indent ++ lit "\t# type: (" ++
           Text.join (lit ", ") (ps.map fun p => python p.type) ++ lit ") -> " ++ python returned ++
           lit "\n"),
         .write body] ∧
      (writeModule (annotate config verbosity data).value).log =
        (writeHead (annotate config verbosity data).value).log ++
          before.flatMap (fun u => u.write.log) ++ v.write.log ++
          after.flatMap fun u => u.write.log := by
  obtain ⟨hchanged, hat'⟩ := hat.annotated hprep hannotated
  obtain ⟨s, hs, hreturned, harguments⟩ := signature_of_declaration hctx
    (hat.lastPiece_path hname hf) hf hdoc hr hpr hps hoverrides hchanged
  obtain ⟨before, v, after, hvisits, haddress, hnode⟩ := exists_visit hat'
  obtain ⟨-, hlog⟩ := writeModule_completed hwritten
  -- the annotation leaves the name, by which the writer knows the function
  have hname' : (Progress.run (a.functionChanges path) node).value.field? (lit "name") =
      some (.str f) := by
    rw [field?_functionChanges (by decide) (by decide) hchanged, hname]
  obtain ⟨isMethod, fields, hfields, hself⟩ := writeSelf_function hat' hname' v.indent v.path
  rw [hfields, Json.field?_object] at hs
  -- an argument with a Python type shows it, so no `Any` takes its place
  have hshown : s.arguments.map Argument.shown? = (ps.map fun p => python p.type).map some := by
    apply map_shown?
    rw [harguments, List.map_map]
    rfl
  obtain ⟨parameters, hhead⟩ := readHead_toJson hshown hs isMethod
  obtain ⟨body, hbody⟩ := log_writeFunction hhead v.indent (.str f)
  refine ⟨before, v, after, parameters, body, hvisits, haddress, ?_, ?_⟩
  · rw [log_write, haddress, Visit.writeSelf, hnode, hself, hbody, hreturned]
    rfl
  · rw [hlog, hvisits]
    simp

/-- A method whose second parameter, type and name together, is the name of a built-in type. -/
def damageMethod : Json :=
  .object [(lit "name", .str (lit "changeDamage")), (lit "type", .str (lit "instancemethod")),
    (lit "doc", .str (lit "bool changeDamage(CyUnit* pUnit, unsigned int) - int (Damage)"))]

/-- A module with a class that has the method. -/
def damageModule : Json :=
  .object [(lit "name", .str (lit "Ext")), (lit "type", .str (lit "module")),
    (lit "members", .list [.object [(lit "name", .str (lit "CyUnit")),
      (lit "type", .str (lit "class")), (lit "members", .list [damageMethod])]])]

/-- A configuration with a signature for another function of the same name. -/
def damageConfig : Json :=
  .object [(lit "sig-overrides", .list [.object [(lit "path", .str (lit "Ext.changeDamage")),
    (lit "signature", .str (lit "void ()"))]])]

/-- The method's type comment: the word `unsigned` is the type and `int` the name. -/
theorem typeComment_of_changeDamage :
    ∃ before v after parameters body,
      moduleVisits (annotate damageConfig 0 damageModule).value = before ++ v :: after ∧
      v.address = [0, 0] ∧
      v.write.log =
        [.write (functionHeader v.indent (.str (lit "changeDamage")) parameters),
         .write (v.indent ++ lit "\t# type: (CyUnit, unsigned) -> bool\n"), .write body] ∧
      (writeModule (annotate damageConfig 0 damageModule).value).log =
        (writeHead (annotate damageConfig 0 damageModule).value).log ++
          before.flatMap (fun u => u.write.log) ++ v.write.log ++
          after.flatMap fun u => u.write.log := by
  let context : TypeContext := { custom := [lit "CyUnit"] }
  let python : Text → Text := fun t => if t = lit "CyUnit*" then lit "CyUnit" else t
  let ps : List Parameter := [⟨lit "CyUnit*", lit "pUnit"⟩, ⟨lit "unsigned", lit "int"⟩]
  have hprep : prepare damageConfig 0 damageModule = .ok (.str (lit "Ext"),
      ⟨context, [⟨.exact (lit "Ext.changeDamage"), .str (lit "void ()")⟩], 0⟩) := rfl
  have hat : FunctionAt damageModule [0, 0] (lit "Ext" ++ lit "." ++ lit "CyUnit" ++ lit "." ++
      lit "changeDamage") damageMethod := .method rfl rfl rfl rfl rfl rfl rfl rfl rfl
  have hps : ∀ p ∈ ps, p.isPlain = true ∧ context.translate false p.type =
      .ok (some (python p.type)) := by
    intro p hp
    rcases List.mem_cons.1 hp with rfl | hp
    · exact ⟨by decide, rfl⟩
    · obtain rfl := List.mem_singleton.1 hp
      exact ⟨by decide, rfl⟩
  have hoverrides : ∀ o ∈ [(⟨.exact (lit "Ext.changeDamage"), .str (lit "void ()")⟩ :
      SignatureOverride)], o.rule.isFor (lit "Ext" ++ lit "." ++ lit "CyUnit" ++ lit "." ++
      lit "changeDamage") = false := by
    intro o ho
    obtain rfl := List.mem_singleton.1 ho
    decide
  have hannotated : (annotate damageConfig 0 damageModule).failure = none := by decide +kernel
  have hwritten : (writeModule (annotate damageConfig 0 damageModule).value).result = .ok () := by
    decide +kernel
  have hf : isIdentifier (lit "changeDamage") = true := by decide
  have hdoc : damageMethod.field? (lit "doc") = some (.str (declaredDoc (lit "bool")
      (lit "changeDamage") ps (lit "int (Damage)"))) := rfl
  have hr : isTypeWord (lit "bool") = true := by decide
  have hpr : context.translate false (lit "bool") = .ok (some (python (lit "bool"))) := rfl
  have hctx : context.IgnoresSpaced := by simp [TypeContext.IgnoresSpaced, context]
  obtain ⟨before, v, after, parameters, body, hvisits, haddress, hlog, hfile⟩ :=
    typeComment_of_declaration hprep hannotated hwritten hat rfl hf hdoc hr hpr hps hoverrides hctx
  have hline : v.indent ++ lit "\t# type: (" ++ Text.join (lit ", ")
      (ps.map fun p => python p.type) ++ lit ") -> " ++ python (lit "bool") ++ lit "\n" =
      v.indent ++ lit "\t# type: (CyUnit, unsigned) -> bool\n" := by
    simp only [List.append_assoc]
    rfl
  rw [hline] at hlog
  exact ⟨before, v, after, parameters, body, hvisits, haddress, hlog, hfile⟩

end ModuleStubs
