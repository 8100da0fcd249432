import ModuleStubs.Proofs.Annotation.Candidates

/-!
# Overrides that are not used

`functionPaths` are the paths of the functions of a module and of the methods of its classes. In an
annotation that completes, an override is used exactly if it is for one of these paths and has a
signature to give (`Uses`, `uses_annotatedMembers`). Uses are told apart by the index of the override,
so of several overrides that are equal, or for the same path, each one is credited with its own.

The report at the end of an annotation names the others, in the order of the configuration, and it is
the last thing that is printed (`annotate_reports_unused`). An override with null in the place of its
signature is for its path and yet never used (`unused_despite_path`).
-/

set_option autoImplicit false

namespace ModuleStubs

namespace Json

/-- The items of the list of members. -/
def memberItems (node : Json) : List Json :=
  match node.field? (lit "members") with
  | some (.list items) => items
  | _ => []

/-- The node is of a type. -/
def hasType (type : Text) (node : Json) : Bool := (node.field? (lit "type")).any (isStr · type)

/-- The path of a node of a type inside a parent. -/
def pathsOfType (type : Text) (parent node : Json) : List Text :=
  if node.hasType type then
    match parent, node.field? (lit "name") with
    | .str p, some (.str name) => [p ++ lit "." ++ name]
    | _, _ => []
  else []

/-- The paths of the functions that a member of a module is or has: its own, if it is a function, and
those of its methods, if it is a class. -/
def memberPaths (moduleName member : Json) : List Text :=
  pathsOfType (lit "function") moduleName member ++
    (pathsOfType (lit "class") moduleName member).flatMap fun path =>
      member.memberItems.flatMap (pathsOfType (lit "instancemethod") (.str path))

/-- The paths of the functions of a module and of the methods of its classes. -/
def functionPaths (data : Json) : List Text :=
  (data.field? (lit "name")).toList.flatMap fun name => data.memberItems.flatMap (memberPaths name)

theorem pathsOfType_of_ne {type : Text} {parent node : Json} (h : node.hasType type = false) :
    pathsOfType type parent node = [] := by
  simp [pathsOfType, h]

theorem pathsOfType_eq {type p f : Text} {node : Json} (h : node.hasType type = true)
    (hname : node.field? (lit "name") = some (.str f)) :
    pathsOfType type (.str p) node = [p ++ lit "." ++ f] := by
  simp [pathsOfType, h, hname]

theorem hasType_of_index {node v : Json} (h : node.index (lit "type") = .ok v) (type : Text) :
    node.hasType type = v.isStr type := by
  rw [hasType, index_eq_ok_iff.1 h]
  rfl

end Json

namespace Annotator

variable {a : Annotator} {path : Text} {node : Json} {verbosity : Int}

/-! ## Uses -/

/-- The log is that of functions with these paths, on each of which the overrides were tried: it has
the uses of the overrides that gave something to one of them. -/
structure Uses (a : Annotator) (paths : List Text) (notes : List Note) : Prop where
  settles : ∀ path ∈ paths, ∀ o ∈ a.overrides, a.Settles path o
  used : ∀ i, i ∈ Note.usedIndices notes ↔
    ∃ o, a.overrides[i]? = some o ∧ ∃ path ∈ paths, (o.given? path).isSome = true

theorem uses_nil {notes : List Note} (h : ∀ note ∈ notes, ∃ m, note = .message m) :
    Uses a [] notes := by
  have hnil : Note.usedIndices notes = [] := by
    refine List.filterMap_eq_nil_iff.2 fun note hnote => ?_
    obtain ⟨m, rfl⟩ := h note hnote
    rfl
  exact ⟨by simp, by simp [hnil]⟩

theorem uses_flatMap {α : Type} {xs : List α} {paths : α → List Text} {notes : α → List Note}
    (h : ∀ x ∈ xs, Uses a (paths x) (notes x)) :
    Uses a (xs.flatMap paths) (xs.flatMap notes) := by
  refine ⟨?_, fun i => ?_⟩
  · intro path hpath
    obtain ⟨x, hx, hpath⟩ := List.mem_flatMap.1 hpath
    exact (h x hx).settles path hpath
  · have hmem : i ∈ Note.usedIndices (xs.flatMap notes) ↔
        ∃ x ∈ xs, i ∈ Note.usedIndices (notes x) := by
      rw [Note.usedIndices, List.filterMap_flatMap, List.mem_flatMap]
      rfl
    rw [hmem]
    constructor
    · rintro ⟨x, hx, hi⟩
      obtain ⟨o, ho, path, hpath, hgiven⟩ := ((h x hx).used i).1 hi
      exact ⟨o, ho, path, List.mem_flatMap.2 ⟨x, hx, hpath⟩, hgiven⟩
    · rintro ⟨o, ho, path, hpath, hgiven⟩
      obtain ⟨x, hx, hpath⟩ := List.mem_flatMap.1 hpath
      exact ⟨x, hx, ((h x hx).used i).2 ⟨o, ho, path, hpath, hgiven⟩⟩

theorem uses_functionChanges (h : (Progress.run (a.functionChanges path) node).failure = none) :
    Uses a [path] (Progress.run (a.functionChanges path) node).log := by
  have hvisited := visited_run h
  refine ⟨by simpa using hvisited.settles, fun i => ?_⟩
  rw [hvisited.used, List.mem_filterMap]
  constructor
  · rintro ⟨⟨o, j⟩, hmem, hgiven⟩
    obtain ⟨v, hv, rfl⟩ := Option.map_eq_some_iff.1 hgiven
    exact ⟨o, List.mk_mem_zipIdx_iff_getElem?.1 hmem, path, by simp, by rw [hv]; rfl⟩
  · rintro ⟨o, ho, p, hp, hgiven⟩
    obtain rfl := List.mem_singleton.1 hp
    obtain ⟨v, hv⟩ := Option.isSome_iff_exists.1 hgiven
    exact ⟨(o, i), List.mk_mem_zipIdx_iff_getElem?.2 ho, by rw [hv]; rfl⟩

/-- A function uses the overrides that give something to its path. -/
theorem uses_annotateFunction {parent : Json} {type : Text} (htype : node.hasType type = true)
    (h : (a.annotateFunction parent node).failure = none) :
    Uses a (Json.pathsOfType type parent node) (a.annotateFunction parent node).log := by
  rw [annotateFunction] at h ⊢
  cases hpath : childPath parent node with
  | error e => simp [hpath, Progress.stopped] at h
  | ok path =>
      simp only [hpath] at h ⊢
      obtain ⟨p, f, rfl, hname, rfl⟩ := childPath_eq_ok hpath
      rw [Json.pathsOfType_eq htype hname]
      exact uses_functionChanges h

/-- The members of a node use what each of them uses. -/
theorem uses_annotateMembers {change : Change} {paths : Json → List Text}
    (hstr : ∀ t, paths (.str t) = [])
    (hchange : ∀ x, (change x).failure = none → Uses a (paths x) (change x).log)
    (h : (annotateMembers change node).failure = none) :
    Uses a (node.memberItems.flatMap paths) (annotateMembers change node).log := by
  rcases annotateMembers_completed h with
    ⟨items, hitems, hall⟩ | ⟨v, parts, hv, hlist, hparts, hall, heq⟩
  · rw [annotateMembers_list hitems hall, Json.memberItems, hitems]
    exact uses_flatMap fun x hx => hchange x (hall x hx)
  · -- other values have texts for parts, and a text has no path
    have hitems : node.memberItems = [] := by
      rw [Json.memberItems, hv]
      cases v with
      | list items => exact absurd rfl hlist
      | _ => rfl
    have hnone : parts.flatMap paths = [] := by
      refine List.flatMap_eq_nil_iff.2 fun x hx => ?_
      obtain ⟨t, rfl⟩ :=
        Json.eq_str_of_mem_elements (fun items hv => hlist (by rw [hv]; rfl)) hparts hx
      exact hstr t
    rw [heq, hitems, List.flatMap_nil, ← hnone]
    exact uses_flatMap fun x hx => hchange x (hall x hx)

theorem uses_ignoreMember (parent : Text) (type : Json) :
    Uses a [] (Progress.step (ignoreMember verbosity parent type) node).log := by
  refine uses_nil (Progress.forall_mem_log_step ?_)
  rw [ignoreMember]
  split
  · simp
  · exact Trace.forall_mem_log_bind (by simp) fun name => by simp

theorem uses_shortenType (moduleName : Json) :
    Uses a [] (Progress.step (shortenType moduleName) node).log := by
  refine uses_nil (Progress.forall_mem_log_step (Trace.forall_mem_log_bind (by simp) fun type => ?_))
  refine Trace.forall_mem_log_bind (by simp) fun name => ?_
  split <;> simp

theorem uses_annotateClassMember
    (h : (a.annotateClassMember path node).failure = none) :
    Uses a (Json.pathsOfType (lit "instancemethod") (.str path) node)
      (a.annotateClassMember path node).log := by
  rw [annotateClassMember] at h ⊢
  cases htype : node.index (lit "type") with
  | error e => simp [htype, Progress.stopped] at h
  | ok type =>
      simp only [htype] at h ⊢
      have hhas := Json.hasType_of_index htype (lit "instancemethod")
      split at h
      · rename_i hmethod
        rw [if_pos hmethod]
        exact uses_annotateFunction (hhas.trans hmethod) h
      · rename_i hmethod
        rw [if_neg hmethod, Json.pathsOfType_of_ne (hhas.trans (Bool.eq_false_iff.2 hmethod))]
        split
        · exact uses_nil (by simp [Progress.done])
        · exact uses_ignoreMember path type

theorem uses_annotateClass {parent : Json} (htype : node.hasType (lit "class") = true)
    (h : (a.annotateClass parent node).failure = none) :
    Uses a ((Json.pathsOfType (lit "class") parent node).flatMap fun path =>
        node.memberItems.flatMap (Json.pathsOfType (lit "instancemethod") (.str path)))
      (a.annotateClass parent node).log := by
  rw [annotateClass] at h ⊢
  cases hpath : childPath parent node with
  | error e => simp [hpath, Progress.stopped] at h
  | ok path =>
      simp only [hpath] at h ⊢
      obtain ⟨p, f, rfl, hname, rfl⟩ := childPath_eq_ok hpath
      rw [Json.pathsOfType_eq htype hname, List.flatMap_singleton]
      exact uses_annotateMembers (fun t => rfl) (fun x hx => uses_annotateClassMember hx) h

/-- A member of a module uses the overrides that give something to a path of its functions. -/
theorem uses_annotateMember {name : Json}
    (h : (a.annotateMember name node).failure = none) :
    Uses a (Json.memberPaths name node) (a.annotateMember name node).log := by
  rw [annotateMember] at h ⊢
  cases htype : node.index (lit "type") with
  | error e => simp [htype, Progress.stopped] at h
  | ok type =>
      simp only [htype] at h ⊢
      have hhas := Json.hasType_of_index htype
      rw [Json.memberPaths]
      split at h
      · rename_i hclass
        have hfunction : node.hasType (lit "function") = false :=
          (hhas _).trans (Json.isStr_ne hclass (by decide))
        rw [if_pos hclass, Json.pathsOfType_of_ne hfunction, List.nil_append]
        exact uses_annotateClass ((hhas _).trans hclass) h
      · rename_i hclass
        have hclass' : node.hasType (lit "class") = false :=
          (hhas _).trans (Bool.eq_false_iff.2 hclass)
        rw [if_neg hclass, Json.pathsOfType_of_ne hclass', List.flatMap_nil, List.append_nil]
        split at h
        · rename_i hkind
          have hfunction : node.hasType (lit "function") = false :=
            (hhas _).trans (Json.isStr_ne hkind (by decide))
          have hnone : node.memberItems.flatMap (fun _ => ([] : List Text)) = [] :=
            List.flatMap_eq_nil_iff.2 fun _ _ => rfl
          rw [if_pos hkind, Json.pathsOfType_of_ne hfunction, ← hnone]
          exact uses_annotateMembers (fun t => rfl) (fun x _ => uses_shortenType _) h
        · rename_i hkind
          rw [if_neg hkind]
          split at h
          · rename_i hfunction
            rw [if_pos hfunction]
            exact uses_annotateFunction ((hhas _).trans hfunction) h
          · rename_i hfunction
            rw [if_neg hfunction,
              Json.pathsOfType_of_ne ((hhas _).trans (Bool.eq_false_iff.2 hfunction))]
            split
            · exact uses_nil (by simp [Progress.done])
            · exact uses_ignoreMember _ type

/-- The members of a module use the overrides that give something to a path of its functions. -/
theorem uses_annotatedMembers {data name : Json} (hname : data.field? (lit "name") = some name)
    (h : (a.annotatedMembers data name).failure = none) :
    Uses a data.functionPaths (a.annotatedMembers data name).log := by
  rw [Json.functionPaths, hname, Option.toList_some, List.flatMap_singleton]
  refine uses_annotateMembers (fun t => ?_) (fun x hx => uses_annotateMember hx) h
  rfl

/-! ## The report -/

/-- The override is for none of the paths, or it has no signature to give to them. -/
def isIdle (paths : List Text) (o : SignatureOverride) : Bool :=
  o.signature.kind == .null || paths.all fun path => !o.rule.isFor path

theorem log_reportUnused {used : List Nat} : ∀ {os : List SignatureOverride} {k : Nat},
    (reportUnused used k os).result = .ok () →
      (reportUnused used k os).log = ((os.zipIdx k).filter fun t => !used.contains t.2).map fun t =>
        .message (unusedOverride t.1)
  | [], _, _ => rfl
  | o :: os, k, h => by
      rw [reportUnused] at h ⊢
      obtain ⟨⟨⟩, hhash, h⟩ := Trace.result_bind_eq_ok.1 h
      rw [Trace.log_bind hhash, List.zipIdx_cons, List.filter_cons]
      dsimp only at h ⊢
      split at h
      · rename_i hunused
        obtain ⟨⟨⟩, -, h⟩ := Trace.result_bind_eq_ok.1 h
        rw [if_pos hunused, if_pos hunused, List.map_cons, ← log_reportUnused h]
        rfl
      · rename_i hunused
        rw [if_neg hunused, if_neg hunused, ← log_reportUnused h]
        rfl

/-- An override has no use in the log exactly if it is idle. -/
theorem Uses.contains_usedIndices {paths : List Text} {notes : List Note} (h : Uses a paths notes)
    {o : SignatureOverride} {i : Nat} (ho : a.overrides[i]? = some o) :
    (Note.usedIndices notes).contains i = !isIdle paths o := by
  have hgiven : ∀ path ∈ paths, ((o.given? path).isSome = true ↔
      o.rule.isFor path = true ∧ o.signature.kind ≠ .null) := fun path hpath =>
    (h.settles path hpath o (List.mem_of_getElem? ho)).isSome_given?
  have hidle : isIdle paths o = false ↔
      ∃ path ∈ paths, o.rule.isFor path = true ∧ o.signature.kind ≠ .null := by
    simp only [isIdle, Bool.or_eq_false_iff, beq_eq_false_iff_ne, List.all_eq_false,
      Bool.not_eq_true, Bool.not_eq_false']
    constructor
    · rintro ⟨hnull, path, hpath, hfor⟩
      exact ⟨path, hpath, hfor, hnull⟩
    · rintro ⟨path, hpath, hfor, hnull⟩
      exact ⟨hnull, path, hpath, hfor⟩
  rw [Bool.eq_iff_iff, List.contains_iff_mem, h.used i, Bool.not_eq_true', hidle]
  constructor
  · rintro ⟨o', ho', path, hpath, hsome⟩
    obtain rfl := Option.some.inj (ho.symm.trans ho')
    exact ⟨path, hpath, (hgiven path hpath).1 hsome⟩
  · rintro ⟨path, hpath, hfor⟩
    exact ⟨o, ho, path, hpath, (hgiven path hpath).2 hfor⟩

/-- The report names the idle overrides in their order. -/
theorem Uses.messages_unusedReport {paths : List Text} {notes : List Note} (h : Uses a paths notes)
    (hreport : (a.unusedReport notes).result = .ok ()) :
    Note.messages (a.unusedReport notes).log =
      (a.overrides.filter (isIdle paths)).map unusedOverride := by
  -- whether an index was used depends on the override that stands there
  have hfilter : (a.overrides.zipIdx.filter fun t => !(Note.usedIndices notes).contains t.2) =
      a.overrides.zipIdx.filter fun t => isIdle paths t.1 := by
    refine List.filter_congr fun t ht => ?_
    rw [h.contains_usedIndices (List.mk_mem_zipIdx_iff_getElem?.1 ht), Bool.not_not]
  have hfst : (a.overrides.zipIdx.filter fun t => isIdle paths t.1).map Prod.fst =
      a.overrides.filter (isIdle paths) := by
    rw [← Function.comp_def, ← List.filter_map, List.zipIdx_map_fst]
  rw [unusedReport, log_reportUnused hreport, hfilter, ← hfst, List.map_map, Note.messages,
    List.filterMap_map]
  exact congrFun List.filterMap_eq_map _

theorem overrides_of_ofConfig {config data : Json} (h : ofConfig config verbosity data = .ok a) :
    readSignatureOverrides config = .ok a.overrides := by
  obtain ⟨overrides, hoverrides, h⟩ := except_bind_eq_ok.1 h
  obtain ⟨⟨⟩, -, h⟩ := except_bind_eq_ok.1 h
  obtain ⟨context, -, h⟩ := except_bind_eq_ok.1 h
  obtain rfl := Except.ok.inj h
  exact hoverrides

/-- **Unused overrides.** An annotation that completes ends with one warning for each override of the
configuration that is for none of the functions of the module, or that has null in the place of its
signature, in the order of the configuration and at every verbosity. No other line that it prints is
such a warning. -/
theorem annotate_reports_unused {config data : Json}
    (hok : (annotate config verbosity data).failure = none) :
    ∃ overrides before,
      readSignatureOverrides (if config.kind = .null then .object [] else config) = .ok overrides ∧
      printed (annotate config verbosity data) =
        before ++ (overrides.filter (isIdle data.functionPaths)).map unusedOverride ∧
      ∀ m ∈ before, m.isUnusedWarning = false := by
  obtain ⟨name, a, hprep, hmembers, hreport⟩ := annotate_completed hok
  obtain ⟨-, hname, hconfig⟩ := prepare_eq_ok hprep
  refine ⟨a.overrides, a.messagesBefore data name, overrides_of_ofConfig hconfig, ?_,
    not_unused_of_mem_messagesBefore⟩
  rw [printed, messages_annotate hprep hmembers hreport,
    (uses_annotatedMembers hname hmembers).messages_unusedReport hreport]

/-- A module with a function and with a class of one method. -/
def moveModule : Json :=
  .object [(lit "name", .str (lit "Ext")), (lit "type", .str (lit "module")), (lit "members", .list
    [.object [(lit "name", .str (lit "kill")), (lit "type", .str (lit "function"))],
     .object [(lit "name", .str (lit "CyUnit")), (lit "type", .str (lit "class")),
      (lit "members", .list
        [.object [(lit "name", .str (lit "move")), (lit "type", .str (lit "instancemethod"))]])]])]

/-- The configuration with an override for a path. -/
def overrideItem (path : String) (signature : Json) : Json :=
  .object [(lit "path", .str (lit path)), (lit "signature", signature)]

/-- Two equal overrides for the function, two equal ones for no function, and a pattern for the method
with a signature that cannot be read. -/
def moveConfig : Json :=
  .object [(lit "sig-overrides", .list
    [overrideItem "Ext.kill" (.str (lit "bool ()")), overrideItem "Ext.heal" (.str (lit "void ()")),
     overrideItem "Ext.kill" (.str (lit "bool ()")), overrideItem "Ext.heal" (.str (lit "void ()")),
     .object [(lit "pathPattern", .str (lit "Ext\\.CyUnit\\..*")),
      (lit "signature", .str (lit "int ("))]])]

theorem annotate_reports_unused_move :
    (annotate moveConfig 0 moveModule).failure = none ∧
    ∃ before, printed (annotate moveConfig 0 moveModule) = before ++ List.replicate 2
      (lit "WARNING: signature override SigOverride(path='Ext.heal', newSig='void ()') unused!") := by
  have hok : (annotate moveConfig 0 moveModule).failure = none := by decide +kernel
  obtain ⟨overrides, before, hread, hprinted, -⟩ := annotate_reports_unused hok
  have htexts : (readSignatureOverrides (if moveConfig.kind = .null then .object [] else moveConfig)).map
      (fun os => (os.filter (isIdle moveModule.functionPaths)).map unusedOverride) =
      .ok (List.replicate 2
        (lit "WARNING: signature override SigOverride(path='Ext.heal', newSig='void ()') unused!")) := by
    decide +kernel
  rw [hread] at htexts
  exact ⟨hok, _, hprinted.trans (congrArg _ (Except.ok.inj htexts))⟩

/-- **Null for a signature.** The override is for the path of the function, and the warning says that it
is unused. -/
theorem unused_despite_path :
    let config : Json := .object [(lit "sig-overrides", .list [overrideItem "Ext.kill" .null])]
    (annotate config 0 moveModule).failure = none ∧
    lit "Ext.kill" ∈ moveModule.functionPaths ∧
    readSignatureOverrides config = .ok [⟨.exact (lit "Ext.kill"), .null⟩] ∧
    (PathRule.exact (lit "Ext.kill")).isFor (lit "Ext.kill") = true ∧
    printed (annotate config 0 moveModule) =
      [lit "WARNING: signature override SigOverride(path='Ext.kill', newSig=None) unused!"] := by
  refine ⟨by decide +kernel, by decide +kernel, rfl, by decide +kernel, by decide +kernel⟩

end Annotator

end ModuleStubs
