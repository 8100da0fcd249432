import ModuleStubs.Proofs.Annotation.Frame
import ModuleStubs.Proofs.Annotation.MemberOrder
import ModuleStubs.Proofs.Signature.Scalar

/-!
# Annotated skeletons can be restored

An annotation reads a skeleton and a configuration. If the skeleton can be written to a file and read
again, and the configuration has no half of a surrogate pair in its texts, then the annotated skeleton can
be written and read again too (`isRestorable_annotate`), however far the annotation got.

What is written into a node is a signature, a piece of a doc, a piece of a type or a list of members.
Each of them can be restored, so a node can be after each single write; runs and walks follow by
induction over the changes.
-/

set_option autoImplicit false

namespace ModuleStubs

namespace Json

/-! ## Values -/

/-- Writing a field keeps a value restorable. -/
theorem isRestorable_withField {v w : Json} {key : Text} (hv : v.isRestorable = true)
    (hkey : key.isScalar = true) (hw : w.isRestorable = true) :
    (v.withField key w).isRestorable = true := by
  cases v with
  | object fields =>
      obtain ⟨hnodup, hkeys, hvalues⟩ := isRestorable_object.1 hv
      rw [withField_object, isRestorable_object]
      refine ⟨Record.nodup_keys_set hnodup key w, ?_, ?_⟩
      · intro k hk
        obtain ⟨f, hf, rfl⟩ := List.mem_map.1 hk
        rcases Record.mem_of_mem_set hf with rfl | hold
        · exact hkey
        · exact hkeys f.1 (List.mem_map_of_mem hold)
      · intro f hf
        rcases Record.mem_of_mem_set hf with rfl | hold
        · exact hw
        · exact hvalues f hold
  | _ => exact hv

theorem isScalar_of_isRestorable {t : Text} (h : (Json.str t).isRestorable = true) :
    t.isScalar = true :=
  every_hasScalarTexts_str.1 (isRestorable_iff.1 h).1

end Json

/-- The signature that an override gives is its own, or its template filled with pieces of the path. -/
theorem SignatureOverride.every_hasScalarTexts_of_candidate? {o : SignatureOverride} {path : Text}
    {candidate : Json} (ho : o.signature.every Json.hasScalarTexts = true)
    (hpath : path.isScalar = true) (h : o.candidate? path = .ok (some candidate)) :
    candidate.every Json.hasScalarTexts = true := by
  rw [candidate?] at h
  split at h
  · split at h
    · have hsome := Except.ok.inj h
      split at hsome
      · contradiction
      · exact Option.some.inj hsome ▸ ho
    · cases Except.ok.inj h
  · split at h
    · cases Except.ok.inj h
    · rename_i groups hmatch
      obtain ⟨t, ht, heq⟩ := except_map_eq_ok.1 h
      obtain rfl := Option.some.inj heq
      have hgroups := Pattern.scalarArguments_of_fullMatch? hmatch hpath
      exact Json.every_hasScalarTexts_str.2 (Json.isScalar_of_fillTemplate ho hgroups ht)
  · contradiction

namespace Annotator

/-! ## Annotators -/

/-- No template and no signature of the configuration has half of a surrogate pair. -/
structure IsScalar (a : Annotator) : Prop where
  context : a.context.IsScalar
  overrides : ∀ o ∈ a.overrides, o.signature.every Json.hasScalarTexts = true

theorem signature_of_ofJson {item : Json} {o : SignatureOverride}
    (h : SignatureOverride.ofJson item = .ok o) : item.index (lit "signature") = .ok o.signature := by
  -- every way to a rule goes on with the signature
  have hlast : ∀ {rule : PathRule},
      (item.index (lit "signature") >>= fun s => pure ⟨rule, s⟩) = Except.ok o →
      item.index (lit "signature") = .ok o.signature := by
    intro rule hrule
    obtain ⟨s, hs, heq⟩ := except_bind_eq_ok.1 hrule
    obtain rfl := Except.ok.inj heq
    exact hs
  rw [SignatureOverride.ofJson] at h
  obtain ⟨hasPath, -, h⟩ := except_bind_eq_ok.1 h
  obtain ⟨hasPattern, -, h⟩ := except_bind_eq_ok.1 h
  dsimp only at h
  split at h
  · obtain ⟨hasBoth, -, h⟩ := except_bind_eq_ok.1 h
    split at h
    · obtain ⟨_, hthrow, -⟩ := except_bind_eq_ok.1 h
      contradiction
    · obtain ⟨rule, -, h⟩ := except_bind_eq_ok.1 h
      exact hlast h
  · split at h
    · obtain ⟨rule, -, h⟩ := except_bind_eq_ok.1 h
      exact hlast h
    · obtain ⟨_, hthrow, -⟩ := except_bind_eq_ok.1 h
      contradiction

/-- The overrides that are read one by one join those before them. -/
theorem mem_addOverrides {items : List Json} {ctx ctx' : TypeContext}
    (h : ctx.addOverrides items = (ctx', .ok ())) :
    ∀ o ∈ ctx'.overrides, o ∈ ctx.overrides ∨ ∃ item ∈ items, TypeOverride.ofJson item = .ok o := by
  fun_induction TypeContext.addOverrides ctx items with
  | case1 ctx =>
      obtain ⟨rfl, -⟩ := Prod.mk.inj h
      exact fun o ho => Or.inl ho
  | case2 ctx item items e he =>
      cases (Prod.mk.inj h).2
  | case3 ctx item items new hnew ih =>
      intro o ho
      rcases ih h o ho with hold | ⟨item', hitem', hread⟩
      · rcases List.mem_append.1 hold with hold | hlast
        · exact Or.inl hold
        · obtain rfl := List.mem_singleton.1 hlast
          exact Or.inr ⟨item, List.mem_cons_self, hnew⟩
      · exact Or.inr ⟨item', List.mem_cons_of_mem item hitem', hread⟩

theorem isScalar_of_readOverrides {config : Json} {ctx : TypeContext}
    (hconfig : config.every Json.hasScalarTexts = true)
    (h : TypeContext.readOverrides {} config = (ctx, .ok ())) : ctx.IsScalar := by
  rw [TypeContext.readOverrides] at h
  split at h
  · cases (Prod.mk.inj h).2
  · rename_i items hitems
    obtain ⟨list, hlist, helements⟩ := except_bind_eq_ok.1 hitems
    have hlist := Json.every_fieldOr hconfig rfl hlist
    intro o ho
    rcases mem_addOverrides h o ho with hnone | ⟨item, hitem, hread⟩
    · contradiction
    · have hitem := Json.every_hasScalarTexts_of_mem_elements hlist helements hitem
      -- both templates are fields of the item
      obtain ⟨_, -, hread⟩ := except_bind_eq_ok.1 hread
      obtain ⟨_, -, hread⟩ := except_bind_eq_ok.1 hread
      obtain ⟨main, hmain, hread⟩ := except_bind_eq_ok.1 hread
      obtain ⟨alternative, halternative, hread⟩ := except_bind_eq_ok.1 hread
      obtain ⟨_, -, hread⟩ := except_bind_eq_ok.1 hread
      obtain rfl := Except.ok.inj hread
      exact ⟨Json.every_index hitem hmain, Json.every_fieldOr hitem rfl halternative⟩

theorem isScalar_of_ofConfig {config data : Json} {verbosity : Int} {a : Annotator}
    (hconfig : config.every Json.hasScalarTexts = true)
    (h : ofConfig config verbosity data = .ok a) : a.IsScalar := by
  obtain ⟨overrides, hoverrides, h⟩ := except_bind_eq_ok.1 h
  rcases hread : TypeContext.readOverrides {} config with ⟨ctx, read⟩
  rw [hread] at h
  obtain ⟨_, hcompleted, hlast⟩ := except_bind_eq_ok.1 h
  obtain rfl : read = .ok () := hcompleted
  obtain ⟨context, hcontext, hlast⟩ := except_bind_eq_ok.1 hlast
  obtain rfl := Except.ok.inj hlast
  obtain ⟨list, -, hcollect⟩ := except_bind_eq_ok.1 hcontext
  obtain ⟨items, -, hcollect⟩ := except_bind_eq_ok.1 hcollect
  -- the types that are collected leave the overrides alone
  have hsame : context.overrides = ctx.overrides := (foldlM_collectType_eq_ok hcollect).2.1
  constructor
  · intro o ho
    exact isScalar_of_readOverrides hconfig hread o (hsame ▸ ho)
  · intro o ho
    obtain ⟨list, hlist, hoverrides⟩ := except_bind_eq_ok.1 hoverrides
    obtain ⟨items, hitems, hoverrides⟩ := except_bind_eq_ok.1 hoverrides
    obtain ⟨item, hitem, hread⟩ := exists_of_mem_mapM hoverrides o ho
    have hlist := Json.every_fieldOr hconfig rfl hlist
    exact Json.every_index (Json.every_hasScalarTexts_of_mem_elements hlist hitems hitem)
      (signature_of_ofJson hread)

/-! ## Functions -/

variable {a : Annotator} {path : Text} {node : Json}

theorem isScalar_of_childPath {parent : Json} (hparent : parent.every Json.hasScalarTexts = true)
    (hnode : node.isRestorable = true) (h : childPath parent node = .ok path) :
    path.isScalar = true := by
  obtain ⟨p, f, rfl, hname, rfl⟩ := childPath_eq_ok h
  have hname := Json.isScalar_of_isRestorable (Json.every_index hnode (Json.index_of_field? hname))
  simp only [Text.isScalar_append]
  exact ⟨⟨Json.every_hasScalarTexts_str.1 hparent, Text.isScalar_lit "."⟩, hname⟩

theorem isScalar_of_cutDoc {doc : Json} {before after : Text}
    (hdoc : doc.every Json.hasScalarTexts = true) (h : cutDoc doc = .ok (before, after)) :
    before.isScalar = true ∧ after.isScalar = true := by
  rw [cutDoc.eq_def] at h
  split at h
  · rename_i t
    have ht := Json.every_hasScalarTexts_str.1 hdoc
    obtain ⟨rfl, rfl⟩ := Prod.mk.inj (Except.ok.inj h)
    have hstrip : ∀ {u : Text}, u ⊆ t → (Text.strip u).isScalar = true := fun hu =>
      Text.isScalar_of_subset (List.Subset.trans (Text.strip_subset _) hu) ht
    cases hcut : Text.cutFirst '-' t with
    | none => exact ⟨hstrip (List.Subset.refl t), rfl⟩
    | some parts =>
        obtain ⟨rfl, -⟩ := Text.cutFirst_append hcut
        exact ⟨hstrip (List.subset_append_left _ _),
          hstrip (List.subset_append_of_subset_right _ (List.subset_cons_self _ _))⟩
  · contradiction
  · contradiction

section Change

variable (ha : a.IsScalar)
include ha

/-- What is read from a doc: a signature that can be restored, and a piece of the doc. -/
theorem isRestorable_of_readDoc {doc : Json} {s : Signature} {rest : Text}
    (hdoc : doc.isRestorable = true) (h : (a.readDoc path doc).result = .ok (some (s, rest))) :
    s.toJson.isRestorable = true ∧ rest.isScalar = true := by
  have hscalar := (Json.isRestorable_iff.1 hdoc).1
  obtain ⟨hyphen, -, h⟩ := Trace.result_bind_eq_ok.1 h
  split at h
  · obtain ⟨⟨before, after⟩, hcut, h⟩ := Trace.result_bind_eq_ok.1 h
    obtain ⟨found, hfound, h⟩ := Trace.result_bind_eq_ok.1 h
    obtain ⟨s', rfl, heq⟩ := Option.map_eq_some_iff.1 (Except.ok.inj h)
    obtain ⟨rfl, rfl⟩ := Prod.mk.inj heq
    obtain ⟨hbefore, hafter⟩ := isScalar_of_cutDoc hscalar hcut
    exact ⟨Signature.isRestorable_of_readJson ha.context (Json.every_hasScalarTexts_str.2 hbefore)
      hfound, hafter⟩
  · obtain ⟨found, hfound, h⟩ := Trace.result_bind_eq_ok.1 h
    obtain ⟨s', rfl, heq⟩ := Option.map_eq_some_iff.1 (Except.ok.inj h)
    obtain ⟨rfl, rfl⟩ := Prod.mk.inj heq
    exact ⟨Signature.isRestorable_of_readJson ha.context hscalar hfound, rfl⟩

theorem isRestorable_annotateFromDoc {node' : Json} (hnode : node.isRestorable = true)
    (h : (a.annotateFromDoc path node).result = .ok node') : node'.isRestorable = true := by
  rcases annotateFromDoc_completed h with ⟨rfl, -⟩ | ⟨doc, s, rest, hdoc, hread, rfl⟩
  · exact hnode
  · obtain ⟨hs, hrest⟩ := isRestorable_of_readDoc ha (Json.every_field? hnode hdoc) hread
    have hsigned : (withSignature s node).isRestorable = true :=
      Json.isRestorable_withField hnode (Text.isScalar_lit _) hs
    exact Json.isRestorable_withField hsigned (Text.isScalar_lit _) (Json.isRestorable_str hrest)

theorem isRestorable_annotateFromOverride {o : SignatureOverride} {index : Nat} {node' : Json}
    (ho : o ∈ a.overrides) (hpath : path.isScalar = true) (hnode : node.isRestorable = true)
    (h : (a.annotateFromOverride path o index node).result = .ok node') :
    node'.isRestorable = true := by
  rcases annotateFromOverride_completed h with rfl | ⟨candidate, s, hcandidate, hread, rfl⟩
  · exact hnode
  · have hscalar := SignatureOverride.every_hasScalarTexts_of_candidate? (ha.overrides o ho) hpath
      hcandidate
    exact Json.isRestorable_withField hnode (Text.isScalar_lit _)
      (Signature.isRestorable_of_readJson ha.context hscalar hread)

/-- The changes of a function keep it restorable, as far as they get. -/
theorem isRestorable_annotateFunction {parent : Json}
    (hparent : parent.every Json.hasScalarTexts = true) (hnode : node.isRestorable = true) :
    (a.annotateFunction parent node).value.isRestorable = true := by
  rw [annotateFunction]
  split
  · exact hnode
  · rename_i path hpath
    have hscalar := isScalar_of_childPath hparent hnode hpath
    refine Progress.value_run (P := fun n : Json => n.isRestorable = true) ?_ hnode
    intro change hchange n hn
    rcases List.mem_cons.1 hchange with rfl | hoverride
    · exact Progress.value_step (P := fun n : Json => n.isRestorable = true) hn fun _ => isRestorable_annotateFromDoc ha hn
    · obtain ⟨i, hi, rfl⟩ := List.mem_mapIdx.1 hoverride
      exact Progress.value_step (P := fun n : Json => n.isRestorable = true) hn fun _ =>
        isRestorable_annotateFromOverride ha (List.getElem_mem hi) hscalar hn

end Change

/-! ## Members -/

/-- Members that are kept restorable leave the node restorable. -/
theorem isRestorable_annotateMembers {change : Change} (hnode : node.isRestorable = true)
    (h : ∀ x, x.isRestorable = true → (change x).value.isRestorable = true) :
    (annotateMembers change node).value.isRestorable = true := by
  rw [annotateMembers]
  split
  · exact hnode
  · rename_i items hitems
    have hlist := Json.isRestorable_list.1 (Json.every_index hnode hitems)
    have hwalk := Progress.forall₂_walk (R := fun x y => x.isRestorable = true → y.isRestorable = true)
      (fun _ => id) fun x (_ : x ∈ items) => h x
    -- each member stands for one that was there
    refine Json.isRestorable_withField hnode (Text.isScalar_lit _) (Json.isRestorable_list.2 ?_)
    intro y hy
    obtain ⟨x, hx, hxy⟩ := exists_mem_of_forall₂ hwalk hy
    exact hxy (hlist x hx)
  · split
    · exact hnode
    · exact hnode

theorem isRestorable_ignoreMember {verbosity : Int} {parent : Text} {type : Json}
    (hnode : node.isRestorable = true) :
    (Progress.step (ignoreMember verbosity parent type) node).value.isRestorable = true := by
  refine Progress.value_step (P := fun n : Json => n.isRestorable = true) hnode ?_
  intro node' h
  rw [ignoreMember_completed h]
  exact hnode

theorem isRestorable_shortenType {moduleName : Json} (hnode : node.isRestorable = true) :
    (Progress.step (shortenType moduleName) node).value.isRestorable = true := by
  refine Progress.value_step (P := fun n : Json => n.isRestorable = true) hnode ?_
  intro node' h
  rcases shortenType_completed h with rfl | ⟨m, short, -, htype, rfl⟩
  · exact hnode
  · -- the rest of a type is a piece of it
    have htype := Json.isScalar_of_isRestorable (Json.every_field? hnode htype)
    exact Json.isRestorable_withField hnode (Text.isScalar_lit _)
      (Json.isRestorable_str (Text.isScalar_append.1 htype).2)

section Member

variable (ha : a.IsScalar)
include ha

theorem isRestorable_annotateClassMember (hpath : path.isScalar = true)
    (hnode : node.isRestorable = true) :
    (a.annotateClassMember path node).value.isRestorable = true := by
  rw [annotateClassMember]
  split
  · exact hnode
  · split
    · exact isRestorable_annotateFunction ha (Json.every_hasScalarTexts_str.2 hpath) hnode
    · split
      · exact hnode
      · exact isRestorable_ignoreMember hnode

theorem isRestorable_annotateMember {moduleName : Json}
    (hmodule : moduleName.every Json.hasScalarTexts = true) (hnode : node.isRestorable = true) :
    (a.annotateMember moduleName node).value.isRestorable = true := by
  rw [annotateMember]
  split
  · exact hnode
  split
  · -- a class hands its own path on to its methods
    rw [annotateClass]
    split
    · exact hnode
    · rename_i path hpath
      exact isRestorable_annotateMembers hnode fun _ =>
        isRestorable_annotateClassMember ha (isScalar_of_childPath hmodule hnode hpath)
  split
  · -- the members of a type lose a piece of their types
    exact isRestorable_annotateMembers hnode fun _ => isRestorable_shortenType
  split
  · exact isRestorable_annotateFunction ha hmodule hnode
  split
  · exact hnode
  · exact isRestorable_ignoreMember hnode

end Member

/-! ## Modules -/

/-- An annotation keeps a skeleton restorable, however far it gets, if no text of the configuration has
half of a surrogate pair. -/
theorem isRestorable_annotate {config data : Json} (verbosity : Int)
    (hconfig : config.every Json.hasScalarTexts = true) (hdata : data.isRestorable = true) :
    (annotate config verbosity data).value.isRestorable = true := by
  rw [annotate]
  split
  · exact hdata
  · rename_i name a hprep
    obtain ⟨-, hname, hannotator⟩ := prepare_eq_ok hprep
    have ha : a.IsScalar := by
      refine isScalar_of_ofConfig ?_ hannotator
      split
      · rfl
      · exact hconfig
    have hmodule := (Json.isRestorable_iff.1 (Json.every_field? hdata hname)).1
    have hmembers := isRestorable_annotateMembers hdata fun _ =>
      isRestorable_annotateMember ha hmodule
    refine Progress.value_run (P := fun n : Json => n.isRestorable = true) ?_ hdata
    intro change hchange d hd
    simp only [List.mem_cons, List.not_mem_nil, or_false] at hchange
    -- the message in front and the report behind write nothing
    rcases hchange with rfl | rfl | rfl
    · refine Progress.value_step (P := fun n : Json => n.isRestorable = true) hd ?_
      intro d' h
      rw [listTypes_eq] at h
      obtain rfl := Except.ok.inj h
      exact hd
    · exact hmembers
    · refine Progress.value_step (P := fun n : Json => n.isRestorable = true) hd ?_
      intro d' h
      obtain ⟨_, -, h⟩ := Trace.result_bind_eq_ok.1 h
      obtain rfl := Except.ok.inj h
      exact hd

end Annotator

end ModuleStubs
