import ModuleStubs.Proofs.Annotation.Rearrangement
import ModuleStubs.Proofs.Annotation.Warnings
import ModuleStubs.Proofs.Signature.Known

/-!
# The order of members does not matter

A skeleton that can be annotated can be annotated with its members in any other order, and the
result is the annotated skeleton with its members in that order (`annotate_rearranged`). Three things
could depend on the order. The custom types are collected from the members, but only which ones there
are counts. The members are annotated one after the other, but each one on its own. And the overrides
that were not used are reported at the end, in the order of the configuration.
-/

set_option autoImplicit false

namespace ModuleStubs

namespace Annotator

/-! ## Custom types -/

/-- The name that a member adds to the custom types, if it is a class or a type. -/
def declaredType (node : Json) : Except Fault (Option Text) := do
  let type ← node.index (lit "type")
  type.hashable
  if type.isStr (lit "class") || type.isStr (lit "type") then
    match ← node.index (lit "name") with
    | .str name => if isIdentifier name then return some name else throw (.violated .isIdentifier)
    | v => throw (.notMatchable v.kind)
  else return none

/-- The context with one more custom type, if there is one to add. -/
def withDeclared (ctx : TypeContext) : Option Text → TypeContext
  | none => ctx
  | some name =>
    if ctx.custom.contains name then ctx else { ctx with custom := ctx.custom ++ [name] }

theorem collectType_eq (ctx : TypeContext) (node : Json) :
    collectType ctx node = withDeclared ctx <$> declaredType node := by
  rw [collectType, declaredType]
  simp only [map_bind]
  refine bind_congr fun type => bind_congr fun _ => ?_
  split
  · simp only [map_bind]
    refine bind_congr fun v => ?_
    cases v with
    | str name =>
        simp only [TypeContext.addCustom]
        cases isIdentifier name with
        | false => rfl
        | true =>
            simp only [Bool.not_true, Bool.false_eq_true, if_false, if_true, map_pure, withDeclared]
            split <;> rfl
    | _ => rfl
  · rfl

theorem mem_withDeclared {ctx : TypeContext} {declared : Option Text} {t : Text} :
    t ∈ (withDeclared ctx declared).custom ↔ t ∈ ctx.custom ∨ declared = some t := by
  cases declared with
  | none => simp [withDeclared]
  | some name =>
      rw [withDeclared]
      split
      · rename_i hmem
        rw [List.contains_iff_mem] at hmem
        constructor
        · exact Or.inl
        · rintro (h | h)
          · exact h
          · exact Option.some.inj h ▸ hmem
      · simp [eq_comm]

theorem overrides_withDeclared (ctx : TypeContext) (declared : Option Text) :
    (withDeclared ctx declared).overrides = ctx.overrides := by
  cases declared with
  | none => rfl
  | some name =>
      rw [withDeclared]
      split <;> rfl

/-- The custom types that are collected are those that the members declare, whatever their order. -/
theorem foldlM_collectType_eq_ok {items : List Json} {ctx ctx' : TypeContext}
    (h : items.foldlM collectType ctx = .ok ctx') :
    (∀ x ∈ items, ∃ d, declaredType x = .ok d) ∧ ctx'.overrides = ctx.overrides ∧
      ∀ t, t ∈ ctx'.custom ↔ t ∈ ctx.custom ∨ ∃ x ∈ items, declaredType x = .ok (some t) := by
  induction items generalizing ctx with
  | nil =>
      obtain rfl := Except.ok.inj h
      simp
  | cons x xs ih =>
      -- the first member adds what it declares, the others go on from there
      rw [List.foldlM_cons, collectType_eq] at h
      obtain ⟨ctx₁, hx, hxs⟩ := except_bind_eq_ok.1 h
      cases hd : declaredType x with
      | error e => simp [hd, Functor.map, Except.map] at hx
      | ok d =>
          rw [hd] at hx
          obtain rfl : withDeclared ctx d = ctx₁ := Except.ok.inj hx
          obtain ⟨hall, hoverrides, hcustom⟩ := ih hxs
          refine ⟨List.forall_mem_cons.2 ⟨⟨d, hd⟩, hall⟩, ?_, fun t => ?_⟩
          · rw [hoverrides, overrides_withDeclared]
          · rw [hcustom, mem_withDeclared, or_assoc]
            simp only [List.mem_cons, exists_eq_or_imp, hd, Except.ok.injEq]

theorem exists_foldlM_collectType {items : List Json}
    (h : ∀ x ∈ items, ∃ d, declaredType x = .ok d) :
    ∀ ctx, ∃ ctx', items.foldlM collectType ctx = .ok ctx' := by
  induction items with
  | nil => exact fun ctx => ⟨ctx, rfl⟩
  | cons x xs ih =>
      intro ctx
      obtain ⟨d, hd⟩ := h x List.mem_cons_self
      obtain ⟨ctx', hxs⟩ := ih (fun y hy => h y (List.mem_cons_of_mem _ hy)) (withDeclared ctx d)
      refine ⟨ctx', ?_⟩
      rw [List.foldlM_cons, collectType_eq, hd]
      exact hxs

theorem declaredType_apply (σ : Rearrangement) (node : Json) :
    declaredType (σ.apply node) = declaredType node := by
  rw [declaredType, declaredType, σ.index_apply (by decide), σ.index_apply (by decide)]

section Moved

variable {order : List Nat} {inner : Nat → Rearrangement} {items : List Json}

/-- Putting rearranged members in order loses none of them. -/
theorem reorder_mapIdx_perm (h : order.Perm (List.range items.length)) :
    (reorder order (items.mapIdx fun i x => (inner i).apply x)).Perm
      (items.mapIdx fun i x => (inner i).apply x) := by
  refine reorder_perm ?_
  rwa [List.length_mapIdx]

/-- The members of a rearranged list are rearranged members of the list. -/
theorem mem_reorder_iff (h : order.Perm (List.range items.length)) {y : Json} :
    y ∈ reorder order (items.mapIdx fun i x => (inner i).apply x) ↔
      ∃ i x, items[i]? = some x ∧ y = (inner i).apply x := by
  rw [(reorder_mapIdx_perm h).mem_iff, List.mem_mapIdx]
  constructor
  · rintro ⟨i, hi, rfl⟩
    exact ⟨i, items[i], List.getElem?_eq_getElem hi, rfl⟩
  · rintro ⟨i, x, hx, rfl⟩
    obtain ⟨hi, rfl⟩ := List.getElem?_eq_some_iff.1 hx
    exact ⟨i, hi, rfl⟩

/-- A type is declared by a member before and after the move. -/
theorem exists_declaredType_reorder_iff (h : order.Perm (List.range items.length)) (t : Text) :
    (∃ y ∈ reorder order (items.mapIdx fun i x => (inner i).apply x),
      declaredType y = .ok (some t)) ↔ ∃ x ∈ items, declaredType x = .ok (some t) := by
  constructor
  · rintro ⟨y, hy, hd⟩
    obtain ⟨i, x, hx, rfl⟩ := (mem_reorder_iff h).1 hy
    exact ⟨x, List.mem_of_getElem? hx, by rw [← hd, declaredType_apply]⟩
  · rintro ⟨x, hx, hd⟩
    obtain ⟨i, hi⟩ := List.mem_iff_getElem?.1 hx
    exact ⟨(inner i).apply x, (mem_reorder_iff h).2 ⟨i, x, hi, rfl⟩, by rw [declaredType_apply, hd]⟩

end Moved

theorem collectTypes_list {data : Json} {items : List Json}
    (h : data.field? (lit "members") = some (.list items)) (ctx : TypeContext) :
    collectTypes ctx data = items.foldlM collectType ctx := by
  obtain ⟨fields, rfl⟩ := Json.eq_object_of_field? h
  rw [Json.field?_object] at h
  simp [collectTypes, Json.fieldOr, h, Json.elements, bind, Except.bind]

/-- The types collected from a rearranged module are alike. -/
theorem collectTypes_apply {σ : Rearrangement} {data : Json} (hfits : σ.Fits data)
    {ctx ctx' : TypeContext} (h : collectTypes ctx data = .ok ctx') :
    ∃ ctx'', collectTypes ctx (σ.apply data) = .ok ctx'' ∧ TypeContext.Alike ctx'' ctx' := by
  cases σ with
  | keep => exact ⟨ctx', h, rfl, rfl⟩
  | move order inner =>
      by_cases hlist : ∃ items, data.field? (lit "members") = some (.list items)
      · obtain ⟨items, hitems⟩ := hlist
        obtain ⟨hperm, -⟩ := hfits items hitems
        rw [collectTypes_list hitems] at h
        rw [collectTypes_list (Rearrangement.field?_apply_move hitems)]
        obtain ⟨hall, hoverrides, hcustom⟩ := foldlM_collectType_eq_ok h
        have hall' : ∀ y ∈ reorder order (items.mapIdx fun i x => (inner i).apply x),
            ∃ d, declaredType y = .ok d := by
          intro y hy
          obtain ⟨i, x, hx, rfl⟩ := (mem_reorder_iff hperm).1 hy
          rw [declaredType_apply]
          exact hall x (List.mem_of_getElem? hx)
        obtain ⟨ctx'', hctx⟩ := exists_foldlM_collectType hall' ctx
        obtain ⟨-, hoverrides', hcustom'⟩ := foldlM_collectType_eq_ok hctx
        refine ⟨ctx'', hctx, TypeContext.alike_of_mem_iff (hoverrides'.trans hoverrides.symm) ?_⟩
        intro t
        rw [hcustom, hcustom', exists_declaredType_reorder_iff hperm]
      · have hself : (Rearrangement.move order inner).apply data = data :=
          Rearrangement.apply_move_of_ne fun items hitems => hlist ⟨items, hitems⟩
        rw [hself]
        exact ⟨ctx', h, rfl, rfl⟩

/-! ## Members -/

/-- One change gives what another gives, rearranged; the notes may come in another order. -/
structure Follows (σ : Rearrangement) (p p' : Progress Note Fault Json) : Prop where
  failure : p'.failure = none
  value : p'.value = σ.apply p.value
  log : p'.log.Perm p.log

/-- A change that does not look at the members follows itself. -/
theorem follows_of_onMembers {change : Change}
    (hchange : ∀ g n, change (n.onMembers g) = (change n).map (Json.onMembers g))
    (σ : Rearrangement) {node : Json} (h : (change node).failure = none) :
    Follows σ (change node) (change (σ.apply node)) := by
  obtain ⟨g, hg⟩ := σ.exists_onMembers
  rw [hg, hchange]
  exact ⟨h, (hg _).symm, .rfl⟩

/-- Elementwise permutations of the pieces permute the whole. -/
theorem flatMap_perm {α β : Type} {f g : α → List β} {as : List α}
    (h : ∀ a ∈ as, (f a).Perm (g a)) : (as.flatMap f).Perm (as.flatMap g) := by
  induction as with
  | nil => exact .rfl
  | cons a as ih =>
      rw [List.flatMap_cons, List.flatMap_cons]
      exact (h a List.mem_cons_self).append (ih fun b hb => h b (List.mem_cons_of_mem _ hb))

/-- The notes about rearranged members, one after the other, are those about the members. -/
theorem flatMap_mapIdx_perm {α : Type} {f : Json → List α} {inner : Nat → Rearrangement}
    {items : List Json}
    (h : ∀ i x, items[i]? = some x → (f ((inner i).apply x)).Perm (f x)) :
    ((items.mapIdx fun i x => (inner i).apply x).flatMap f).Perm (items.flatMap f) := by
  have hleft : (items.mapIdx fun i x => (inner i).apply x).flatMap f =
      items.zipIdx.flatMap fun e => f ((inner e.2).apply e.1) := by
    rw [List.mapIdx_eq_zipIdx_map, List.flatMap_map]
  have hright : items.flatMap f = items.zipIdx.flatMap fun e => f e.1 := by
    calc items.flatMap f = (items.zipIdx.map Prod.fst).flatMap f := by rw [List.zipIdx_map_fst]
      _ = items.zipIdx.flatMap fun e => f e.1 := by rw [List.flatMap_map]
  rw [hleft, hright]
  refine flatMap_perm fun e he => ?_
  exact h e.2 e.1 (List.mem_zipIdx_iff_getElem?.1 he)

/-- Members that follow their rearrangements make their node follow its own. -/
theorem follows_annotateMembers {change : Change} {order : List Nat}
    {inner : Nat → Rearrangement} {node : Json} (hfits : (Rearrangement.move order inner).Fits node)
    (h : (annotateMembers change node).failure = none)
    (hitem : ∀ i x, (inner i).Fits x → (change x).failure = none →
      Follows (inner i) (change x) (change ((inner i).apply x))) :
    Follows (.move order inner) (annotateMembers change node)
      (annotateMembers change ((Rearrangement.move order inner).apply node)) := by
  rcases annotateMembers_completed h with ⟨items, hitems, hall⟩ | ⟨v, parts, hv, hkind, -, -, heq⟩
  · obtain ⟨hperm, hinner⟩ := hfits items hitems
    have hfollows : ∀ i x, items[i]? = some x →
        Follows (inner i) (change x) (change ((inner i).apply x)) := fun i x hx =>
      hitem i x (hinner i x hx) (hall x (List.mem_of_getElem? hx))
    have hall' : ∀ y ∈ reorder order (items.mapIdx fun i x => (inner i).apply x),
        (change y).failure = none := by
      intro y hy
      obtain ⟨i, x, hx, rfl⟩ := (mem_reorder_iff hperm).1 hy
      exact (hfollows i x hx).failure
    rw [annotateMembers_list hitems hall,
      annotateMembers_list (Rearrangement.field?_apply_move hitems) hall']
    refine ⟨rfl, ?_, ?_⟩
    · -- the members are changed and put in order, in either sequence
      have hvalues : (items.mapIdx fun i x => (inner i).apply x).map (fun x => (change x).value) =
          (items.map fun x => (change x).value).mapIdx fun i x => (inner i).apply x := by
        apply List.ext_getElem?
        intro i
        rw [List.getElem?_map, List.getElem?_mapIdx, List.getElem?_mapIdx, List.getElem?_map]
        cases hx : items[i]? with
        | none => rfl
        | some x => exact congrArg some (hfollows i x hx).value
      have hself := Json.field?_withField_self hitems (lit "members")
        (.list (items.map fun x => (change x).value))
      simp only [Rearrangement.apply_move_list hitems, Rearrangement.apply_move_list hself,
        Json.withField_withField, map_reorder, hvalues]
    · exact ((reorder_mapIdx_perm hperm).flatMap_right _).trans
        (flatMap_mapIdx_perm fun i x hx => (hfollows i x hx).log)
  · have hself : (Rearrangement.move order inner).apply node = node := by
      refine Rearrangement.apply_move_of_ne fun items hitems => ?_
      obtain rfl := Option.some.inj (hv.symm.trans hitems)
      exact hkind rfl
    rw [hself, heq]
    exact ⟨rfl, hself.symm, .rfl⟩

variable {a : Annotator}

/-- A member of a module follows its rearrangement, whatever it is. -/
theorem follows_annotateMember {name : Json} {σ : Rearrangement} {node : Json}
    (hfits : σ.Fits node) (h : (a.annotateMember name node).failure = none) :
    Follows σ (a.annotateMember name node)
      (a.annotateMember name (σ.apply node)) := by
  cases σ with
  | keep => exact ⟨h, rfl, .rfl⟩
  | move order inner =>
      rw [annotateMember] at h ⊢
      rw [annotateMember, Rearrangement.index_apply _ (by decide)]
      cases htype : node.index (lit "type") with
      | error e => simp [htype, Progress.stopped] at h
      | ok type =>
          simp only [htype] at h ⊢
          revert h
          split
          · -- a class: its members are followed one by one
            intro h
            obtain ⟨g, hg⟩ := (Rearrangement.move order inner).exists_onMembers
            have hpath : childPath name ((Rearrangement.move order inner).apply node) =
                childPath name node := by rw [hg, childPath_onMembers]
            rw [annotateClass] at h ⊢
            rw [annotateClass, hpath]
            cases hchild : childPath name node with
            | error e => simp [hchild, Progress.stopped] at h
            | ok path =>
                simp only [hchild] at h ⊢
                exact follows_annotateMembers hfits h fun i x _ hx =>
                  follows_of_onMembers (fun g n => annotateClassMember_onMembers) (inner i) hx
          · split
            -- a type: its members are shortened one by one
            · intro h
              exact follows_annotateMembers hfits h fun i x _ hx =>
                follows_of_onMembers (fun g n => Progress.step_comm shortenType_onMembers)
                  (inner i) hx
            · split
              · exact follows_of_onMembers (fun g n => annotateFunction_onMembers) _
              · split
                · exact fun _ => ⟨rfl, rfl, .rfl⟩
                · exact follows_of_onMembers (fun g n => Progress.step_comm ignoreMember_onMembers) _

/-! ## Modules -/

/-- Annotators that differ at most in the order of their types. -/
structure Alike (a' a : Annotator) : Prop where
  context : TypeContext.Alike a'.context a.context
  overrides : a'.overrides = a.overrides
  verbosity : a'.verbosity = a.verbosity

/-- Annotators that are alike annotate in the same way. -/
theorem Alike.annotateMember {a' : Annotator} (h : Alike a' a) :
    a'.annotateMember = a.annotateMember := by
  have hread : a'.readSignature = a.readSignature := by
    funext path v
    rw [readSignature, readSignature, Signature.readJson_alike h.context, h.verbosity]
  have hdoc : a'.annotateFromDoc = a.annotateFromDoc := by
    funext path node
    simp only [annotateFromDoc, readDoc, hread]
  have hoverride : a'.annotateFromOverride = a.annotateFromOverride := by
    funext path o index node
    simp only [annotateFromOverride, hread]
  have hfunction : a'.annotateFunction = a.annotateFunction := by
    funext parent node
    simp only [annotateFunction, functionChanges, hdoc, hoverride, h.overrides]
  have hmember : a'.annotateClassMember = a.annotateClassMember := by
    funext path node
    simp only [annotateClassMember, hfunction, h.verbosity]
  funext name node
  simp only [Annotator.annotateMember, annotateClass, hmember, hfunction, h.verbosity]

theorem ofConfig_apply {config data : Json} {σ : Rearrangement} {verbosity : Int}
    (hfits : σ.Fits data) (h : ofConfig config verbosity data = .ok a) :
    ∃ a', ofConfig config verbosity (σ.apply data) = .ok a' ∧ Alike a' a := by
  obtain ⟨overrides, hoverrides, h⟩ := except_bind_eq_ok.1 h
  obtain ⟨_, hread, h⟩ := except_bind_eq_ok.1 h
  obtain ⟨context, hcontext, h⟩ := except_bind_eq_ok.1 h
  obtain rfl := Except.ok.inj h
  obtain ⟨context', hcontext', halike⟩ := collectTypes_apply hfits hcontext
  exact ⟨⟨context', overrides, verbosity⟩, except_bind_eq_ok.2 ⟨overrides, hoverrides,
    except_bind_eq_ok.2 ⟨_, hread, except_bind_eq_ok.2 ⟨context', hcontext', rfl⟩⟩⟩, halike, rfl, rfl⟩

/-- A rearranged module is prepared in the same way. -/
theorem prepare_apply {config data name : Json} {σ : Rearrangement} {verbosity : Int}
    (hfits : σ.Fits data) (h : prepare config verbosity data = .ok (name, a)) :
    ∃ a', prepare config verbosity (σ.apply data) = .ok (name, a') ∧ Alike a' a := by
  obtain ⟨htype, hname, hconfig⟩ := prepare_eq_ok h
  obtain ⟨a', hconfig', halike⟩ := ofConfig_apply hfits hconfig
  refine ⟨a', ?_, halike⟩
  rw [prepare, σ.index_apply (by decide), σ.index_apply (by decide), Json.index_of_field? htype,
    Json.index_of_field? hname, hconfig']
  rfl

end Annotator

open Annotator

/-- **The order of members does not matter.** A skeleton that can be annotated can be annotated with
its members, and the members of its members, in any other order. The result is the annotated
skeleton in that order, and the warnings about overrides that were not used are the same ones in the
same order. -/
theorem annotate_rearranged {config data : Json} {verbosity : Int} {σ : Rearrangement}
    (hfits : σ.Fits data) (hok : (annotate config verbosity data).failure = none) :
    (annotate config verbosity (σ.apply data)).failure = none ∧
    (annotate config verbosity (σ.apply data)).value =
      σ.apply (annotate config verbosity data).value ∧
    unusedWarnings (annotate config verbosity (σ.apply data)) =
      unusedWarnings (annotate config verbosity data) := by
  obtain ⟨name, a, hprep, hmembers, hreport⟩ := annotate_completed hok
  obtain ⟨a', hprep', halike⟩ := prepare_apply hfits hprep
  -- the annotator of the rearranged module may have its types in another order, but works alike
  have hsame : a'.annotatedMembers = a.annotatedMembers := by
    funext data name
    rw [annotatedMembers, annotatedMembers, halike.annotateMember]
  have hreports : a'.unusedReport = a.unusedReport := by
    funext notes
    rw [unusedReport, unusedReport, halike.overrides]
  have hfollows : Follows σ (a.annotatedMembers data name)
      (a.annotatedMembers (σ.apply data) name) := by
    cases σ with
    | keep => exact ⟨hmembers, rfl, .rfl⟩
    | move order inner =>
        exact follows_annotateMembers hfits hmembers fun i x hx => follows_annotateMember hx
  have hlog := unusedReport_congr hfollows.log (a := a)
  have hmembers' : (a'.annotatedMembers (σ.apply data) name).failure = none := by
    rw [hsame]
    exact hfollows.failure
  have hreport' : (a'.unusedReport (a'.annotatedMembers (σ.apply data) name).log).result =
      .ok () := by
    rw [hsame, hreports, hlog, hreport]
  refine ⟨?_, ?_, ?_⟩
  · rw [annotate_eq hprep' hmembers' hreport']
  · rw [annotate_eq hprep' hmembers' hreport', annotate_eq hprep hmembers hreport, hsame]
    exact hfollows.value
  · rw [unusedWarnings_annotate hprep' hmembers' hreport', hsame, hreports, hlog,
      unusedWarnings_annotate hprep hmembers hreport]

/-- A function that takes a unit stands before the class of units, one of whose methods has an
override. -/
def unitModule : Json :=
  .object [(lit "name", .str (lit "Ext")), (lit "type", .str (lit "module")), (lit "members", .list
    [.object [(lit "name", .str (lit "kill")), (lit "type", .str (lit "function")),
      (lit "doc", .str (lit "void kill(CyUnit) - kills it"))],
     .object [(lit "name", .str (lit "CyUnit")), (lit "type", .str (lit "class")),
      (lit "members", .list
        [.object [(lit "name", .str (lit "isHurt")), (lit "type", .str (lit "instancemethod"))],
         .object [(lit "name", .str (lit "damage")), (lit "type", .str (lit "property"))]])]])]

/-- Two overrides, the second one for no function of the module. -/
def unitConfig : Json :=
  .object [(lit "sig-overrides", .list
    [.object [(lit "path", .str (lit "Ext.CyUnit.isHurt")), (lit "signature", .str (lit "bool ()"))],
     .object [(lit "path", .str (lit "Ext.CyCity")), (lit "signature", .str (lit "void ()"))]])]

/-- The members of the module the other way round, and those of the class. -/
def unitOrder : Rearrangement :=
  .move [1, 0] fun
    | 1 => .move [1, 0] fun _ => .keep
    | _ => .keep

theorem annotate_rearranged_units : unitOrder.Fits unitModule ∧
    (annotate unitConfig 0 (unitOrder.apply unitModule)).failure = none ∧
    (annotate unitConfig 0 (unitOrder.apply unitModule)).value =
      unitOrder.apply (annotate unitConfig 0 unitModule).value ∧
    unusedWarnings (annotate unitConfig 0 (unitOrder.apply unitModule)) =
      unusedWarnings (annotate unitConfig 0 unitModule) := by
  have hfits : unitOrder.Fits unitModule := by
    intro items hitems
    obtain rfl := Json.list.inj (Option.some.inj hitems)
    refine ⟨by decide, fun i x hx => ?_⟩
    match i, hx with
    | 0, _ => exact trivial
    | 1, hx =>
        obtain rfl := Option.some.inj hx
        intro methods hmethods
        obtain rfl := Json.list.inj (Option.some.inj hmethods)
        exact ⟨by decide, fun _ _ _ => trivial⟩
  have hok : (annotate unitConfig 0 unitModule).failure = none := by decide +kernel
  exact ⟨hfits, annotate_rearranged hfits hok⟩

end ModuleStubs
