import ModuleStubs.Proofs.Annotation.MemberOrder
import ModuleStubs.Proofs.Annotation.Skeleton
import ModuleStubs.Proofs.Signature.Total

/-!
# Annotating without a configuration

Without a configuration there are no overrides, so that reading signatures never fails, and nothing can
go wrong with a skeleton but the following: the module has no members, or a class or type among its
members has none, or a name that is no identifier (`annotate_null_completes_iff`). An empty list of
members is fine, and nodes without members are fine where they are neither classes nor types.
-/

set_option autoImplicit false

namespace ModuleStubs

namespace Json

/-- The node is a class or a type. -/
def IsTypeNode (node : Json) : Prop :=
  node.field? (lit "type") = some (.str (lit "class")) ∨
    node.field? (lit "type") = some (.str (lit "type"))

end Json

namespace Annotator

variable {P : Json → Prop} {a : Annotator} {verbosity : Int} {node : Json}

/-! ## Single nodes -/

theorem ignoreMember_completes (hnode : Skeleton P node) (parent : Text) (type : Json) :
    (Progress.step (ignoreMember verbosity parent type) node).failure = none := by
  obtain ⟨⟨name, hname⟩, -⟩ := Skeleton.iff_fields.1 hnode
  refine Progress.failure_step_eq_none.2 ?_
  rw [ignoreMember]
  split
  · exact Trace.completes_pure _
  · rw [Json.index_of_field? hname]
    exact ⟨node, rfl⟩

theorem shortenType_completes (hnode : Skeleton P node) (m : Text) :
    (Progress.step (shortenType (.str m)) node).failure = none := by
  obtain ⟨-, ⟨type, htype⟩, -⟩ := Skeleton.iff_fields.1 hnode
  refine Progress.failure_step_eq_none.2 ?_
  have htext : (Except.ok (Json.str type) >>= Json.textFor (lit "startswith")) = .ok type := rfl
  have hleft : (Json.str m).leftText = .ok m := rfl
  rw [shortenType, Json.index_of_field? htype, htext, hleft, Trace.liftM_ok, Trace.liftM_ok, pure_bind,
    pure_bind]
  split
  · exact Trace.completes_pure _
  · exact Trace.completes_pure _

/-- Where no member can make a change fail, all that can is that there are no members. -/
theorem annotateMembers_completes_iff {change : Change} (hnode : Skeleton P node)
    (hchange : ∀ x, Skeleton P x → (change x).failure = none) :
    (annotateMembers change node).failure = none ↔
      ∃ items, node.field? (lit "members") = some (.list items) := by
  constructor
  · intro h
    obtain ⟨items, hitems, -⟩ := annotateMembers_completed_list hnode h
    exact ⟨items, hitems⟩
  · rintro ⟨items, hitems⟩
    exact (failure_annotateMembers_list hitems).2 fun x hx =>
      hchange x (hnode.of_mem_members hitems x hx)

section Nodes

variable (hcontext : a.context.Total) (hoverrides : a.overrides = [])
include hcontext hoverrides

theorem annotateFunction_completes (hnode : Skeleton P node) (p : Text) :
    (a.annotateFunction (.str p) node).failure = none := by
  obtain ⟨⟨f, hf⟩, -, hdoc, -⟩ := Skeleton.iff_fields.1 hnode
  rw [annotateFunction_eq hf, functionChanges, hoverrides, Progress.run_cons]
  generalize p ++ lit "." ++ f = path
  refine Progress.failure_andThen_eq_none.2 ⟨Progress.failure_step_eq_none.2 ?_, rfl⟩
  rw [annotateFromDoc]
  cases hfield : node.field? (lit "doc") with
  | none => exact ⟨node, rfl⟩
  | some doc =>
      obtain ⟨t, rfl⟩ := hdoc doc hfield
      have hread : (a.readSignature path (.str (docPart t))).Completes :=
        Signature.readJson_completes hcontext path (docPart t)
      dsimp only
      rw [readDoc_str]
      refine Trace.completes_bind (Trace.completes_bind hread fun s => Trace.completes_pure _) ?_
      intro found
      cases found with
      | none => exact Trace.completes_pure _
      | some parts => exact Trace.completes_pure _

theorem annotateClassMember_completes (hnode : Skeleton P node) (path : Text) :
    (a.annotateClassMember path node).failure = none := by
  obtain ⟨-, ⟨type, htype⟩, -⟩ := Skeleton.iff_fields.1 hnode
  rw [annotateClassMember, Json.index_of_field? htype]
  dsimp only
  split
  · exact annotateFunction_completes hcontext hoverrides hnode path
  · split
    · rfl
    · exact ignoreMember_completes hnode path _

/-- A member of a module can be annotated, unless it is a class or a type without members. -/
theorem annotateMember_completes_iff (hnode : Skeleton P node) (m : Text) :
    (a.annotateMember (.str m) node).failure = none ↔
      (node.IsTypeNode → ∃ items, node.field? (lit "members") = some (.list items)) := by
  obtain ⟨⟨c, hc⟩, ⟨type, htype⟩, -⟩ := Skeleton.iff_fields.1 hnode
  by_cases hclass : type = lit "class"
  · subst hclass
    rw [annotateMember_class htype hc, annotateMembers_completes_iff hnode fun x hx =>
      annotateClassMember_completes hcontext hoverrides hx _]
    exact ⟨fun h _ => h, fun h => h (Or.inl htype)⟩
  by_cases hplain : type = lit "type"
  · subst hplain
    have hmember : a.annotateMember (.str m) node =
        annotateMembers (Progress.step (shortenType (.str m))) node := by
      simp [annotateMember, Json.index_of_field? htype, Json.isStr]
    rw [hmember, annotateMembers_completes_iff hnode fun x hx => shortenType_completes hx m]
    exact ⟨fun h _ => h, fun h => h (Or.inr htype)⟩
  · have hother : ¬node.IsTypeNode := by
      rintro (h | h)
      · exact hclass (Json.str.inj (Option.some.inj (htype.symm.trans h)))
      · exact hplain (Json.str.inj (Option.some.inj (htype.symm.trans h)))
    refine iff_of_true ?_ fun h => absurd h hother
    rw [annotateMember, Json.index_of_field? htype]
    simp only [Json.isStr, decide_eq_true_eq, if_neg hclass, if_neg hplain]
    split
    · exact annotateFunction_completes hcontext hoverrides hnode m
    · split
      · rfl
      · exact ignoreMember_completes hnode _ _

end Nodes

/-! ## Modules -/

theorem declaredType_eq_ok_iff (hnode : Skeleton P node) :
    (∃ d, declaredType node = .ok d) ↔
      (node.IsTypeNode → ∃ name, node.field? (lit "name") = some (.str name) ∧
        isIdentifier name = true) := by
  obtain ⟨⟨name, hname⟩, ⟨type, htype⟩, -⟩ := Skeleton.iff_fields.1 hnode
  have hdeclared : declaredType node =
      if type = lit "class" ∨ type = lit "type" then
        (if isIdentifier name then .ok (some name) else .error (.violated .isIdentifier))
      else .ok none := by
    rw [declaredType, Json.index_of_field? htype, Json.index_of_field? hname]
    simp [Json.hashable, Json.isStr, bind, Except.bind, pure, Except.pure, throw, throwThe,
      MonadExceptOf.throw]
  simp only [Json.IsTypeNode, htype, hname, hdeclared, Option.some.injEq, Json.str.injEq,
    exists_eq_left']
  split
  · rename_i hdeclares
    cases isIdentifier name with
    | true => simp
    | false => simp [hdeclares]
  · rename_i hother
    simp [hother]

/-- The annotator of a module without a configuration has no overrides. -/
theorem prepare_null {data : Json} {m : Text} {items : List Json}
    (htype : data.field? (lit "type") = some (.str (lit "module")))
    (hname : data.field? (lit "name") = some (.str m))
    (hitems : data.field? (lit "members") = some (.list items)) :
    prepare .null verbosity data =
      (items.foldlM collectType {}).map fun ctx => (.str m, ⟨ctx, [], verbosity⟩) := by
  have hconfig : ofConfig (.object []) verbosity data =
      (items.foldlM collectType {}).map fun ctx => ⟨ctx, [], verbosity⟩ := by
    rw [← collectTypes_list hitems]
    rfl
  rw [prepare, Json.index_of_field? htype, Json.index_of_field? hname]
  change (ofConfig (.object []) verbosity data >>= fun a => pure (Json.str m, a)) = _
  rw [hconfig]
  cases items.foldlM collectType {} with
  | error fault => rfl
  | ok ctx => rfl

/-- Without a configuration a skeleton can be annotated, unless the module has no members, or a class or
type among them has none or a name that is no identifier. -/
theorem annotate_null_completes_iff {data : Json} (hdata : Skeleton P data)
    (htype : data.field? (lit "type") = some (.str (lit "module"))) :
    (annotate .null verbosity data).failure = none ↔
      ∃ items, data.field? (lit "members") = some (.list items) ∧ ∀ x ∈ items, x.IsTypeNode →
        (∃ name, x.field? (lit "name") = some (.str name) ∧ isIdentifier name = true) ∧
          ∃ members, x.field? (lit "members") = some (.list members) := by
  obtain ⟨⟨m, hm⟩, -⟩ := Skeleton.iff_fields.1 hdata
  -- what the annotator has to do with the single members, once there is one
  have hsteps : ∀ items ctx, data.field? (lit "members") = some (.list items) →
      items.foldlM collectType {} = .ok ctx →
      (((⟨ctx, [], verbosity⟩ : Annotator).annotatedMembers data (.str m)).failure = none ↔
        ∀ x ∈ items, x.IsTypeNode → ∃ members, x.field? (lit "members") = some (.list members)) := by
    intro items ctx hitems hctx
    have hoverrides : ctx.overrides = [] := (foldlM_collectType_eq_ok hctx).2.1
    rw [annotatedMembers, failure_annotateMembers_list hitems]
    refine forall₂_congr fun x hx => ?_
    exact annotateMember_completes_iff (TypeContext.total_of_no_overrides hoverrides) rfl
      (hdata.of_mem_members hitems x hx) m
  constructor
  · intro h
    obtain ⟨name, a, hprep, hannotated, -⟩ := annotate_completed h
    obtain ⟨items, hitems, -⟩ := annotateMembers_completed_list hdata hannotated
    rw [prepare_null htype hm hitems] at hprep
    obtain ⟨ctx, hctx, heq⟩ := except_map_eq_ok.1 hprep
    obtain ⟨rfl, rfl⟩ := Prod.mk.inj heq
    refine ⟨items, hitems, fun x hx hnode => ⟨?_, (hsteps items ctx hitems hctx).1 hannotated x hx hnode⟩⟩
    exact (declaredType_eq_ok_iff (hdata.of_mem_members hitems x hx)).1
      ((foldlM_collectType_eq_ok hctx).1 x hx) hnode
  · rintro ⟨items, hitems, hnodes⟩
    have hdeclared : ∀ x ∈ items, ∃ d, declaredType x = .ok d := fun x hx =>
      (declaredType_eq_ok_iff (hdata.of_mem_members hitems x hx)).2 fun hnode =>
        (hnodes x hx hnode).1
    obtain ⟨ctx, hctx⟩ := exists_foldlM_collectType hdeclared {}
    have hprep : prepare .null verbosity data = .ok (.str m, ⟨ctx, [], verbosity⟩) := by
      rw [prepare_null htype hm hitems, hctx]
      rfl
    have hannotated := (hsteps items ctx hitems hctx).2 fun x hx hnode => (hnodes x hx hnode).2
    rw [annotate_eq hprep hannotated rfl]

end Annotator

end ModuleStubs
