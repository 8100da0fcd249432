import ModuleStubs.Proofs.Annotation.Completed
import ModuleStubs.Proofs.Records

/-!
# Rearranged skeletons

A rearrangement puts the members of a node in another order, and the members of its members, to any
depth. It is given by indices, so that the same one can be made in a skeleton and in the annotated
skeleton. Delivered here:

* `reorder`, a list in another order, and `Rearrangement` with its action on nodes (`apply`) and the
  condition that no member is lost or doubled (`Fits`);
* `Json.onMembers`: whatever is done to the members of a node leaves its other fields alone, and a
  change that neither reads nor writes the members may be made before or after it
  (`annotateFunction_onMembers`, `annotateClassMember_onMembers`, `shortenType_onMembers`).
-/

set_option autoImplicit false

namespace ModuleStubs

/-! ## Lists in another order -/

section Reorder

variable {α β : Type}

/-- The elements of a list at the given indices. -/
def reorder (order : List Nat) (items : List α) : List α := order.filterMap fun i => items[i]?

theorem map_reorder (f : α → β) (order : List Nat) (items : List α) :
    (reorder order items).map f = reorder order (items.map f) := by
  simp only [reorder, List.map_filterMap, List.getElem?_map]

/-- All indices in their own order give the list itself. -/
theorem reorder_range (items : List α) : reorder (List.range items.length) items = items := by
  have hmap : (List.range items.length).map (fun i => items[i]?) = items.map some := by
    apply List.ext_getElem?
    intro i
    by_cases hi : i < items.length
    · simp [hi]
    · simp [hi]
  calc reorder (List.range items.length) items
      = ((List.range items.length).map fun i => items[i]?).filterMap id := by
        rw [List.filterMap_map]; rfl
    _ = items := by rw [hmap, List.filterMap_map]; simp

/-- All indices in any order lose nothing and double nothing. -/
theorem reorder_perm {order : List Nat} {items : List α}
    (h : order.Perm (List.range items.length)) : (reorder order items).Perm items := by
  have := h.filterMap fun i => items[i]?
  rwa [show (List.range items.length).filterMap (fun i => items[i]?) = items from
    reorder_range items] at this

end Reorder

namespace Json

/-! ## Something done to the members of a node -/

/-- A node with its members replaced, if it has any. -/
def onMembers (g : Json → Json) (node : Json) : Json :=
  match node.field? (lit "members") with
  | some v => node.withField (lit "members") (g v)
  | none => node

variable {g : Json → Json} {node v w : Json} {key : Text}

theorem onMembers_of_field? (h : node.field? (lit "members") = some v) :
    node.onMembers g = node.withField (lit "members") (g v) := by
  rw [onMembers, h]

theorem onMembers_of_none (h : node.field? (lit "members") = none) : node.onMembers g = node := by
  rw [onMembers, h]

theorem withField_eq_self (h : node.field? key = some v) : node.withField key v = node := by
  obtain ⟨fields, rfl⟩ := eq_object_of_field? h
  rw [withField_object, Record.set_eq_self h]

theorem withField_withField (node : Json) (key : Text) (v w : Json) :
    (node.withField key v).withField key w = node.withField key w := by
  cases node with
  | object fields => simp only [withField_object, Record.set_set]
  | _ => rfl

theorem field?_onMembers (hkey : lit "members" ≠ key) :
    (node.onMembers g).field? key = node.field? key := by
  cases h : node.field? (lit "members") with
  | none => rw [onMembers_of_none h]
  | some v => rw [onMembers_of_field? h, field?_withField_of_ne hkey]

theorem index_onMembers (hkey : lit "members" ≠ key) :
    (node.onMembers g).index key = node.index key := by
  cases h : node.field? (lit "members") with
  | none => rw [onMembers_of_none h]
  | some v =>
      obtain ⟨fields, rfl⟩ := eq_object_of_field? h
      rw [onMembers_of_field? h, withField_object]
      simp only [index, Record.get?_set, if_neg hkey]

/-- Another field may be written before or after the members are replaced. -/
theorem withField_onMembers (hkey : lit "members" ≠ key) (w : Json) :
    (node.onMembers g).withField key w = (node.withField key w).onMembers g := by
  -- the other field neither adds members nor takes them away
  cases h : node.field? (lit "members") with
  | none =>
      have h' : (node.withField key w).field? (lit "members") = none := by
        rw [field?_withField_of_ne hkey.symm, h]
      rw [onMembers_of_none h, onMembers_of_none h']
  | some v =>
      have h' : (node.withField key w).field? (lit "members") = some v := by
        rw [field?_withField_of_ne hkey.symm, h]
      obtain ⟨fields, rfl⟩ := eq_object_of_field? h
      rw [onMembers_of_field? h, onMembers_of_field? h']
      simp only [withField_object, Record.set_comm hkey w h]

end Json

namespace Progress

variable {μ ε α : Type}

/-- A change that commutes with an operation does so as a step. -/
theorem step_comm {f : α → Trace μ ε α} {h : α → α} {a : α} (hf : f (h a) = h <$> f a) :
    step f (h a) = (step f a).map h := by
  rw [step, step, hf]
  rcases f a with ⟨log, r⟩
  cases r with
  | error e => rfl
  | ok b =>
      have hmap : h <$> (⟨log, .ok b⟩ : Trace μ ε α) = ⟨log, .ok (h b)⟩ := by
        rw [← bind_pure_comp]
        simp
      rw [hmap]
      rfl

/-- Changes that commute with an operation do so one after the other. -/
theorem run_comm {fs : List (α → Progress μ ε α)} {h : α → α}
    (hfs : ∀ f ∈ fs, ∀ a, f (h a) = (f a).map h) : ∀ a, run fs (h a) = (run fs a).map h := by
  induction fs with
  | nil => exact fun a => rfl
  | cons f fs ih =>
      intro a
      rw [run_cons, run_cons, hfs f List.mem_cons_self, andThen, andThen, failure_map]
      -- a failure ends both runs at the same change
      cases (f a).failure with
      | some e => rfl
      | none =>
          have hrest := ih (fun g hg => hfs g (List.mem_cons_of_mem _ hg)) (f a).value
          simp only [value_map, hrest, log_map, failure_map]
          rfl

end Progress

namespace Annotator

variable {a : Annotator} {path : Text} {g : Json → Json} {node : Json}

/-! ## Changes that do not look at the members -/

theorem withSignature_onMembers (s : Signature) :
    withSignature s (node.onMembers g) = (withSignature s node).onMembers g :=
  Json.withField_onMembers (by decide) _

theorem annotateFromDoc_onMembers :
    a.annotateFromDoc path (node.onMembers g) =
      Json.onMembers g <$> a.annotateFromDoc path node := by
  rw [annotateFromDoc, annotateFromDoc, Json.field?_onMembers (by decide)]
  cases node.field? (lit "doc") with
  | none => simp only [map_pure]
  | some doc =>
      simp only [map_bind]
      refine bind_congr fun read => ?_
      cases read with
      | none => simp only [map_pure]
      | some found =>
          obtain ⟨s, rest⟩ := found
          simp only [map_pure, withSignature_onMembers, Json.withField_onMembers
            (show lit "members" ≠ lit "doc" by decide)]

theorem annotateFromOverride_onMembers {o : SignatureOverride} {index : Nat} :
    a.annotateFromOverride path o index (node.onMembers g) =
      Json.onMembers g <$> a.annotateFromOverride path o index node := by
  rw [annotateFromOverride, annotateFromOverride]
  simp only [map_bind]
  refine bind_congr fun found => ?_
  cases found with
  | none => simp only [map_pure]
  | some candidate =>
      simp only [map_bind]
      refine bind_congr fun _ => bind_congr fun _ => bind_congr fun read => ?_
      cases read with
      | none => simp only [map_bind, map_pure]
      | some s => simp only [map_pure, withSignature_onMembers]

theorem childPath_onMembers {parent : Json} :
    childPath parent (node.onMembers g) = childPath parent node := by
  rw [childPath, childPath, Json.index_onMembers (by decide)]

/-- Functions are annotated without a look at members. -/
theorem annotateFunction_onMembers {parent : Json} :
    a.annotateFunction parent (node.onMembers g) =
      (a.annotateFunction parent node).map (Json.onMembers g) := by
  rw [annotateFunction, annotateFunction, childPath_onMembers]
  cases childPath parent node with
  | error e => rfl
  | ok path =>
      refine Progress.run_comm ?_ node
      intro change hchange n
      rcases List.mem_cons.1 hchange with rfl | hchange
      · exact Progress.step_comm annotateFromDoc_onMembers
      · obtain ⟨i, hi, rfl⟩ := List.mem_mapIdx.1 hchange
        exact Progress.step_comm annotateFromOverride_onMembers

theorem ignoreMember_onMembers {verbosity : Int} {parent : Text} {type : Json} :
    ignoreMember verbosity parent type (node.onMembers g) =
      Json.onMembers g <$> ignoreMember verbosity parent type node := by
  rw [ignoreMember, ignoreMember]
  split
  · simp only [map_pure]
  · simp only [Json.index_onMembers (show lit "members" ≠ lit "name" by decide), map_bind, map_pure]

theorem shortenType_onMembers {moduleName : Json} :
    shortenType moduleName (node.onMembers g) = Json.onMembers g <$> shortenType moduleName node := by
  rw [shortenType, shortenType, Json.index_onMembers (by decide)]
  simp only [map_bind]
  refine bind_congr fun type => bind_congr fun name => ?_
  split
  · simp only [map_pure, Json.withField_onMembers (show lit "members" ≠ lit "type" by decide)]
  · simp only [map_pure]

/-- So are the members of a class. -/
theorem annotateClassMember_onMembers :
    a.annotateClassMember path (node.onMembers g) =
      (a.annotateClassMember path node).map (Json.onMembers g) := by
  rw [annotateClassMember, annotateClassMember, Json.index_onMembers (by decide)]
  cases node.index (lit "type") with
  | error e => rfl
  | ok type =>
      simp only
      split
      · exact annotateFunction_onMembers
      · split
        · rfl
        · exact Progress.step_comm ignoreMember_onMembers

end Annotator

/-! ## Rearrangements -/

/-- A node that stays as it is, or whose members are put in another order and rearranged in turn,
each by its old index. -/
inductive Rearrangement where
  | keep
  | move (order : List Nat) (inner : Nat → Rearrangement)

namespace Rearrangement

/-- A node rearranged. Only the items of a list are put in another order. -/
def apply : Rearrangement → Json → Json
  | .keep, node => node
  | .move order inner, node => node.onMembers fun
    | .list items => .list (reorder order (items.mapIdx fun i x => (inner i).apply x))
    | v => v

/-- The members of a node, and those of its members, are put in order by all of their indices. -/
def Fits : Rearrangement → Json → Prop
  | .keep, _ => True
  | .move order inner, node => ∀ items, node.field? (lit "members") = some (.list items) →
    order.Perm (List.range items.length) ∧ ∀ i x, items[i]? = some x → (inner i).Fits x

variable {order : List Nat} {inner : Nat → Rearrangement} {node : Json}

/-- Every rearrangement acts on the members and on nothing else. -/
theorem exists_onMembers : ∀ σ : Rearrangement, ∃ g, ∀ node, σ.apply node = node.onMembers g
  | .keep => by
      refine ⟨id, fun node => ?_⟩
      cases h : node.field? (lit "members") with
      | none => rw [Json.onMembers_of_none h]; rfl
      | some v => rw [Json.onMembers_of_field? h, id, Json.withField_eq_self h]; rfl
  | .move order inner => ⟨_, fun node => apply.eq_2 node order inner⟩

theorem apply_move_list {items : List Json}
    (h : node.field? (lit "members") = some (.list items)) :
    (move order inner).apply node = node.withField (lit "members")
      (.list (reorder order (items.mapIdx fun i x => (inner i).apply x))) := by
  rw [apply, Json.onMembers_of_field? h]

theorem field?_apply_move {items : List Json}
    (h : node.field? (lit "members") = some (.list items)) :
    ((move order inner).apply node).field? (lit "members") =
      some (.list (reorder order (items.mapIdx fun i x => (inner i).apply x))) := by
  rw [apply_move_list h, Json.field?_withField_self h]

/-- Without a list of members there is nothing to rearrange. -/
theorem apply_move_of_ne (h : ∀ items, node.field? (lit "members") ≠ some (.list items)) :
    (move order inner).apply node = node := by
  rw [apply]
  cases hv : node.field? (lit "members") with
  | none => rw [Json.onMembers_of_none hv]
  | some v =>
      rw [Json.onMembers_of_field? hv]
      cases v with
      | list items => exact absurd hv (h items)
      | _ => exact Json.withField_eq_self hv

theorem index_apply (σ : Rearrangement) {key : Text} (hkey : lit "members" ≠ key) (node : Json) :
    (σ.apply node).index key = node.index key := by
  obtain ⟨g, hg⟩ := exists_onMembers σ
  rw [hg, Json.index_onMembers hkey]

end Rearrangement

end ModuleStubs
