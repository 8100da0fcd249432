import ModuleStubs.Proofs.Completion
import ModuleStubs.Proofs.Grammar.Tokens
import ModuleStubs.Proofs.Json.Fields
import ModuleStubs.Proofs.Number.Nearest
import ModuleStubs.Proofs.Records

/-!
# Values as the reader gives them

A condition on single values is carried through all parts of a value by `every`. Two such conditions
matter for files: texts without halves of surrogate pairs (`hasScalarTexts`), and the form in which
values are read (`isCanonical`), with distinct keys and only one number that is none. Whatever the reader
accepts is canonical (`canonical_of_parse`).
-/

set_option autoImplicit false

namespace ModuleStubs

namespace Json

/-! ## Conditions on all parts -/

mutual

/-- A condition holds of a value and of all values in it. -/
def every (p : Json → Bool) : Json → Bool
  | .list items => p (.list items) && everyItem p items
  | .object fields => p (.object fields) && everyField p fields
  | v => p v

/-- A condition holds of all values in the items of a list. -/
def everyItem (p : Json → Bool) : List Json → Bool
  | [] => true
  | v :: vs => every p v && everyItem p vs

/-- A condition holds of all values in the fields of an object. -/
def everyField (p : Json → Bool) : List (Text × Json) → Bool
  | [] => true
  | (_, v) :: fs => every p v && everyField p fs

end

section Every

variable {p : Json → Bool}

theorem everyItem_iff {items : List Json} :
    everyItem p items = true ↔ ∀ v ∈ items, v.every p = true := by
  induction items with
  | nil => simp [everyItem]
  | cons v vs ih => simp [everyItem, ih]

theorem everyField_iff {fields : Record Json} :
    everyField p fields = true ↔ ∀ f ∈ fields, f.2.every p = true := by
  induction fields with
  | nil => simp [everyField]
  | cons f fs ih =>
      obtain ⟨k, v⟩ := f
      simp [everyField, ih]

theorem every_list {items : List Json} :
    (Json.list items).every p = true ↔ p (.list items) = true ∧ ∀ v ∈ items, v.every p = true := by
  rw [every, Bool.and_eq_true, everyItem_iff]

theorem every_object {fields : Record Json} :
    (Json.object fields).every p = true ↔
      p (.object fields) = true ∧ ∀ f ∈ fields, f.2.every p = true := by
  rw [every, Bool.and_eq_true, everyField_iff]

theorem every_self {v : Json} (h : v.every p = true) : p v = true := by
  cases v with
  | list items => exact (every_list.1 h).1
  | object fields => exact (every_object.1 h).1
  | _ => exact h

/-- The condition holds of the field of an object. -/
theorem every_field? {v w : Json} {key : Text} (h : v.every p = true)
    (hfield : v.field? key = some w) : w.every p = true := by
  obtain ⟨fields, rfl⟩ := eq_object_of_field? hfield
  exact (every_object.1 h).2 _ (Record.mem_of_get? hfield)

theorem every_index {v w : Json} {key : Text} (h : v.every p = true) (hindex : v.index key = .ok w) :
    w.every p = true :=
  every_field? h (index_eq_ok_iff.1 hindex)

/-- A field with a default that meets the condition. -/
theorem every_fieldOr {v w fallback : Json} {key : Text} (h : v.every p = true)
    (hfallback : fallback.every p = true) (hfield : v.fieldOr key fallback = .ok w) :
    w.every p = true := by
  cases v with
  | object fields =>
      obtain rfl := Except.ok.inj hfield
      cases hget : Record.get? key fields with
      | none => exact hfallback
      | some u => exact every_field? h hget
  | _ => contradiction

end Every

section And

variable (p q : Json → Bool)

mutual

/-- Two conditions hold of all parts together if each of them does. -/
theorem every_and : ∀ v : Json, v.every (fun w => p w && q w) = (v.every p && v.every q)
  | .null | .bool _ | .int _ | .float _ | .str _ => rfl
  | .list items => by
      simp only [every, everyItem_and items]
      ac_rfl
  | .object fields => by
      simp only [every, everyField_and fields]
      ac_rfl

theorem everyItem_and : ∀ vs : List Json,
    everyItem (fun w => p w && q w) vs = (everyItem p vs && everyItem q vs)
  | [] => rfl
  | v :: vs => by
      simp only [everyItem, every_and v, everyItem_and vs]
      ac_rfl

theorem everyField_and : ∀ fs : List (Text × Json),
    everyField (fun w => p w && q w) fs = (everyField p fs && everyField q fs)
  | [] => rfl
  | (_, v) :: fs => by
      simp only [everyField, every_and v, everyField_and fs]
      ac_rfl

end

end And

/-! ## Restorable values -/

/-- The texts that a value has of its own, outside the values in it: the text of a string and the keys of
an object. -/
def ownTexts : Json → List Text
  | .str s => [s]
  | .object fields => Record.keys fields
  | _ => []

/-- No text of its own has half of a surrogate pair in it. -/
def hasScalarTexts (v : Json) : Bool := v.ownTexts.all Text.isScalar

/-- The value has the form in which values are read: keys are distinct, and a number that is none is the
one with that name. -/
def isCanonical : Json → Bool
  | .float x => !x.isNaN || x == Binary64.nan
  | .object fields => decide (Record.keys fields).Nodup
  | _ => true

/-- All that a document tells of the value can be read from it. -/
def isRestorable (v : Json) : Bool := v.every fun w => w.hasScalarTexts && w.isCanonical

theorem isRestorable_iff {v : Json} :
    v.isRestorable = true ↔ v.every hasScalarTexts = true ∧ v.every isCanonical = true := by
  rw [isRestorable, every_and, Bool.and_eq_true]

theorem isRestorable_list {items : List Json} :
    (Json.list items).isRestorable = true ↔ ∀ v ∈ items, v.isRestorable = true := by
  rw [isRestorable, every_list]
  exact and_iff_right rfl

theorem isRestorable_object {fields : Record Json} :
    (Json.object fields).isRestorable = true ↔ (Record.keys fields).Nodup ∧
      (∀ k ∈ Record.keys fields, k.isScalar = true) ∧ ∀ f ∈ fields, f.2.isRestorable = true := by
  rw [isRestorable, every_object, Bool.and_eq_true]
  simp only [hasScalarTexts, ownTexts, isCanonical, List.all_eq_true, decide_eq_true_eq]
  rw [and_comm (b := (Record.keys fields).Nodup), and_assoc]
  rfl

/-! ## Reading -/

/-- Distinct keys, and fields that are canonical throughout. -/
def CanonicalFields (fields : Record Json) : Prop :=
  (Record.keys fields).Nodup ∧ ∀ f ∈ fields, f.2.every isCanonical = true

theorem every_isCanonical_object {fields : Record Json} :
    (Json.object fields).every isCanonical = true ↔ CanonicalFields fields := by
  rw [every_object, isCanonical, decide_eq_true_eq]
  rfl

end Json

/-- Writing a field keeps keys distinct. -/
theorem Record.nodup_keys_set {α : Type} {fields : Record α} (h : (keys fields).Nodup) (key : Text)
    (v : α) : (keys (set key v fields)).Nodup := by
  by_cases hkey : key ∈ keys fields
  · rwa [keys_set_of_mem hkey]
  · rw [keys_set_of_not_mem hkey, List.nodup_append]
    refine ⟨h, List.nodup_singleton key, ?_⟩
    rintro k hk l hl rfl
    exact hkey (List.mem_singleton.1 hl ▸ hk)

/-- The fields after a write are the new one and some of those before. -/
theorem Record.mem_of_mem_set {α : Type} {fields : Record α} {key : Text} {v : α} {f : Text × α}
    (h : f ∈ set key v fields) : f = (key, v) ∨ f ∈ fields := by
  induction fields with
  | nil => exact Or.inl (List.mem_singleton.1 h)
  | cons e fields ih =>
      obtain ⟨k, w⟩ := e
      rw [set] at h
      split at h
      · rename_i hk
        rcases List.mem_cons.1 h with rfl | hmem
        · exact Or.inl (by rw [hk])
        · exact Or.inr (List.mem_cons_of_mem _ hmem)
      · rcases List.mem_cons.1 h with rfl | hmem
        · exact Or.inr List.mem_cons_self
        · rcases ih hmem with hnew | hold
          · exact Or.inl hnew
          · exact Or.inr (List.mem_cons_of_mem _ hold)

namespace Json

theorem CanonicalFields.set {fields : Record Json} (h : CanonicalFields fields) (key : Text) {v : Json}
    (hv : v.every isCanonical = true) : CanonicalFields (Record.set key v fields) := by
  refine ⟨Record.nodup_keys_set h.1 key v, fun f hf => ?_⟩
  rcases Record.mem_of_mem_set hf with rfl | hold
  · exact hv
  · exact h.2 f hold

theorem every_isCanonical_of_name {p : Text} {v : Json} (h : Grammar.Name p v) :
    v.every isCanonical = true := by
  cases h <;> decide +kernel

theorem every_isCanonical_of_numeral {p : Text} {v : Json} (h : Grammar.Numeral p v) :
    v.every isCanonical = true := by
  cases h with
  | integer hw => rfl
  | decimal hw hf he hsome =>
      change (!Binary64.isNaN _ || _) = true
      rw [Grammar.nearest, Binary64.isNaN_ofRatio]
      rfl

/-- What the reader gives with some fuel is canonical. -/
structure ReadsCanonical (fuel : Nat) : Prop where
  value : ∀ t v rest, readValue fuel t = .ok (v, rest) → v.every isCanonical = true
  items : ∀ t vs rest, readItems fuel t = .ok (vs, rest) → ∀ v ∈ vs, v.every isCanonical = true
  fields : ∀ fields t all rest, readFields fuel fields t = .ok (all, rest) →
    CanonicalFields fields → CanonicalFields all

section Step

variable {fuel : Nat} (ih : ReadsCanonical fuel)
include ih

theorem canonical_of_readValue {t rest : Text} {v : Json}
    (h : readValue (fuel + 1) t = .ok (v, rest)) : v.every isCanonical = true := by
  rw [readValue.eq_def] at h
  simp only at h
  split at h
  · contradiction
  split at h
  · -- a string
    obtain ⟨r, -, heq⟩ := except_map_eq_ok.1 h
    obtain ⟨rfl, -⟩ := Prod.mk.inj heq
    rfl
  split at h
  · -- an object
    split at h
    · contradiction
    · split at h
      · obtain ⟨rfl, -⟩ := Prod.mk.inj (Except.ok.inj h)
        rfl
      · obtain ⟨r, hread, heq⟩ := except_map_eq_ok.1 h
        obtain ⟨rfl, -⟩ := Prod.mk.inj heq
        exact every_isCanonical_object.2 (ih.fields _ _ _ _ hread ⟨List.nodup_nil, nofun⟩)
  split at h
  · -- a list
    split at h
    · contradiction
    · split at h
      · obtain ⟨rfl, -⟩ := Prod.mk.inj (Except.ok.inj h)
        rfl
      · obtain ⟨r, hread, heq⟩ := except_map_eq_ok.1 h
        obtain ⟨rfl, -⟩ := Prod.mk.inj heq
        exact every_list.2 ⟨rfl, ih.items _ _ _ hread⟩
  split at h
  · rename_i hname
    obtain rfl := Except.ok.inj h
    obtain ⟨p, -, hname⟩ := Grammar.name_of_named? hname
    exact every_isCanonical_of_name hname
  · split at h
    · rename_i hnumeral
      obtain rfl := Except.ok.inj h
      obtain ⟨p, -, hnumeral⟩ := Grammar.numeral_of_numeral? hnumeral
      exact every_isCanonical_of_numeral hnumeral
    · contradiction

theorem canonical_of_readItems {t rest : Text} {vs : List Json}
    (h : readItems (fuel + 1) t = .ok (vs, rest)) : ∀ v ∈ vs, v.every isCanonical = true := by
  rw [readItems] at h
  obtain ⟨⟨v, r⟩, hvalue, h⟩ := except_bind_eq_ok.1 h
  simp only at h
  split at h
  · contradiction
  · split at h
    · obtain ⟨rfl, -⟩ := Prod.mk.inj (Except.ok.inj h)
      exact List.forall_mem_singleton.2 (ih.value _ _ _ hvalue)
    · split at h
      · obtain ⟨⟨ws, r'⟩, hitems, h⟩ := except_bind_eq_ok.1 h
        obtain ⟨rfl, -⟩ := Prod.mk.inj (Except.ok.inj h)
        exact List.forall_mem_cons.2 ⟨ih.value _ _ _ hvalue, ih.items _ _ _ hitems⟩
      · contradiction

theorem canonical_of_readFields {fields all : Record Json} {t rest : Text}
    (h : readFields (fuel + 1) fields t = .ok (all, rest)) (hfields : CanonicalFields fields) :
    CanonicalFields all := by
  rw [readFields.eq_def] at h
  simp only at h
  split at h
  · contradiction
  split at h
  · contradiction
  obtain ⟨⟨key, r⟩, -, h⟩ := except_bind_eq_ok.1 h
  simp only at h
  split at h
  · contradiction
  split at h
  · contradiction
  obtain ⟨⟨v, r'⟩, hvalue, h⟩ := except_bind_eq_ok.1 h
  -- the field just read joins those before it
  have hset := hfields.set key (ih.value _ _ _ hvalue)
  simp only at h
  split at h
  · contradiction
  · split at h
    · obtain ⟨rfl, -⟩ := Prod.mk.inj (Except.ok.inj h)
      exact hset
    · split at h
      · exact ih.fields _ _ _ _ h hset
      · contradiction

end Step

theorem readsCanonical (fuel : Nat) : ReadsCanonical fuel := by
  induction fuel with
  | zero =>
      refine ⟨fun t v rest h => ?_, fun t vs rest h => ?_, fun fields t all rest h => ?_⟩
      · rw [readValue] at h
        contradiction
      · rw [readItems] at h
        contradiction
      · rw [readFields] at h
        contradiction
  | succ fuel ih =>
      exact ⟨fun _ _ _ h => canonical_of_readValue ih h, fun _ _ _ h => canonical_of_readItems ih h,
        fun _ _ _ _ h hfields => canonical_of_readFields ih h hfields⟩

/-- What is read from a document is canonical. -/
theorem canonical_of_parse {t : Text} {v : Json} (h : parse t = .ok v) :
    v.every isCanonical = true := by
  simp only [parse] at h
  split at h
  · contradiction
  · split at h
    · contradiction
    · rename_i w rest hread
      split at h
      · obtain rfl := Except.ok.inj h
        exact (readsCanonical _).value _ _ _ hread
      · contradiction

end Json

end ModuleStubs
