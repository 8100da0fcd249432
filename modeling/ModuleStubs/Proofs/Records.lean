import Mathlib.Data.List.Forall2
import ModuleStubs.Record

/-!
# Records written again and again

What is left of a record after a write, and what a look-up finds in records that were put together.
`Record.SameBut` compares two records entry by entry: the keys are the same and in the same places,
and a value is the same or one that may be written under its key. A write under a key that is there
leads to such a record (`sameBut_set`), and so does another write after it (`SameBut.set`).
-/

set_option autoImplicit false

namespace ModuleStubs

namespace Record

variable {α : Type}

/-! ## Look-up -/

theorem get?_append (key : Text) (r s : Record α) :
    get? key (r ++ s) = (get? key r).or (get? key s) := by
  induction r with
  | nil => rfl
  | cons e r ih =>
      obtain ⟨k, v⟩ := e
      rw [List.cons_append, get?, get?]
      split
      · rfl
      · exact ih

theorem mem_of_get? {key : Text} {v : α} {r : Record α}
    (h : get? key r = some v) : (key, v) ∈ r := by
  induction r with
  | nil => contradiction
  | cons e r ih =>
      obtain ⟨k, w⟩ := e
      rw [get?] at h
      split at h
      · rename_i heq
        rw [heq, Option.some.inj h]
        exact List.mem_cons_self
      · exact List.mem_cons_of_mem _ (ih h)

/-! ## Writes -/

/-- Writing the value that is there changes nothing. -/
theorem set_eq_self {key : Text} {v : α} {r : Record α} (h : get? key r = some v) :
    set key v r = r := by
  induction r with
  | nil => simp [get?] at h
  | cons e r ih =>
      obtain ⟨k, w⟩ := e
      by_cases hk : k = key
      · have hw : w = v := by simpa [get?, hk] using h
        simp [set, hk, hw]
      · have hr : get? key r = some v := by simpa [get?, hk] using h
        simp [set, hk, ih hr]

/-- The last write under a key counts. -/
theorem set_set (key : Text) (v w : α) (r : Record α) : set key w (set key v r) = set key w r := by
  induction r with
  | nil => simp [set]
  | cons e r ih =>
      obtain ⟨k, u⟩ := e
      by_cases hk : k = key
      · simp [set, hk]
      · simp [set, hk, ih]

/-- Writes under two keys commute where one of the keys has its place already. -/
theorem set_comm {key key' : Text} (hne : key ≠ key') {v u : α} (w : α) {r : Record α}
    (h : get? key r = some u) : set key' w (set key v r) = set key v (set key' w r) := by
  induction r with
  | nil => simp [get?] at h
  | cons e r ih =>
      obtain ⟨k, x⟩ := e
      by_cases hk : k = key
      · subst hk
        simp [set, hne]
      · have hr : get? key r = some u := by simpa [get?, hk] using h
        by_cases hk' : k = key'
        · subst hk'
          simp [set, hk]
        · simp [set, hk, hk', ih hr]

theorem set_append_of_not_mem {key : Text} {r : Record α} (h : key ∉ keys r) (value : α)
    (s : Record α) : set key value (r ++ s) = r ++ set key value s := by
  induction r with
  | nil => rfl
  | cons e r ih =>
      obtain ⟨k, v⟩ := e
      have hm : key ≠ k ∧ key ∉ keys r := by simpa [keys] using h
      rw [List.cons_append, set, if_neg (Ne.symm hm.1), ih hm.2, List.cons_append]

/-- A new key goes to the end. -/
theorem set_of_not_mem {key : Text} {r : Record α} (h : key ∉ keys r) (value : α) :
    set key value r = r ++ [(key, value)] := by
  have happend := set_append_of_not_mem h value []
  rwa [List.append_nil] at happend

theorem not_mem_keys_of_nodup {key : Text} {value : α} {r later : Record α}
    (h : (keys (r ++ (key, value) :: later)).Nodup) : key ∉ keys r := by
  rw [keys, List.map_append, List.nodup_append] at h
  intro hmem
  exact h.2.2 key hmem key List.mem_cons_self rfl

/-! ## Records with other values -/

/-- The records have the same keys in the same places, and the same values but for those that may be
written under their key. -/
def SameBut (R : Text → α → α → Prop) (r r' : Record α) : Prop :=
  List.Forall₂ (fun e e' => e'.1 = e.1 ∧ (e'.2 = e.2 ∨ R e.1 e.2 e'.2)) r r'

variable {R : Text → α → α → Prop} {r r' : Record α} {key : Text}

theorem SameBut.refl (R : Text → α → α → Prop) (r : Record α) : SameBut R r r := by
  induction r with
  | nil => exact .nil
  | cons e r ih => exact .cons ⟨rfl, Or.inl rfl⟩ ih

theorem SameBut.keys_eq (h : SameBut R r r') : keys r' = keys r := by
  induction h with
  | nil => rfl
  | cons he _ ih => exact congrArg₂ List.cons he.1 ih

/-- A value of the second record stands in the place of one of the first. -/
theorem SameBut.get? (h : SameBut R r r') {v' : α} (hget : Record.get? key r' = some v') :
    ∃ v, Record.get? key r = some v ∧ (v' = v ∨ R key v v') := by
  induction h with
  | nil => contradiction
  | @cons e e' r r' he _ ih =>
      obtain ⟨k, v⟩ := e
      obtain ⟨k', w⟩ := e'
      obtain ⟨rfl, hw⟩ := he
      rw [Record.get?] at hget ⊢
      split at hget
      · rename_i hkey
        rw [if_pos hkey]
        obtain rfl := Option.some.inj hget
        exact ⟨v, rfl, hkey ▸ hw⟩
      · rename_i hkey
        rw [if_neg hkey]
        exact ih hget

/-- A write in place of a value that it may be written for. -/
theorem sameBut_set {v w : α} (h : Record.get? key r = some v) (hw : R key v w) :
    SameBut R r (set key w r) := by
  induction r with
  | nil => contradiction
  | cons e r ih =>
      obtain ⟨k, u⟩ := e
      rw [Record.get?] at h
      rw [Record.set]
      split at h
      · rename_i hkey
        rw [if_pos hkey]
        obtain rfl := Option.some.inj h
        exact .cons ⟨rfl, Or.inr (hkey ▸ hw)⟩ (SameBut.refl R r)
      · rename_i hkey
        rw [if_neg hkey]
        exact .cons ⟨rfl, Or.inl rfl⟩ (ih h)

/-- One more write, where the value may be written for any other. -/
theorem SameBut.set {w : α} (h : SameBut R r r') (hkey : key ∈ keys r) (hw : ∀ v, R key v w) :
    SameBut R r (Record.set key w r') := by
  induction h with
  | nil => simp [keys] at hkey
  | @cons e e' r r' he hr ih =>
      obtain ⟨k, v⟩ := e
      obtain ⟨k', v'⟩ := e'
      obtain ⟨rfl, hv⟩ := he
      rw [Record.set]
      split
      · rename_i heq
        exact .cons ⟨rfl, Or.inr (heq ▸ hw v)⟩ hr
      · rename_i hne
        have hmem : key = k' ∨ key ∈ keys r := by simpa [keys] using hkey
        exact .cons ⟨rfl, hv⟩ (ih (hmem.resolve_left (Ne.symm hne)))

end Record

end ModuleStubs
