import ModuleStubs.Text.Basic

/-!
# Records

Values under text keys, in the order in which the keys first came. A key that is
set again keeps its place. The view is `keys` and `get?`; `keys_set` and
`get?_set` say what a write does to it.
-/

set_option autoImplicit false

namespace ModuleStubs

/-- Values under text keys, in order. -/
abbrev Record (α : Type) := List (Text × α)

namespace Record

variable {α : Type}

/-- The value under a key. -/
def get? (key : Text) : Record α → Option α
  | [] => none
  | (k, v) :: r => if k = key then some v else get? key r

/-- The record with a value under a key, in the key's old place or at the end. -/
def set (key : Text) (value : α) : Record α → Record α
  | [] => [(key, value)]
  | (k, v) :: r => if k = key then (k, value) :: r else (k, v) :: set key value r

/-- The keys in order. -/
def keys (r : Record α) : List Text := r.map Prod.fst

/-- The key is present. -/
def has (key : Text) (r : Record α) : Bool := (get? key r).isSome

/-- The record of a list of writes. -/
def ofList (entries : List (Text × α)) : Record α :=
  entries.foldl (fun r (k, v) => set k v r) []

/-! ## Laws -/

theorem get?_set (key key' : Text) (value : α) (r : Record α) :
    get? key' (set key value r) = if key = key' then some value else get? key' r := by
  induction r with
  | nil => simp [set, get?]
  | cons e r ih =>
    obtain ⟨k, v⟩ := e
    by_cases h : k = key
    · subst h
      by_cases h' : k = key' <;> simp [set, get?, h']
    · by_cases h' : key = key'
      · subst h'
        simp [set, get?, h, ih]
      · simp only [set, h, if_false, get?, ih, h']

theorem keys_set_of_mem {key : Text} {value : α} {r : Record α} (h : key ∈ keys r) :
    keys (set key value r) = keys r := by
  induction r with
  | nil => simp [keys] at h
  | cons e r ih =>
    obtain ⟨k, v⟩ := e
    by_cases hk : k = key
    · simp [set, keys, hk]
    · have hm : key ∈ keys r := by
        have : key = k ∨ key ∈ keys r := by simpa [keys] using h
        exact this.resolve_left (Ne.symm hk)
      have := ih hm
      simp only [keys] at this
      simp [set, keys, hk, this]

theorem keys_set_of_not_mem {key : Text} {value : α} {r : Record α} (h : key ∉ keys r) :
    keys (set key value r) = keys r ++ [key] := by
  induction r with
  | nil => rfl
  | cons e r ih =>
    obtain ⟨k, v⟩ := e
    have hm : key ≠ k ∧ key ∉ keys r := by simpa [keys] using h
    have := ih hm.2
    simp only [keys] at this
    simp [set, keys, Ne.symm hm.1, this]

end Record

end ModuleStubs
