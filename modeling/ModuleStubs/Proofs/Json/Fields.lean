import ModuleStubs.Json.Access

/-!
# Fields and texts of values

What a look-up that succeeds says about the value: a value with a field is an object, and one with a
text is a string.
-/

set_option autoImplicit false

namespace ModuleStubs

namespace Json

@[simp] theorem field?_object (key : Text) (fields : Record Json) :
    (Json.object fields).field? key = Record.get? key fields := rfl

/-- A value with a field is an object. -/
theorem eq_object_of_field? {v w : Json} {key : Text} (h : v.field? key = some w) :
    ∃ fields, v = .object fields := by
  cases v with
  | object fields => exact ⟨fields, rfl⟩
  | _ => simp [field?] at h

theorem index_of_field? {v w : Json} {key : Text} (h : v.field? key = some w) :
    v.index key = .ok w := index_eq_ok_iff.2 h

theorem eq_str_of_isStr {v : Json} {s : Text} (h : v.isStr s = true) : v = .str s := by
  cases v with
  | str t => exact congrArg Json.str (of_decide_eq_true h)
  | _ => simp [isStr] at h

theorem isStr_eq_false {v : Json} {s : Text} (h : v ≠ .str s) : v.isStr s = false :=
  Bool.eq_false_iff.2 fun hstr => h (eq_str_of_isStr hstr)

/-- A value is the string of one text only. -/
theorem isStr_ne {v : Json} {s t : Text} (h : v.isStr s = true) (hne : s ≠ t) : v.isStr t = false := by
  rw [eq_str_of_isStr h]
  exact decide_eq_false hne

/-- Only strings have a text to append to. -/
theorem leftText_eq_ok {v : Json} {t : Text} (h : v.leftText = .ok t) : v = .str t := by
  cases v with
  | str s => exact congrArg Json.str (Except.ok.inj h)
  | _ => simp [leftText] at h

/-- Only strings have a text that is appended. -/
theorem rightText_eq_ok {v : Json} {t : Text} (h : v.rightText = .ok t) : v = .str t := by
  cases v with
  | str s => exact congrArg Json.str (Except.ok.inj h)
  | _ => contradiction

/-- Only strings have the methods of texts. -/
theorem textFor_eq_ok {method : Text} {v : Json} {t : Text} (h : v.textFor method = .ok t) :
    v = .str t := by
  cases v with
  | str s => exact congrArg Json.str (Except.ok.inj h)
  | _ => simp [textFor] at h

/-- The parts of a value that is no list are texts. -/
theorem eq_str_of_mem_elements {u x : Json} {parts : List Json} (hlist : ∀ items, u ≠ .list items)
    (h : u.elements = .ok parts) (hx : x ∈ parts) : ∃ t, x = .str t := by
  cases u with
  | list items => exact absurd rfl (hlist items)
  | object fields =>
      obtain rfl := Except.ok.inj h
      obtain ⟨t, -, rfl⟩ := List.mem_map.1 hx
      exact ⟨t, rfl⟩
  | str s =>
      obtain rfl := Except.ok.inj h
      obtain ⟨c, -, rfl⟩ := List.mem_map.1 hx
      exact ⟨[c], rfl⟩
  | _ => simp [elements] at h

end Json

end ModuleStubs
