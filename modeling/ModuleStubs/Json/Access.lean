import ModuleStubs.Fault

/-!
# Access to JSON of any shape

The few ways in which a node is looked at: a field that must be there (`index`),
a field with a default (`fieldOr`), a test for a key (`mentions`), the elements
(`elements`). On objects with the expected fields they are the record operations;
on any other value they give the fault that says what was asked of it.
-/

set_option autoImplicit false

namespace ModuleStubs

namespace Text

/-- The text occurs in the other one. -/
def occursIn (p : Text) : Text → Bool
  | [] => p.isEmpty
  | c :: t => p.isPrefixOf (c :: t) || occursIn p t

end Text

namespace Json

/-- A field that must be there. -/
def index (key : Text) (v : Json) : Except Fault Json :=
  match v with
  | .object fields =>
    match Record.get? key fields with
    | some w => .ok w
    | none => .error (.missingKey key)
  | .list _ => .error (.keyIntoSequence .list)
  | .str _ => .error (.keyIntoSequence .str)
  | _ => .error (.notSubscriptable v.kind)

/-- A field with a default. -/
def fieldOr (key : Text) (v default : Json) : Except Fault Json :=
  match v with
  | .object fields => .ok ((Record.get? key fields).getD default)
  | _ => .error (.noMethod v.kind (lit "get"))

/-- A key of an object, an item of a list or a piece of a string. -/
def mentions (key : Text) (v : Json) : Except Fault Bool :=
  match v with
  | .object fields => .ok (Record.has key fields)
  | .list items => .ok (items.any (isStr · key))
  | .str s => .ok (Text.occursIn key s)
  | _ => .error (.notSearchable v.kind)

/-- The items of a list, the keys of an object or the code points of a string. -/
def elements (v : Json) : Except Fault (List Json) :=
  match v with
  | .list items => .ok items
  | .object fields => .ok ((Record.keys fields).map .str)
  | .str s => .ok (s.map fun c => .str [c])
  | _ => .error (.notIterable v.kind)

/-- Values that can be members of a set. -/
def hashable (v : Json) : Except Fault Unit :=
  match v with
  | .list _ => .error (.notHashable .list)
  | .object _ => .error (.notHashable .object)
  | _ => .ok ()

/-- The text of a string that something is appended to. -/
def leftText (v : Json) : Except Fault Text :=
  match v with
  | .str s => .ok s
  | _ => .error (.notAddable v.kind)

/-- The text of a string that is appended. -/
def rightText (v : Json) : Except Fault Text :=
  match v with
  | .str s => .ok s
  | _ => .error (.notAppendable v.kind)

/-- A string with a method called on it. -/
def textFor (method : Text) (v : Json) : Except Fault Text :=
  match v with
  | .str s => .ok s
  | _ => .error (.noMethod v.kind method)

/-! ## Laws -/

theorem index_eq_ok_iff {key : Text} {v w : Json} : v.index key = .ok w ↔ v.field? key = some w := by
  cases v with
  | object fields =>
    simp only [index, field?]
    cases Record.get? key fields <;> simp
  | _ => simp [index, field?]

/-- The elements of a value are no larger than the value, taken together with the
value itself: only the items of a list are parts of it. -/
theorem size_lt_of_mem_items {items : List Json} {v : Json} (h : v ∈ items) :
    size v < size (.list items) := by
  have : size v ≤ itemsSize items := by
    induction items with
    | nil => simp at h
    | cons x xs ih =>
      simp only [itemsSize]
      rcases List.mem_cons.1 h with rfl | h
      · omega
      · have := ih h
        omega
  simp only [size]
  omega

end Json

end ModuleStubs
