import ModuleStubs.Number.Layout
import ModuleStubs.Record
import ModuleStubs.Text.Quoted

/-!
# JSON values

The value type of skeletons and configurations: integers of any size beside
binary64 numbers, texts of code points, and objects whose fields keep their
order. `Json.literal` is the Python literal of a value and `Json.display` its
text inside other text, where a string stands for itself.
-/

set_option autoImplicit false

namespace ModuleStubs

/-- A JSON value. -/
inductive Json where
  | null
  | bool (b : Bool)
  | int (n : Int)
  | float (x : Binary64)
  | str (s : Text)
  | list (items : List Json)
  | object (fields : List (Text × Json))
deriving Inhabited

/-- The kinds of JSON values. -/
inductive Kind where
  | null | bool | int | float | str | list | object
deriving DecidableEq

/-- The name of a kind in messages. -/
def Kind.name : Kind → Text
  | .null => lit "NoneType"
  | .bool => lit "bool"
  | .int => lit "int"
  | .float => lit "float"
  | .str => lit "str"
  | .list => lit "list"
  | .object => lit "dict"

namespace Json

/-- The kind of a value. -/
def kind : Json → Kind
  | .null => .null
  | .bool _ => .bool
  | .int _ => .int
  | .float _ => .float
  | .str _ => .str
  | .list _ => .list
  | .object _ => .object

/-- Values that count as true: all but null, false, zero and the empty ones. -/
def truthy : Json → Bool
  | .null => false
  | .bool b => b
  | .int n => n != 0
  | .float x => !x.isZero
  | .str s => !s.isEmpty
  | .list xs => !xs.isEmpty
  | .object fs => !fs.isEmpty

/-- The value is the given string. -/
def isStr (v : Json) (s : Text) : Bool :=
  match v with
  | .str t => decide (t = s)
  | _ => false

/-- The string of a string value. -/
def str? : Json → Option Text
  | .str s => some s
  | _ => none

/-- The field of an object. -/
def field? (key : Text) : Json → Option Json
  | .object fs => Record.get? key fs
  | _ => none

/-! ## Equality -/

mutual

/-- Equality of values. -/
def decEq : (a b : Json) → Decidable (a = b)
  | .null, .null => isTrue rfl
  | .bool a, .bool b => decidable_of_iff (a = b) (by simp)
  | .int a, .int b => decidable_of_iff (a = b) (by simp)
  | .float a, .float b => decidable_of_iff (a = b) (by simp)
  | .str a, .str b => decidable_of_iff (a = b) (by simp)
  | .list a, .list b =>
    match decEqItems a b with
    | isTrue h => isTrue (by rw [h])
    | isFalse h => isFalse (by simpa using h)
  | .object a, .object b =>
    match decEqFields a b with
    | isTrue h => isTrue (by rw [h])
    | isFalse h => isFalse (by simpa using h)
  | .null, .bool _ | .null, .int _ | .null, .float _ | .null, .str _ | .null, .list _
  | .null, .object _ => isFalse (by simp)
  | .bool _, .null | .bool _, .int _ | .bool _, .float _ | .bool _, .str _ | .bool _, .list _
  | .bool _, .object _ => isFalse (by simp)
  | .int _, .null | .int _, .bool _ | .int _, .float _ | .int _, .str _ | .int _, .list _
  | .int _, .object _ => isFalse (by simp)
  | .float _, .null | .float _, .bool _ | .float _, .int _ | .float _, .str _ | .float _, .list _
  | .float _, .object _ => isFalse (by simp)
  | .str _, .null | .str _, .bool _ | .str _, .int _ | .str _, .float _ | .str _, .list _
  | .str _, .object _ => isFalse (by simp)
  | .list _, .null | .list _, .bool _ | .list _, .int _ | .list _, .float _ | .list _, .str _
  | .list _, .object _ => isFalse (by simp)
  | .object _, .null | .object _, .bool _ | .object _, .int _ | .object _, .float _
  | .object _, .str _ | .object _, .list _ => isFalse (by simp)

/-- Equality of the items of two lists. -/
def decEqItems : (a b : List Json) → Decidable (a = b)
  | [], [] => isTrue rfl
  | [], _ :: _ => isFalse (by simp)
  | _ :: _, [] => isFalse (by simp)
  | x :: xs, y :: ys =>
    match decEq x y, decEqItems xs ys with
    | isTrue h, isTrue h' => isTrue (by rw [h, h'])
    | isFalse h, _ => isFalse (by simp [h])
    | _, isFalse h => isFalse (by simp [h])

/-- Equality of the fields of two objects. -/
def decEqFields : (a b : List (Text × Json)) → Decidable (a = b)
  | [], [] => isTrue rfl
  | [], _ :: _ => isFalse (by simp)
  | _ :: _, [] => isFalse (by simp)
  | (k, x) :: xs, (l, y) :: ys =>
    match decEq x y, decEqFields xs ys with
    | isTrue h, isTrue h' =>
      if hk : k = l then isTrue (by rw [h, h', hk]) else isFalse (by simp [hk])
    | isFalse h, _ => isFalse (by simp [h])
    | _, isFalse h => isFalse (by simp [h])

end

instance : DecidableEq Json := decEq

/-! ## Literals -/

/-- The literal of a truth value. -/
def boolLiteral (b : Bool) : Text := if b then lit "True" else lit "False"

mutual

/-- The Python literal of a value. -/
def literal : Json → Text
  | .null => lit "None"
  | .bool b => boolLiteral b
  | .int n => decimalInt n
  | .float x => x.text
  | .str s => Text.quoted s
  | .list items => lit "[" ++ Text.join (lit ", ") (itemLiterals items) ++ lit "]"
  | .object fields => lit "\x7b" ++ Text.join (lit ", ") (fieldLiterals fields) ++ lit "\x7d"

/-- The literals of the items of a list. -/
def itemLiterals : List Json → List Text
  | [] => []
  | x :: xs => literal x :: itemLiterals xs

/-- The literals of the fields of an object. -/
def fieldLiterals : List (Text × Json) → List Text
  | [] => []
  | (k, x) :: xs => (Text.quoted k ++ lit ": " ++ literal x) :: fieldLiterals xs

end

/-- The text of a value inside other text: a string stands for itself, any other
value for its literal. -/
def display : Json → Text
  | .str s => s
  | v => literal v

/-! ## Size -/

mutual

/-- The number of values in a value, itself included. -/
def size : Json → Nat
  | .list items => itemsSize items + 1
  | .object fields => fieldsSize fields + 1
  | _ => 1

/-- The number of values in the items of a list. -/
def itemsSize : List Json → Nat
  | [] => 0
  | x :: xs => size x + itemsSize xs

/-- The number of values in the fields of an object. -/
def fieldsSize : List (Text × Json) → Nat
  | [] => 0
  | (_, x) :: xs => size x + fieldsSize xs

end

theorem size_le_fieldsSize {key : Text} {fields : List (Text × Json)} {v : Json}
    (h : Record.get? key fields = some v) : size v ≤ fieldsSize fields := by
  induction fields with
  | nil => simp [Record.get?] at h
  | cons e fields ih =>
    obtain ⟨k, x⟩ := e
    rw [Record.get?] at h
    split at h
    · obtain rfl := Option.some.inj h
      simp [fieldsSize]
    · have := ih h
      simp only [fieldsSize]
      omega

/-- A field of an object is smaller than the object. -/
theorem size_field_lt {key : Text} {v w : Json} (h : v.field? key = some w) : size w < size v := by
  cases v with
  | object fields =>
    have := size_le_fieldsSize (h : Record.get? key fields = some w)
    simp only [size]
    omega
  | _ => simp [field?] at h

end Json

end ModuleStubs
