import ModuleStubs.Digest
import ModuleStubs.Json.Basic
import ModuleStubs.Text.Utf8

/-!
# Results of benchmarks

What a benchmark can return, and its fingerprint. A walk over the result feeds
bytes to a digest: an integer as its numeral, a text after an `s`, a list after an
`L` and its length with its items behind it. A text with a surrogate has no bytes,
and the walk fails there. Lists count to a depth of eight and to two thousand items;
what a walk feeds beyond these limits, and for results of other types, is up to the
walk (`Walk`).
-/

set_option autoImplicit false

namespace ModuleStubs

/-- A result. -/
inductive Result where
  | null
  | bool (b : Bool)
  | int (n : Int)
  | float (x : Binary64)
  | str (s : Text)
  | list (items : List Result)
  | dict (entries : List (Result × Result))
  /-- A value of another type, with its literal and what it is made of. -/
  | other (type shown : Text) (parts : List Result)
deriving Inhabited

namespace Result

/-- The name of the type of a result. -/
def typeName : Result → Text
  | .null => lit "NoneType"
  | .bool _ => lit "bool"
  | .int _ => lit "int"
  | .float _ => lit "float"
  | .str _ => lit "str"
  | .list _ => lit "list"
  | .dict _ => lit "dict"
  | .other type _ _ => type

mutual

/-- The result of a JSON value. -/
def ofJson : Json → Result
  | .null => .null
  | .bool b => .bool b
  | .int n => .int n
  | .float x => .float x
  | .str s => .str s
  | .list items => .list (ofItems items)
  | .object fields => .dict (ofFields fields)

/-- The results of the items of a list. -/
def ofItems : List Json → List Result
  | [] => []
  | v :: vs => ofJson v :: ofItems vs

/-- The results of the fields of an object. -/
def ofFields : List (Text × Json) → List (Result × Result)
  | [] => []
  | (k, v) :: fs => (.str k, ofJson v) :: ofFields fs

end

end Result

/-- The bytes that are fed, unless a text has none. -/
abbrev Fed := Except Unencodable (List UInt8)

/-- What a walk feeds where the limits are passed, and for results that are neither
integers nor texts nor lists. Parts of a result are fed by the walk again. -/
structure Walk where
  /-- A result below the greatest depth. -/
  below : Result → Fed
  /-- A list with too many items. -/
  long : (Result → Fed) → List Result → Fed
  /-- A result of another type. -/
  other : (Result → Fed) → Result → Fed

namespace Walk

/-- The greatest depth that counts. -/
def greatestDepth : Nat := 8

/-- The greatest number of items that count. -/
def greatestLength : Nat := 2000

/-- The bytes that stand for a result, with so many levels left. -/
def feedWithin (walk : Walk) : Nat → Result → Fed
  | 0, v => walk.below v
  | levels + 1, v =>
    match v with
    | .int n => Text.encoded (decimalInt n)
    | .str s => Text.encoded (lit "s" ++ s)
    | .list items =>
      if items.length ≤ greatestLength then do
        let start ← Text.encoded (lit "L" ++ decimal items.length)
        let parts ← items.mapM (walk.feedWithin levels)
        return start ++ parts.flatten
      else walk.long (walk.feedWithin levels) items
    | v => walk.other (walk.feedWithin levels) v

/-- The bytes that stand for a result. -/
def feed (walk : Walk) (v : Result) : Fed := walk.feedWithin (greatestDepth + 1) v

/-- The fingerprint of a result. -/
def fingerprint (walk : Walk) (v : Result) : Except Unencodable Text :=
  (walk.feed v).map Digest.sha256

end Walk

end ModuleStubs
