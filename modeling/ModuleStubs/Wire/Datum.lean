import ModuleStubs.Json.Basic

/-!
# Data for the wire

What the writer is given: atoms, lists and dictionaries whose keys may be any
values that can be compared. Data are trees (`Datum`) or live in a heap of
containers that refer to one another (`Heap`), where a container may occur in
several places and may contain itself. A `Store` shows either of them to the
writer, one level at a time.
-/

set_option autoImplicit false

namespace ModuleStubs

namespace Wire

/-- Data without parts. -/
inductive Atom where
  | null
  | bool (b : Bool)
  | int (n : Int)
  /-- A number. The text of an odd one is `odd`, though its literal is that of any
  number. -/
  | float (x : Binary64) (odd : Bool)
  | str (s : Text)
  /-- An object of which nothing but its name is known. -/
  | foreign (name : Text)
deriving DecidableEq, Inhabited

/-- Keys of dictionaries. -/
inductive Key where
  | atom (a : Atom)
  | tuple (items : List Key)
deriving Inhabited

/-- The literal of an atom. -/
def Atom.literal : Atom → Text
  | .null => lit "None"
  | .bool b => Json.boolLiteral b
  | .int n => decimalInt n
  | .float x _ => x.text
  | .str s => Text.quoted s
  | .foreign name => lit "<" ++ name ++ lit ">"

namespace Key

mutual

/-- The literal of a key. A tuple of one item has a comma behind it. -/
def literal : Key → Text
  | .atom a => a.literal
  | .tuple [] => lit "()"
  | .tuple [k] => lit "(" ++ literal k ++ lit ",)"
  | .tuple (k :: l :: ks) => lit "(" ++ literal k ++ literals (l :: ks) ++ lit ")"

/-- The literals of further items of a tuple. -/
def literals : List Key → Text
  | [] => []
  | k :: ks => lit ", " ++ literal k ++ literals ks

end

/-- The exact value of a number as a quotient, if the atom is a number that has
one. Truth values are the numbers zero and one. -/
def value? : Atom → Option (Int × Nat)
  | .bool b => some (if b then 1 else 0, 1)
  | .int n => some (n, 1)
  | .float x _ => x.toRatio?
  | _ => none

/-- Two atoms are the same key: numbers by their value, texts by their text.
Foreign objects and numbers that are none are different from all others. -/
def sameAtom (a b : Atom) : Bool :=
  match value? a, value? b with
  | some (n, d), some (m, e) => n * e == m * d
  | some _, none => false
  | none, some _ => false
  | none, none =>
    match a, b with
    | .null, .null => true
    | .str s, .str t => s == t
    | .float x _, .float y _ => !x.isNaN && x == y
    | _, _ => false

mutual

/-- Two keys are the same. -/
def same : Key → Key → Bool
  | .atom a, .atom b => sameAtom a b
  | .tuple ks, .tuple ls => sameItems ks ls
  | _, _ => false

/-- Two lists of keys are the same. -/
def sameItems : List Key → List Key → Bool
  | [], [] => true
  | k :: ks, l :: ls => same k l && sameItems ks ls
  | _, _ => false

end

/-- The entries with a value under a key, in the place of the same key or at the
end. -/
def insert {α : Type} (key : Key) (value : α) : List (Key × α) → List (Key × α)
  | [] => [(key, value)]
  | (k, v) :: r => if same k key then (k, value) :: r else (k, v) :: insert key value r

/-- The entries of a list of writes: the first key and the last value count. -/
def entries {α : Type} (writes : List (Key × α)) : List (Key × α) :=
  writes.foldl (fun r (k, v) => insert k v r) []

end Key

/-- A tree of data. -/
inductive Datum where
  | atom (a : Atom)
  | list (items : List Datum)
  | dict (fields : List (Key × Datum))
deriving Inhabited

namespace Datum

/-- A text. -/
def str (t : Text) : Datum := .atom (.str t)

/-- A dictionary with text keys. -/
def record (fields : List (Text × Datum)) : Datum :=
  .dict (fields.map fun (k, v) => (.atom (.str k), v))

mutual

/-- The data of a JSON value. -/
def ofJson : Json → Datum
  | .null => .atom .null
  | .bool b => .atom (.bool b)
  | .int n => .atom (.int n)
  | .float x => .atom (.float x false)
  | .str s => .atom (.str s)
  | .list items => .list (ofItems items)
  | .object fields => .dict (ofFields fields)

/-- The data of the items of a list. -/
def ofItems : List Json → List Datum
  | [] => []
  | v :: vs => ofJson v :: ofItems vs

/-- The data of the fields of an object. -/
def ofFields : List (Text × Json) → List (Key × Datum)
  | [] => []
  | (k, v) :: fs => (.atom (.str k), ofJson v) :: ofFields fs

end

mutual

/-- The depth of a tree: one for an atom. -/
def depth : Datum → Nat
  | .atom _ => 1
  | .list items => itemsDepth items + 1
  | .dict fields => fieldsDepth fields + 1

/-- The greatest depth of the items of a list. -/
def itemsDepth : List Datum → Nat
  | [] => 0
  | v :: vs => max (depth v) (itemsDepth vs)

/-- The greatest depth of the values of a dictionary. -/
def fieldsDepth : List (Key × Datum) → Nat
  | [] => 0
  | (_, v) :: fs => max (depth v) (fieldsDepth fs)

end

end Datum

/-- A value in a heap: a container is named by its number. -/
inductive Ref where
  | atom (a : Atom)
  | cell (number : Nat)
deriving Inhabited

/-- A container, or a foreign object, in a heap. -/
inductive Cell where
  | items (refs : List Ref)
  | fields (refs : List (Key × Ref))
  | foreign (name : Text)

/-- Containers by number. -/
abbrev Heap := List Cell

/-- One level of data. -/
inductive Shape (ρ : Type) where
  | atom (a : Atom)
  | items (parts : List ρ)
  | fields (parts : List (Key × ρ))

/-- How data are shown to the writer: one level at a time, and the number by
which a container is recognised, if it has one. -/
structure Store (ρ : Type) where
  shape : ρ → Shape ρ
  number? : ρ → Option Nat

/-- Trees; a tree contains no container twice. -/
def Datum.store : Store Datum where
  shape
    | .atom a => .atom a
    | .list items => .items items
    | .dict fields => .fields fields
  number? _ := none

/-- The data of a heap. A number without container stands for null. -/
def Heap.store (h : Heap) : Store Ref where
  shape
    | .atom a => .atom a
    | .cell n =>
      match h[n]? with
      | some (.items refs) => .items refs
      | some (.fields refs) => .fields refs
      | some (.foreign name) => .atom (.foreign name)
      | none => .atom .null
  number?
    | .atom _ => none
    | .cell n => some n

end Wire

end ModuleStubs
