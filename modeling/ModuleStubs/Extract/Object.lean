import ModuleStubs.Wire.Datum

/-!
# Objects

What a walk over live objects sees of each of them. Objects refer to each other, and
they may do so in circles: an object holds references of some type, and a memory says
which object is behind each of them. The names of the types, the docs and the texts of
errors belong to the objects. Reading a doc and asking for an attribute are taken to
succeed; listing the attributes and converting to a number need not.
-/

set_option autoImplicit false

namespace ModuleStubs

/-- Values that are shown as they are. -/
inductive Plain where
  | bool (b : Bool)
  | int (n : Int)
  | float (x : Binary64)
  | str (s : Text)
deriving DecidableEq

/-- What is found in a module or a class. -/
structure Object.Container (ρ : Type) where
  /-- The attributes, inherited ones behind the own ones, or the text of the error
  that listing them ends with. -/
  attributes : Except Text (List (Text × ρ))
  /-- The names under which a look-up finds something. -/
  known : List Text

/-- What an object is, as far as it is told apart from others. -/
inductive Form (ρ : Type) where
  | value (v : Plain)
  | dictionary (entries : List (Wire.Key × ρ))
  | property (getter setter deleter : Bool)
  /-- A module or a class. -/
  | container (c : Object.Container ρ)
  | other

/-- An object. -/
structure Object (ρ : Type) where
  /-- The name of its type. -/
  typeName : Text
  /-- Its type, where that is known as an object itself. -/
  type? : Option ρ
  /-- Its doc as it is written, or that of the nearest base. -/
  doc : Option Text
  /-- The number that it is converted to, or the text of the error. -/
  number : Except Text Int
  form : Form ρ

/-- The objects behind references. -/
abbrev Memory (ρ : Type) := ρ → Object ρ

/-- A class with a name slot and a table of values is taken for an enumeration. -/
def Object.Container.isEnumeration {ρ : Type} (c : Container ρ) : Bool :=
  c.known.contains (lit "name") && c.known.contains (lit "values")

end ModuleStubs
