import ModuleStubs.Json.Basic

/-!
# Signatures

What is known of a function: its return type and its arguments. An argument has
a name, and types unless only its name is known. `Signature.toJson` is the form
in which a signature is stored in a skeleton.
-/

set_option autoImplicit false

namespace ModuleStubs

/-- The type of an argument: the Python type, if it has one, and the alternative
type, if there is one. -/
structure ArgumentType where
  main : Option Text
  alternative : Option Text
deriving DecidableEq

/-- An argument. -/
structure Argument where
  name : Text
  type : Option ArgumentType
deriving DecidableEq

/-- A signature. -/
structure Signature where
  returnType : Option Text
  returnAlternative : Option Text
  arguments : List Argument
deriving DecidableEq

/-- A text, or null. -/
def Json.ofText? : Option Text → Json
  | some t => .str t
  | none => .null

/-- The stored form of an argument. -/
def Argument.toJson (a : Argument) : Json :=
  match a.type with
  | none => .object [(lit "name", .str a.name)]
  | some t =>
    .object
      [(lit "name", .str a.name), (lit "type", Json.ofText? t.main),
       (lit "alt-type", Json.ofText? t.alternative)]

/-- The stored form of a signature. The return type is left out if it is not
known, and so is its alternative. -/
def Signature.toJson (s : Signature) : Json :=
  let returnType : List (Text × Json) :=
    match s.returnType with
    | some t => [(lit "return-type", .str t)]
    | none => []
  let returnAlternative : List (Text × Json) :=
    match s.returnAlternative with
    | some t => [(lit "return-type-alt", .str t)]
    | none => []
  .object (returnType ++ returnAlternative ++
    [(lit "args", .list (s.arguments.map Argument.toJson))])

end ModuleStubs
