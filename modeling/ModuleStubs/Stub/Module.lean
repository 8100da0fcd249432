import ModuleStubs.Stub.Lines

/-!
# Stub files

A stub file has the names of a module with their signatures and docs and without
their bodies. It is written from a skeleton: `Stub.writeNode` writes a node at a
path with an indent, and `Stub.writeModule` the file of a whole module. What is
written before a fault stays written.
-/

set_option autoImplicit false

namespace ModuleStubs

namespace Stub

/-- The texts of values that are joined; the first one that is no string is
refused with its index. -/
def textsFrom : Nat → List Json → Except Fault (List Text)
  | _, [] => .ok []
  | i, v :: vs =>
    match v with
    | .str t => (textsFrom (i + 1) vs).map (t :: ·)
    | _ => .error (.itemNotText i v.kind)

/-- A type comment: the types of the parameters and the type returned. -/
structure Comment where
  types : List Text
  returned : Text

/-- The parameters of a function without a signature. -/
def anyParameters : List Json := [.str (lit "*args"), .str (lit "**kwargs")]

/-- The type where none is known. -/
def anyType : Json := .str (lit "Any")

/-- The parameters of a signature and its type comment. -/
def readSignature (signature : Json) : Except Fault (List Json × Comment) := do
  let arguments ← (← signature.fieldOr (lit "args") .null).elements
  let names ← arguments.mapM (Json.index (lit "name"))
  let types ← arguments.mapM fun a => a.fieldOr (lit "type") anyType
  let returned ← signature.fieldOr (lit "return-type") anyType
  let types ← textsFrom 0 types
  return (names, ⟨types, returned.display⟩)

/-- The parameters of a function node and its type comment, if it has a
signature. A method has the parameter `self` in front. -/
def readHead (isMethod : Bool) (fields : Record Json) : Except Fault (List Text × Option Comment) := do
  let (names, comment) ←
    match Record.get? (lit "signature") fields with
    | none => pure (anyParameters, none)
    | some signature => do
      let (names, comment) ← readSignature signature
      pure (names, some comment)
  let parameters ← textsFrom 0 (if isMethod then .str (lit "self") :: names else names)
  return (parameters, comment)

/-- A function node. -/
def writeFunction (indent : Text) (isMethod : Bool) (name : Json) (fields : Record Json) :
    Writing Unit := do
  let (parameters, comment) ← (readHead isMethod fields : Except Fault _)
  write (functionHeader indent name parameters)
  if let some c := comment then write (typeComment indent c.types c.returned)
  match Record.get? (lit "doc") fields with
  | some doc => write (if doc.truthy then docLine indent doc else passLine indent)
  | none => write (passLine indent)

/-- A node that is neither a class nor a function: a constant if it has a value,
a property, or nothing but a warning, which constructors and slots do without. -/
def writeOther (indent path : Text) (name type : Json) (fields : Record Json) : Writing Unit := do
  match Record.get? (lit "value") fields with
  | some value => write (constantLine indent name value type)
  | none =>
    if type.isStr (lit "property") then write (propertyLines indent name)
    else if name.isStr (lit "__init__") || type.isStr (lit "member_descriptor") then return ()
    else Trace.say (.warn (ignored path name type))

/-- The docstring of a class, if it has one. -/
def writeDoc (indent : Text) (fields : Record Json) : Writing Bool := do
  match Record.get? (lit "doc") fields with
  | some doc =>
    write (docLine indent doc)
    return true
  | none => return false

mutual

/-- A node of a skeleton. -/
def writeNode (indent path : Text) : Json → Writing Unit
  | .object fields => do
    let type ← ((Json.object fields).index (lit "type") : Except Fault Json)
    if type.isStr (lit "module") then Trace.fail (.violated .isNoModule)
    else
      match Record.get? (lit "name") fields with
      | none => Trace.fail (.violated .isNamed)
      | some name =>
        if type.isStr (lit "type") || type.isStr (lit "class") then do
          write (if type.isStr (lit "type") then typeHeader indent name
            else classHeader indent name)
          let documented ← writeDoc indent fields
          let populated ← writeMembers (indent ++ tab) (path ++ lit "." ++ name.display) fields
          if !documented && !populated then write (passLine indent)
        else if type.isStr (lit "function") then writeFunction indent false name fields
        else if type.isStr (lit "instancemethod") then writeFunction indent true name fields
        else writeOther indent path name type fields
  | v => do
    let _ ← (v.index (lit "type") : Except Fault Json)

/-- The members among the fields of a node, and whether there are any. Members are
items of a list; the parts of a string or an object are no nodes. -/
def writeMembers (indent path : Text) : List (Text × Json) → Writing Bool
  | [] => return false
  | (key, .list items) :: fields =>
    if key = lit "members" then do
      writeNodes indent path items
      return !items.isEmpty
    else writeMembers indent path fields
  | (key, v) :: fields =>
    if key = lit "members" then do
      let parts ← (v.elements : Except Fault (List Json))
      if parts.isEmpty then return false else Trace.fail (.keyIntoSequence .str)
    else writeMembers indent path fields

/-- Nodes one after the other. -/
def writeNodes (indent path : Text) : List Json → Writing Unit
  | [] => return ()
  | node :: nodes => do
    writeNode indent path node
    writeNodes indent path nodes

end

/-- The members of a module, each one after an empty line. -/
def writeTopNode (path : Text) (node : Json) : Writing Unit := do
  write (lit "\n")
  writeNode [] path node

/-- The file of a module. -/
def writeModule (data : Json) : Writing Unit := do
  let type ← (data.index (lit "type") : Except Fault Json)
  if !type.isStr (lit "module") then Trace.fail (.violated .isModule)
  let name ← (data.index (lit "name") : Except Fault Json)
  let doc ← (data.fieldOr (lit "doc") (.str []) : Except Fault Json)
  write (moduleHead name doc)
  let members ← (data.fieldOr (lit "members") (.list []) >>= Json.elements : Except Fault (List Json))
  Trace.each (writeTopNode name.display) members

end Stub

end ModuleStubs
