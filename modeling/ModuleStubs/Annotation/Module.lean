import ModuleStubs.Annotation.Function

/-!
# Annotated modules

A module skeleton is annotated with a configuration. The overrides and the custom
types are collected first; then the members are changed one after the other:
functions and the methods of classes get signatures, and the members of types
lose the module's name in front of their type. At the end overrides that were
never used are named. `Annotator.annotate` is the whole; a fault leaves the data
as far as it was changed.
-/

set_option autoImplicit false

namespace ModuleStubs

namespace Annotator

/-- The members of a node changed one after the other. Members are items of a
list; in any other value they are texts, which no change accepts. -/
def annotateMembers (change : Change) : Change := fun node =>
  match node.index (lit "members") with
  | .error e => .stopped node e
  | .ok (.list items) =>
    (Progress.walk change items).map fun items => node.withField (lit "members") (.list items)
  | .ok v =>
    match v.elements with
    | .error e => .stopped node e
    | .ok parts => (Progress.walk change parts).map fun _ => node

/-- A member of a type that is not looked at. Its name matters only where the
message about it is printed. -/
def ignoreMember (verbosity : Int) (parent : Text) (type node : Json) :
    Trace Note Fault Json := do
  if verbosity < 1 then return node
  else
    let name ← (node.index (lit "name") : Except Fault Json)
    Trace.say (.message (lit "Ignoring member " ++ parent ++ lit "." ++ name.display ++
      lit " of unknown type '" ++ type.display ++ lit "'"))
    return node

/-- A member of a class. -/
def annotateClassMember (a : Annotator) (path : Text) : Change := fun node =>
  match node.index (lit "type") with
  | .error e => .stopped node e
  | .ok type =>
    if type.isStr (lit "instancemethod") then a.annotateFunction (.str path) node
    else if type.isStr (lit "property") then .done node
    else Progress.step (ignoreMember a.verbosity path type) node

/-- A class. -/
def annotateClass (a : Annotator) (parent : Json) : Change := fun node =>
  match childPath parent node with
  | .error e => .stopped node e
  | .ok path => annotateMembers (a.annotateClassMember path) node

/-- A member of a type: its own type without the module's name in front of it. -/
def shortenType (moduleName node : Json) : Trace Note Fault Json := do
  let type ← (node.index (lit "type") >>= Json.textFor (lit "startswith") : Except Fault Text)
  let name ← (moduleName.leftText : Except Fault Text)
  match Text.afterPrefix? (name ++ lit ".") type with
  | some short => return node.withField (lit "type") (.str short)
  | none => return node

/-- The types of plain values, which need no annotation. -/
def plainTypes : List Text := [lit "bool", lit "int", lit "float", lit "str", lit "unicode"]

/-- A member of a module. -/
def annotateMember (a : Annotator) (moduleName : Json) : Change := fun node =>
  match node.index (lit "type") with
  | .error e => .stopped node e
  | .ok type =>
    if type.isStr (lit "class") then a.annotateClass moduleName node
    else if type.isStr (lit "type") then
      annotateMembers (Progress.step (shortenType moduleName)) node
    else if type.isStr (lit "function") then a.annotateFunction moduleName node
    else if plainTypes.any type.isStr then .done node
    else Progress.step (ignoreMember a.verbosity moduleName.display type) node

/-- The context with the name of a member, if the member is a class or a type. -/
def collectType (ctx : TypeContext) (node : Json) : Except Fault TypeContext := do
  let type ← node.index (lit "type")
  type.hashable
  if type.isStr (lit "class") || type.isStr (lit "type") then
    match ← node.index (lit "name") with
    | .str name => ctx.addCustom name
    | v => throw (.notMatchable v.kind)
  else return ctx

/-- The context with the names of all classes and types among the members. -/
def collectTypes (ctx : TypeContext) (data : Json) : Except Fault TypeContext := do
  let members ← (← data.fieldOr (lit "members") (.list [])).elements
  members.foldlM collectType ctx

/-- The signature overrides of a configuration. -/
def readSignatureOverrides (config : Json) : Except Fault (List SignatureOverride) := do
  let items ← (← config.fieldOr (lit "sig-overrides") (.list [])).elements
  items.mapM SignatureOverride.ofJson

/-- The annotator of a module and a configuration. -/
def ofConfig (config : Json) (verbosity : Int) (data : Json) : Except Fault Annotator := do
  let overrides ← readSignatureOverrides config
  let (ctx, read) := TypeContext.readOverrides {} config
  read
  let context ← collectTypes ctx data
  return ⟨context, overrides, verbosity⟩

/-- The message that lists the custom types. -/
def knownTypes (ctx : TypeContext) : Text :=
  lit "Known types: " ++ Text.join (lit ", ") ctx.sortedCustom

/-- The message about an override that was not used, which is printed at every
verbosity. -/
def unusedOverride (o : SignatureOverride) : Text :=
  lit "WARNING: signature override " ++ o.literal ++ lit " unused!"

/-- The messages about the overrides from an index on that were not used. -/
def reportUnused (used : List Nat) : Nat → List SignatureOverride → Trace Note Fault Unit
  | _, [] => return ()
  | i, o :: os => do
    (o.hashable : Except Fault Unit)
    if !used.contains i then Trace.say (.message (unusedOverride o))
    reportUnused used (i + 1) os

/-- The module's name and the annotator for it. A configuration of null is an
empty one. -/
def prepare (config : Json) (verbosity : Int) (data : Json) : Except Fault (Json × Annotator) := do
  if !(← data.index (lit "type")).isStr (lit "module") then throw (.violated .isModule)
  let name ← data.index (lit "name")
  let a ← ofConfig (if config.kind = .null then .object [] else config) verbosity data
  return (name, a)

/-- The custom types are listed, from a verbosity on. -/
def listTypes (a : Annotator) (data : Json) : Trace Note Fault Json := do
  if 2 ≤ a.verbosity then Trace.say (.message (knownTypes a.context))
  return data

/-- A module skeleton annotated. -/
def annotate (config : Json) (verbosity : Int) (data : Json) : Progress Note Fault Json :=
  match prepare config verbosity data with
  | .error e => .stopped data e
  | .ok (name, a) =>
    let members := annotateMembers (a.annotateMember name) data
    Progress.run
      [Progress.step a.listTypes,
       fun _ => members,
       Progress.step fun d => do
         reportUnused (Note.usedIndices members.log) 0 a.overrides
         return d]
      data

/-- The lines that annotating a module prints. -/
def printed (p : Progress Note Fault Json) : List Text := Note.messages p.log

end Annotator

end ModuleStubs
