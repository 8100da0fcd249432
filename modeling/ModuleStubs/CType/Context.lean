import ModuleStubs.CType.Basic
import ModuleStubs.Json.Access
import ModuleStubs.Pattern.Matching
import ModuleStubs.Pattern.Parser

/-!
# Type contexts

A context knows the custom types of a module and a list of overrides. An override
has a pattern for cleaned C++ types and a template for the Python type, filled
with the groups of the match; a second template serves where the alternative
type is asked for. `TypeContext.translate` tries, in this order: the built-in
table on the text as given, the table on the cleaned text, the overrides on the
cleaned text, and the cleaned text itself if it is an identifier.
-/

set_option autoImplicit false

namespace ModuleStubs

namespace Json

/-- A pattern given in a configuration. -/
def toPattern (v : Json) : Except Fault Pattern :=
  match v with
  | .str s =>
    match Pattern.compile {} s with
    | .ok p => .ok p
    | .error f => .error (.pattern f)
  | .list _ => .error (.notHashable .list)
  | .object _ => .error (.notHashable .object)
  | _ => .error .patternNotText

/-- A template given in a configuration, filled with groups. -/
def fillTemplate (v : Json) (groups : List (Option Text)) : Except Fault Text := do
  let t ← v.textFor (lit "format")
  match Template.fill groups t with
  | .ok r => .ok r
  | .error f => .error (.template f)

end Json

/-- A rule that replaces C++ types. -/
structure TypeOverride where
  pattern : Pattern
  /-- The template of the Python type. -/
  main : Json
  /-- The template where the alternative type is asked for; null if there is none. -/
  alternative : Json
  /-- The rule applies to known types only. -/
  mustBeKnown : Bool

namespace TypeOverride

/-- The override of a configuration item. -/
def ofJson (data : Json) : Except Fault TypeOverride := do
  let pattern ← (← data.index (lit "pattern")).toPattern
  let main ← data.index (lit "type")
  let alternative ← data.fieldOr (lit "alt-type") .null
  let mustBeKnown ← data.fieldOr (lit "must-be-known") (.bool false)
  return ⟨pattern, main, alternative, mustBeKnown.truthy⟩

/-- The type that an override gives for a cleaned text with the groups of its
match. Without a second template the alternative of a text is the text itself. -/
def apply (o : TypeOverride) (alternative : Bool) (cleaned : Text) (groups : List (Option Text)) :
    Except Fault Text :=
  if alternative then
    match o.alternative with
    | .null => .ok cleaned
    | template => template.fillTemplate groups
  else o.main.fillTemplate groups

end TypeOverride

/-- The custom types that are known, and the overrides in order. -/
structure TypeContext where
  custom : List Text := []
  overrides : List TypeOverride := []

namespace TypeContext

/-- The context with one more custom type. -/
def addCustom (ctx : TypeContext) (name : Text) : Except Fault TypeContext :=
  if !isIdentifier name then .error (.violated .isIdentifier)
  else if ctx.custom.contains name then .ok ctx
  else .ok { ctx with custom := ctx.custom ++ [name] }

/-- The custom types in ascending order. -/
def sortedCustom (ctx : TypeContext) : List Text := Text.sort ctx.custom

/-- The overrides of a list of configuration items added one by one. Those read
before a fault stay. -/
def addOverrides (ctx : TypeContext) : List Json → TypeContext × Except Fault Unit
  | [] => (ctx, .ok ())
  | item :: items =>
    match TypeOverride.ofJson item with
    | .error e => (ctx, .error e)
    | .ok o => addOverrides { ctx with overrides := ctx.overrides ++ [o] } items

/-- The overrides of a configuration added. -/
def readOverrides (ctx : TypeContext) (config : Json) : TypeContext × Except Fault Unit :=
  match (do (← config.fieldOr (lit "type-overrides") (.list [])).elements) with
  | .error e => (ctx, .error e)
  | .ok items => ctx.addOverrides items

/-- A Python type that is surely one: the name of a built-in type or a custom
type. -/
def known (ctx : TypeContext) (name : Text) : Bool :=
  CType.isBuiltinName name || ctx.custom.contains name

/-- The first override that applies to a cleaned text, with the groups of its
match. -/
def override? (ctx : TypeContext) (cleaned : Text) :
    Option (TypeOverride × List (Option Text)) :=
  ctx.overrides.findSome? fun o =>
    if !o.mustBeKnown || ctx.known cleaned then (o.pattern.fullMatch? cleaned).map (o, ·)
    else none

/-- The Python type of a C++ type, if there is one. -/
def translate (ctx : TypeContext) (alternative : Bool) (t : Text) : Except Fault (Option Text) :=
  match CType.builtin? t with
  | some r => .ok (some r)
  | none =>
    let cleaned := CType.clean t
    match CType.builtin? cleaned with
    | some r => .ok (some r)
    | none =>
      match ctx.override? cleaned with
      | some (o, groups) => (o.apply alternative cleaned groups).map some
      | none => .ok (identifier? cleaned)

end TypeContext

end ModuleStubs
