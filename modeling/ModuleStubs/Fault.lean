import ModuleStubs.Json.Basic
import ModuleStubs.Pattern.Basic
import ModuleStubs.Template
import ModuleStubs.Text.Utf8

/-!
# Faults of skeletons and configurations

Skeletons and configurations arrive as JSON of any shape. A fault names what was
asked of a value that it could not give, or what a stream did not take;
`Fault.message` is its wording.
-/

set_option autoImplicit false

namespace ModuleStubs

/-- Conditions that a skeleton or a configuration is held to without an
explanation. -/
inductive Condition where
  /-- The outermost node is a module. -/
  | isModule
  /-- A node inside a module is no module. -/
  | isNoModule
  /-- Every node has a name. -/
  | isNamed
  /-- Names of classes and types are identifiers. -/
  | isIdentifier
  /-- An override has a path or a path pattern, not both. -/
  | hasOnePath
  /-- The path of an override is a text or a pattern. -/
  | pathIsText
  /-- The self check gives what it should. -/
  | passesSelfCheck
deriving DecidableEq

/-- What was asked of a value that it could not give. -/
inductive Fault where
  | missingKey (key : Text)
  | notSubscriptable (kind : Kind)
  | keyIntoSequence (kind : Kind)
  | notIterable (kind : Kind)
  | notSearchable (kind : Kind)
  | notHashable (kind : Kind)
  | noMethod (kind : Kind) (method : Text)
  | itemNotText (index : Nat) (kind : Kind)
  | notAddable (kind : Kind)
  | notAppendable (kind : Kind)
  | notMatchable (kind : Kind)
  | patternNotText
  | overrideWithoutPath
  | violated (condition : Condition)
  | pattern (fault : Pattern.Fault)
  | template (fault : Template.Fault)
  /-- A text with surrogates for a stream of UTF-8. -/
  | unencodable (text : Text)
deriving DecidableEq

/-- The wording of a fault; a violated condition has none. -/
def Fault.message : Fault → Text
  | .missingKey key => Text.quoted key
  | .notSubscriptable k => lit "'" ++ k.name ++ lit "' object is not subscriptable"
  | .keyIntoSequence .str => lit "string indices must be integers, not 'str'"
  | .keyIntoSequence k => k.name ++ lit " indices must be integers or slices, not str"
  | .notIterable k => lit "'" ++ k.name ++ lit "' object is not iterable"
  | .notSearchable k => lit "argument of type '" ++ k.name ++ lit "' is not iterable"
  | .notHashable k => lit "unhashable type: '" ++ k.name ++ lit "'"
  | .noMethod k method =>
    lit "'" ++ k.name ++ lit "' object has no attribute '" ++ method ++ lit "'"
  | .itemNotText i k =>
    lit "sequence item " ++ decimal i ++ lit ": expected str instance, " ++ k.name ++ lit " found"
  | .notAddable .list => lit "can only concatenate list (not \"str\") to list"
  | .notAddable k => lit "unsupported operand type(s) for +: '" ++ k.name ++ lit "' and 'str'"
  | .notAppendable k => lit "can only concatenate str (not \"" ++ k.name ++ lit "\") to str"
  | .notMatchable k => lit "expected string or bytes-like object, got '" ++ k.name ++ lit "'"
  | .patternNotText => lit "first argument must be string or compiled pattern"
  | .overrideWithoutPath =>
    lit "Each type override must have either a path or a path pattern"
  | .violated _ => []
  | .pattern f => f.message
  | .template f => f.message
  | .unencodable t => t.encodingFault

end ModuleStubs
