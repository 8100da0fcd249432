import ModuleStubs.Json.Access
import ModuleStubs.Trace

/-!
# The lines of a stub file

The forms of text that a stub file is made of. Each one takes the indent of the
node that it belongs to. Names, docs and values are JSON values of any kind and
stand in the text as `Json.display` shows them.
-/

set_option autoImplicit false

namespace ModuleStubs

namespace Stub

/-- What writing a stub logs. -/
inductive Emission where
  /-- Text written to the file. -/
  | write (text : Text)
  /-- A line printed beside it. -/
  | warn (text : Text)
deriving DecidableEq

/-- Writing with warnings. -/
abbrev Writing := Trace Emission Fault

/-- The text of the file. -/
def fileText (log : List Emission) : Text :=
  log.flatMap fun
    | .write t => t
    | .warn _ => []

/-- The lines printed. -/
def warnings (log : List Emission) : List Text :=
  log.filterMap fun
    | .write _ => none
    | .warn t => some t

/-- Text for the file. -/
def write (t : Text) : Writing Unit := Trace.say (.write t)

/-- One step of indentation. -/
def tab : Text := lit "\t"

/-- The head of the file: a docstring with the module's name and doc. -/
def moduleHead (name doc : Json) : Text :=
  lit "\"\"\"\n" ++ name.display ++ lit "\n\n" ++ doc.display ++ lit "\n\"\"\"\n"

/-- The header of a type. -/
def typeHeader (indent : Text) (name : Json) : Text :=
  indent ++ lit "class " ++ name.display ++ lit " :\n"

/-- The header of a class. -/
def classHeader (indent : Text) (name : Json) : Text :=
  indent ++ lit "class " ++ name.display ++ lit "( object ) :\n"

/-- The header of a function. -/
def functionHeader (indent : Text) (name : Json) (parameters : List Text) : Text :=
  indent ++ lit "def " ++ name.display ++ lit "( " ++ Text.join (lit ", ") parameters ++
    lit " ) :\n"

/-- The type comment of a function. -/
def typeComment (indent : Text) (types : List Text) (returned : Text) : Text :=
  indent ++ lit "\t# type: (" ++ Text.join (lit ", ") types ++ lit ") -> " ++ returned ++ lit "\n"

/-- The docstring of a class or a function. -/
def docLine (indent : Text) (doc : Json) : Text :=
  indent ++ lit "\t\"\"\" " ++ doc.display ++ lit " \"\"\"\n"

/-- The body of a class or a function that has nothing else in it. -/
def passLine (indent : Text) : Text := indent ++ lit "\tpass\n"

/-- A constant. -/
def constantLine (indent : Text) (name value type : Json) : Text :=
  indent ++ name.display ++ lit " = " ++ value.display ++ lit " # type: " ++ type.display ++
    lit "\n"

/-- A property with its getter and its setter. -/
def propertyLines (indent : Text) (name : Json) : Text :=
  indent ++ lit "@property\n" ++
  indent ++ lit "def " ++ name.display ++ lit "( self ) :\n" ++
  indent ++ lit "\t# type: () -> Any\n" ++
  indent ++ lit "\tpass\n" ++
  indent ++ lit "@" ++ name.display ++ lit ".setter\n" ++
  indent ++ lit "def " ++ name.display ++ lit "( self, value ) :\n" ++
  indent ++ lit "\t# type: (Any) -> None\n" ++
  indent ++ lit "\tpass\n"

/-- The warning about a node that is left out. -/
def ignored (path : Text) (name type : Json) : Text :=
  lit "WARNING: Ignored " ++ path ++ lit "." ++ name.display ++ lit " of type " ++ type.display

end Stub

end ModuleStubs
