import ModuleStubs.Text.Blank

/-!
# C++ type texts

The plain part of the conversion of C++ types: identifiers, the table of built-in
types, and cleaning, which takes pointer and reference marks off the end of a
type and one `const` off its start.
-/

set_option autoImplicit false

namespace ModuleStubs

/-- Code points that an identifier may start with. -/
def isIdentifierStart (c : CodePoint) : Bool := c.isLetter || c.val == 95

/-- Code points that an identifier may go on with. -/
def isIdentifierPart (c : CodePoint) : Bool := isIdentifierStart c || c.isDigit

/-- ASCII letters, digits and underscores, not starting with a digit. -/
def isIdentifier : Text → Bool
  | [] => false
  | c :: t => isIdentifierStart c && t.all isIdentifierPart

/-- The text if it is an identifier. -/
def identifier? (t : Text) : Option Text := if isIdentifier t then some t else none

namespace CType

/-- The marks of pointers and references. -/
def isMark (c : CodePoint) : Bool := c == CodePoint.ofChar '*' || c == CodePoint.ofChar '&'

/-- The text without marks at its end. -/
def dropMarks (t : Text) : Text := (t.reverse.dropWhile isMark).reverse

/-- The text without one `const` at its start. -/
def dropConst (t : Text) : Text :=
  if Text.startsWith t (lit "const ") then t.drop 6 else t

/-- The type without marks at its end, without `const` at its start and without
blanks around what remains. -/
def clean (t : Text) : Text := Text.strip (dropConst (dropMarks t))

/-- The built-in types and their Python names. -/
def builtins : List (Text × Text) :=
  [(lit "void", lit "None"),
   (lit "bool", lit "bool"),
   (lit "int", lit "int"),
   (lit "unsigned int", lit "int"),
   (lit "float", lit "float"),
   (lit "string", lit "str"),
   (lit "std::string", lit "str"),
   (lit "char*", lit "str"),
   (lit "TCHAR*", lit "str"),
   (lit "TCHAR *", lit "str"),
   (lit "wstring", lit "unicode"),
   (lit "std::wstring", lit "unicode"),
   (lit "boost::python::list", lit "List"),
   (lit "std::vector<CvString>", lit "List[str]"),
   (lit "python::tuple", lit "Tuple")]

/-- The Python name of a built-in type. -/
def builtin? (t : Text) : Option Text := builtins.lookup t

/-- Python names of built-in types. -/
def isBuiltinName (t : Text) : Bool := builtins.any fun e => e.2 == t

theorem isBuiltinName_of_builtin? {t r : Text} (h : builtin? t = some r) :
    isBuiltinName r = true := by
  obtain ⟨l₁, l₂, heq, -⟩ := List.lookup_eq_some_iff.1 h
  rw [isBuiltinName, heq]
  simp

end CType

end ModuleStubs
