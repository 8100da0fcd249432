import ModuleStubs.CType.Context

/-!
# Annotated types

A type may carry the type it really stands for: in parentheses, as in
`int (UnitTypes)`, or in a comment, as in `int /*UnitTypes*/`. The main part has
no space in it, the annotation is one word, and the last parentheses or the last
comment counts.
-/

set_option autoImplicit false

namespace ModuleStubs

namespace CType

/-- Every code point but the space. -/
def noSpace (c : CodePoint) : Bool := c != CodePoint.ofChar ' '

/-- Every code point but the space and the parentheses. -/
def noSpaceNorParen (c : CodePoint) : Bool :=
  noSpace c && c != CodePoint.ofChar '(' && c != CodePoint.ofChar ')'

/-- One word of the given code points, with blanks around it. Where all is blank,
the last code point other than the space is the word. -/
def soleWord? (inWord : CodePoint → Bool) (t : Text) : Option Text :=
  match t.dropWhile isBlank with
  | [] => (t.reverse.find? noSpace).map fun c => [c]
  | r =>
    let word := r.takeWhile inWord
    if word ≠ [] ∧ Text.allBlank (r.drop word.length) then some word else none

/-- The main part and the annotation of a type with an annotation in parentheses. -/
def parenthesised? (t : Text) : Option (Text × Text) := do
  let (before, after) ← Text.cutLast '(' t
  let inside ← if after.getLast? = some (CodePoint.ofChar ')') then some after.dropLast else none
  let main := before.takeWhile noSpace
  if main ≠ [] ∧ Text.allBlank (before.drop main.length) then
    let annotation ← soleWord? noSpaceNorParen inside
    return (main, annotation)
  else none

/-- The annotation of a comment that makes up the text, blanks before it apart. -/
def comment? (t : Text) : Option Text := do
  let body ← Text.afterPrefix? (lit "/*") (t.dropWhile isBlank)
  let inside ← Text.afterPrefix? (lit "/*") body.reverse
  soleWord? noSpace inside.reverse

/-- The longest start of at most `n` code points that a comment follows, with the
annotation of the comment. -/
def beforeComment? (t : Text) : Nat → Option (Text × Text)
  | 0 => none
  | n + 1 =>
    match comment? (t.drop (n + 1)) with
    | some annotation => some (t.take (n + 1), annotation)
    | none => beforeComment? t n

/-- The main part and the annotation of a type with an annotation in a comment. -/
def commented? (t : Text) : Option (Text × Text) :=
  beforeComment? t (t.takeWhile noSpace).length

/-- The main part and the annotation of an annotated type. -/
def annotated? (t : Text) : Option (Text × Text) :=
  match parenthesised? t with
  | some r => some r
  | none => commented? t

end CType

namespace TypeContext

/-- The Python types of the main part and of the annotation; a type without
annotation counts as its own. -/
def translatePair (ctx : TypeContext) (t : Text) : Except Fault (Option Text × Option Text) := do
  let (main, annotation) := (CType.annotated? t).getD (t, t)
  let m ← ctx.translate false main
  let a ← ctx.translate true annotation
  return (m, a)

/-- The main type and the alternative type where it differs. -/
def translateType (ctx : TypeContext) (t : Text) : Except Fault (Option Text × Option Text) := do
  let (m, a) ← ctx.translatePair t
  return (m, if a = m then none else a)

end TypeContext

end ModuleStubs
