import ModuleStubs.Text.Blank

/-!
# Docstrings

The doc of an object is written with the indentation of the code around it.
Cleaning removes it: tabs become spaces up to the next multiple of eight columns,
the first line loses the blanks at its start, the other lines lose the indent that
all of them have, and empty lines at both ends are dropped.
-/

set_option autoImplicit false

namespace ModuleStubs

namespace Docstring

/-- The width of a tab. -/
def tabWidth : Nat := 8

/-- The text with spaces in place of tabs, from a column on. Line feeds and
carriage returns begin a new line. -/
def expandTabsFrom : Nat → Text → Text
  | _, [] => []
  | column, c :: t =>
    if c = '\t' then
      let width := tabWidth - column % tabWidth
      List.replicate width (CodePoint.ofChar ' ') ++ expandTabsFrom (column + width) t
    else if c = '\n' ∨ c = '\r' then c :: expandTabsFrom 0 t
    else c :: expandTabsFrom (column + 1) t

/-- The text with spaces in place of tabs. -/
def expandTabs (t : Text) : Text := expandTabsFrom 0 t

/-- The number of blanks at the start of a line, if there is anything else in it. -/
def indent? (line : Text) : Option Nat :=
  let content := Text.stripStart line
  if content.isEmpty then none else some (line.length - content.length)

/-- The least indent of the lines that are not blank, if there are any. -/
def margin? (lines : List Text) : Option Nat := (lines.filterMap indent?).min?

/-- The lines without their common indent. -/
def dedent (lines : List Text) : List Text :=
  match margin? lines with
  | none => lines
  | some n => lines.map (List.drop n)

/-- The lines without the empty ones at both ends. -/
def dropEmptyEnds (lines : List Text) : List Text :=
  ((lines.reverse.dropWhile List.isEmpty).reverse).dropWhile List.isEmpty

/-- A doc without the indentation of the code around it. -/
def clean (doc : Text) : Text :=
  match Text.splitOn '\n' (expandTabs doc) with
  | [] => []
  | first :: others =>
    Text.join (lit "\n") (dropEmptyEnds (Text.stripStart first :: dedent others))

end Docstring

end ModuleStubs
