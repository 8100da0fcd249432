import ModuleStubs.Number.Decimal
import ModuleStubs.Text.Blank
import ModuleStubs.Text.Word

/-!
# Patterns

Backtracking patterns over code points, as configurations use them to select
paths and type names. This module holds the expressions, the classes of code
points, and the faults of pattern texts.

The patterns are those without named groups, flags, look-around, conditions, atomic
groups, comments in parentheses, back references and escapes by number. A text with one
of these is refused with a cause of its own (`Cause.unsupported`), which says nothing
about the text.
-/

set_option autoImplicit false

namespace ModuleStubs

namespace Pattern

/-- Classes of code points that an escape names. -/
inductive Category where
  | digit | space | word
deriving DecidableEq

/-- One item of a set of code points. A category is the ASCII one when `ascii`
holds, and its complement when `negated` holds. -/
inductive ClassItem where
  | point (c : CodePoint)
  | range (lo hi : CodePoint)
  | category (k : Category) (ascii negated : Bool)
deriving DecidableEq

/-- Conditions on a place in the text. -/
inductive Anchor where
  | textStart | lineStart | textEnd | lineEnd | veryEnd | wordEdge | noWordEdge
deriving DecidableEq

/-- In which order a repetition tries its counts, and whether it may give up the
first one that works. -/
inductive Mode where
  | greedy | lazy | possessive
deriving DecidableEq

/-- A pattern expression. -/
inductive Expr where
  | empty
  | point (c : CodePoint)
  | anyPoint (newline : Bool)
  | set (negated : Bool) (items : List ClassItem)
  | anchor (a : Anchor)
  | seq (a b : Expr)
  | alt (a b : Expr)
  | group (index : Nat) (e : Expr)
  | repeated (e : Expr) (least : Nat) (most : Option Nat) (mode : Mode)
deriving Inhabited

/-- How a pattern text is read: categories by ASCII only, the dot and the
anchors across lines, and blanks and comments left out. -/
structure Dialect where
  ascii : Bool := false
  dotAll : Bool := false
  multiline : Bool := false
  spaced : Bool := false

/-- What is wrong with a pattern text. -/
inductive Cause where
  | unterminatedGroup
  | unterminatedSet
  | nothingToRepeat
  | multipleRepeat
  | repeatOrder
  | unbalanced
  | badEscape (c : CodePoint)
  | danglingEscape
  | badRange (first last : Text)
  | unknownExtension (c : CodePoint)
  | unexpectedEnd
  /-- A construct that is not among those modelled. -/
  | unsupported
deriving DecidableEq

/-- A fault of a pattern text: what is wrong, and where. -/
structure Fault where
  cause : Cause
  position : Nat
  source : Text
deriving DecidableEq

/-- The wording of a cause. -/
def Cause.message : Cause → Text
  | .unterminatedGroup => lit "missing ), unterminated subpattern"
  | .unterminatedSet => lit "unterminated character set"
  | .nothingToRepeat => lit "nothing to repeat"
  | .multipleRepeat => lit "multiple repeat"
  | .repeatOrder => lit "min repeat greater than max repeat"
  | .unbalanced => lit "unbalanced parenthesis"
  | .badEscape c => lit "bad escape \\" ++ [c]
  | .danglingEscape => lit "bad escape (end of pattern)"
  | .badRange a b => lit "bad character range " ++ a ++ lit "-" ++ b
  | .unknownExtension c => lit "unknown extension ?" ++ [c]
  | .unexpectedEnd => lit "unexpected end of pattern"
  | .unsupported => lit "unsupported construct"

/-- The wording of a fault. In a text of several lines the line and the column
are added. -/
def Fault.message (f : Fault) : Text :=
  let upTo := f.source.take f.position
  let line := Text.countOf '\n' upTo + 1
  let column := (Text.lastPiece '\n' upTo).length + 1
  let place := lit " at position " ++ decimal f.position
  let lines :=
    if f.source.contains (CodePoint.ofChar '\n') then
      lit " (line " ++ decimal line ++ lit ", column " ++ decimal column ++ lit ")"
    else []
  f.cause.message ++ place ++ lines

/-- A code point belongs to a category. -/
def Category.holds (k : Category) (ascii : Bool) (c : CodePoint) : Bool :=
  match k with
  | .digit => if ascii then c.isDigit else Text.isDecimalPoint c
  | .space => if ascii then isSpace c else isBlank c
  | .word => if ascii then Text.isAsciiWord c else Text.isWordPoint c

/-- A code point belongs to an item of a set. -/
def ClassItem.holds (item : ClassItem) (c : CodePoint) : Bool :=
  match item with
  | .point d => decide (c = d)
  | .range lo hi => lo.val ≤ c.val && c.val ≤ hi.val
  | .category k ascii negated => k.holds ascii c != negated

end Pattern

/-- A pattern: its text, its expression and the number of its groups. -/
structure Pattern where
  source : Text
  expr : Pattern.Expr
  groups : Nat

end ModuleStubs
