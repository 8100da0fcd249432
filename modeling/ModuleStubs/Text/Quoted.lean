import ModuleStubs.Text.Printable

/-!
# Quoted texts

The literal of a text in Python source: single quotes, or double quotes when
the text holds a single quote and no double one. The backslash and the chosen
quote are escaped, line feed, carriage return and tab have short escapes, and
the code points that do not print are written in hexadecimal.
-/

set_option autoImplicit false

namespace ModuleStubs

namespace Text

/-- A hexadecimal digit in lower case. -/
def hexDigit (n : Nat) : CodePoint :=
  if n < 10 then CodePoint.ofNat (48 + n) else CodePoint.ofNat (87 + n)

/-- The lowest `width` hexadecimal digits of a number, with leading zeros. -/
def hexFixed : Nat → Nat → Text
  | 0, _ => []
  | width + 1, n => hexFixed width (n / 16) ++ [hexDigit (n % 16)]

/-- Hexadecimal digits, at least four of them. -/
def hexFour (n : Nat) : Text :=
  if n < 0x10000 then hexFixed 4 n
  else if n < 0x100000 then hexFixed 5 n
  else hexFixed 6 n

/-- The escape of a code point that is not shown. -/
def hexEscape (c : CodePoint) : Text :=
  if c.val < 0x100 then lit "\\x" ++ hexFixed 2 c.val
  else if c.val < 0x10000 then lit "\\u" ++ hexFixed 4 c.val
  else lit "\\U" ++ hexFixed 8 c.val

/-- One code point between the given quotes. -/
def quotedPoint (quote c : CodePoint) : Text :=
  if c = quote ∨ c = '\\' then ['\\', c]
  else if c = '\n' then lit "\\n"
  else if c = '\r' then lit "\\r"
  else if c = '\t' then lit "\\t"
  else if isShown c then [c]
  else hexEscape c

/-- The quote that a text is put between. -/
def quoteFor (t : Text) : CodePoint :=
  if t.contains (CodePoint.ofChar '\'') && !t.contains (CodePoint.ofChar '"') then '"' else '\''

/-- The literal of a text. -/
def quoted (t : Text) : Text :=
  let quote := quoteFor t
  quote :: (t.flatMap (quotedPoint quote) ++ [quote])

end Text

end ModuleStubs
