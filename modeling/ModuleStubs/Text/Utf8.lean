import ModuleStubs.Number.Decimal
import ModuleStubs.Text.Quoted

/-!
# UTF-8

The bytes of a text. `Text.utf8` gives a surrogate the three bytes that its number
would have; `Text.encoded` refuses it, as a stream of UTF-8 does.
-/

set_option autoImplicit false

namespace ModuleStubs

/-- The bytes of a code point. -/
def CodePoint.utf8 (c : CodePoint) : List UInt8 :=
  let n := c.val
  if n < 0x80 then [n.toUInt8]
  else if n < 0x800 then [(0xC0 + n / 64).toUInt8, (0x80 + n % 64).toUInt8]
  else if n < 0x10000 then
    [(0xE0 + n / 4096).toUInt8, (0x80 + n / 64 % 64).toUInt8, (0x80 + n % 64).toUInt8]
  else
    [(0xF0 + n / 262144).toUInt8, (0x80 + n / 4096 % 64).toUInt8, (0x80 + n / 64 % 64).toUInt8,
     (0x80 + n % 64).toUInt8]

/-- The bytes of a text. -/
def Text.utf8 (t : Text) : List UInt8 := t.flatMap CodePoint.utf8

/-- A code point that has no place in UTF-8. -/
structure Unencodable where
  point : CodePoint
deriving DecidableEq

/-- The bytes of a text without surrogates; the first surrogate is named otherwise. -/
def Text.encoded (t : Text) : Except Unencodable (List UInt8) :=
  match t.find? CodePoint.isSurrogate with
  | some c => .error ⟨c⟩
  | none => .ok t.utf8

/-- The wording of the refusal of a text with surrogates: it names the first of them,
or the positions of the first ones that stand together. -/
def Text.encodingFault (t : Text) : Text :=
  let start := (t.takeWhile fun c => !c.isSurrogate).length
  let run := (t.drop start).takeWhile CodePoint.isSurrogate
  lit "'utf-8' codec can't encode " ++
    (match run with
      | [c] => lit "character '" ++ hexEscape c ++ lit "' in position " ++ decimal start
      | _ => lit "characters in position " ++ decimal start ++ lit "-" ++
          decimal (start + run.length - 1)) ++
    lit ": surrogates not allowed"

end ModuleStubs
