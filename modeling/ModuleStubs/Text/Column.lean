import ModuleStubs.Text.Basic

/-!
# Columns

Texts filled with blanks to a width. A text wider than its column stays as it is.
-/

set_option autoImplicit false

namespace ModuleStubs

namespace Text

/-- As many blanks. -/
def blanks (n : Nat) : Text := List.replicate n ' '

/-- A text at the left of a column. -/
def atLeft (width : Nat) (t : Text) : Text := t ++ blanks (width - t.length)

/-- A text at the right of a column. -/
def atRight (width : Nat) (t : Text) : Text := blanks (width - t.length) ++ t

end Text

end ModuleStubs
