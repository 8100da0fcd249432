import ModuleStubs.CType.Context

/-!
# Self check of the type conversion

A run of the conversion on a type whose result is known, for an installation to
be tried out.
-/

set_option autoImplicit false

namespace ModuleStubs

namespace TypeContext

/-- The line printed when the conversion gives what it should. -/
def selfCheck : Except Fault Text := do
  let r ← translate {} false (lit "CvTutorialMessage*")
  if r = some (lit "CvTutorialMessage") then return lit "All tests passed."
  else throw (.violated .passesSelfCheck)

example : selfCheck = .ok (lit "All tests passed.") := rfl

end TypeContext

end ModuleStubs
