import ModuleStubs.Annotation.Module
import ModuleStubs.Stub.Module

/-!
# Consoles and text files

What is printed goes to a console and what is written goes to a file, piece by piece.
A file of UTF-8 refuses a piece with surrogates, and so do some consoles. A piece that
is refused ends the work there (`Trace.stopAt`): what went out before it stays, and
nothing comes after it.
-/

set_option autoImplicit false

namespace ModuleStubs

/-- A console: the lines that it takes. -/
structure Console where
  takes : Text → Bool

namespace Console

/-- A console that takes every line. -/
def any : Console := ⟨fun _ => true⟩

/-- A console of UTF-8. -/
def utf8 : Console := ⟨Text.isScalar⟩

/-- The fault of a line that is not taken. -/
def refusal (console : Console) (line : Text) : Option Fault :=
  if console.takes line then none else some (.unencodable line)

theorem refusal_eq_none_iff {console : Console} {line : Text} :
    console.refusal line = none ↔ console.takes line = true := by
  rw [refusal]
  cases console.takes line <;> simp

end Console

/-- How a change of a value ends. -/
def Progress.result {μ ε α : Type} (p : Progress μ ε α) : Except ε α :=
  match p.failure with
  | none => .ok p.value
  | some e => .error e

/-- A module skeleton annotated, with its messages printed on a console. -/
def Annotator.run (console : Console) (config : Json) (verbosity : Int) (data : Json) :
    Trace Text Fault Json :=
  let p := annotate config verbosity data
  Trace.stopAt console.refusal ⟨printed p, p.result⟩

/-- A run that prints no line that the console refuses does what the annotation does. -/
theorem Annotator.run_of_takes {console : Console} {config : Json} {verbosity : Int} {data : Json}
    (h : ∀ line ∈ printed (annotate config verbosity data), console.takes line = true) :
    run console config verbosity data =
      ⟨printed (annotate config verbosity data), (annotate config verbosity data).result⟩ :=
  Trace.stopAt_eq_self fun line hline => Console.refusal_eq_none_iff.2 (h line hline)

namespace Stub

/-- What a text file and a console refuse. -/
def refusal (console : Console) : Emission → Option Fault
  | .write t => if t.isScalar then none else some (.unencodable t)
  | .warn t => console.refusal t

/-- The file of a module, with its warnings printed on a console. -/
def run (console : Console) (data : Json) : Writing Unit :=
  (writeModule data).stopAt (refusal console)

end Stub

end ModuleStubs
