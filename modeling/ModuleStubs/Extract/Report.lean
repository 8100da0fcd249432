import ModuleStubs.Extract.DocTree
import ModuleStubs.Wire.Writer

/-!
# Extraction reports

A report prints a ruler and a start line, writes the skeleton of a module as one
document, and prints an end line and a ruler. The document may go to the same
place as the rest or to a place of its own, and what making the skeleton prints
comes before the document.
-/

set_option autoImplicit false

namespace ModuleStubs

namespace Report

/-- What a report gives out. -/
inductive Emission where
  /-- Text printed. -/
  | print (text : Text)
  /-- Text of the document. -/
  | document (text : Text)
deriving DecidableEq

/-- Why a report ends early. -/
inductive Failure where
  | tree (f : DocTree.Stop)
  | wire (f : Wire.WriteFault)

/-- The ruler around a report. -/
def ruler : Text := List.replicate 72 (CodePoint.ofChar '-') ++ lit "\n"

/-- The start line of the report on a module. -/
def startLine (name : Text) : Text := lit "Tree for " ++ name ++ lit " START\n"

/-- The end line of the report on a module. -/
def endLine (name : Text) : Text := lit "Tree for " ++ name ++ lit " END\n"

/-- Steps of a report. -/
abbrev Reporting := Trace Emission Failure

/-- Something printed. -/
def print (t : Text) : Reporting Unit := Trace.say (.print t)

/-- The skeleton, with what making it prints. -/
def tree (making : DocTree.Making DocTree) : Reporting DocTree :=
  ⟨making.log.map .print, making.result.mapError .tree⟩

/-- The document of a skeleton, in the chunks in which it is written. -/
def document (t : DocTree) : Reporting Unit :=
  let w := t.toDatum.chunks {}
  ⟨w.log.map .document, (w.result.mapError .wire).map fun _ => ()⟩

/-- The report on an object of a name, down to a greatest depth and with room for so many
nested calls. -/
def make {ρ : Type} [DecidableEq ρ] (memory : Memory ρ) (greatest : Int) (room : Nat) (o : ρ)
    (name : Text) : Reporting Unit := do
  print ruler
  print (startLine name)
  let t ← tree (DocTree.make memory greatest room ⟨o, name, 0, false⟩)
  document t
  Trace.say (.document (lit "\n"))
  print (endLine name)
  print ruler

/-- The text printed, where the document goes elsewhere. -/
def printed (log : List Emission) : Text :=
  log.flatMap fun
    | .print t => t
    | .document _ => []

/-- The text of the document. -/
def documentText (log : List Emission) : Text :=
  log.flatMap fun
    | .print _ => []
    | .document t => t

/-- The text printed, where the document goes to the same place. -/
def together (log : List Emission) : Text :=
  log.flatMap fun
    | .print t => t
    | .document t => t

end Report

end ModuleStubs
