import ModuleStubs.Files
import ModuleStubs.Text.Blank

/-!
# Retrieval from a log

A report in a log lies between a start line and an end line, each up to blanks
around it. Retrieval copies the lines between them, also of several reports and
of one that does not end, to a file of their own.
-/

set_option autoImplicit false

namespace ModuleStubs

namespace Retrieval

/-- The line after which lines are copied. -/
def startLine : Text := lit "Tree for CvPythonExtensions START"

/-- The line after which lines are no longer copied. -/
def endLine : Text := lit "Tree for CvPythonExtensions END"

/-- The path of the log below the home folder. -/
def logPath : Text := lit "Documents/My Games/Beyond the Sword/Logs/PythonDbg.log"

/-- The path of the copy. -/
def copyPath : Text := lit "skeleton.json"

/-- The lines that are copied. -/
def copied : Bool → List Text → List Text
  | _, [] => []
  | copying, line :: lines =>
    if Text.strip line = startLine then copied true lines
    else if Text.strip line = endLine then copied false lines
    else if copying then line :: copied copying lines
    else copied copying lines

/-- There is a start line. -/
def hasStart (lines : List Text) : Bool := lines.any fun l => Text.strip l = startLine

/-- The copy of the reports in a log. -/
def copy (log : Text) : Text := Text.concat (copied false (Text.lines log))

/-- The message about a log without report. -/
def notFound : Text := lit "ERROR: Tree not found in log"

/-- The message about a file that cannot be used. -/
def unusable (path : Text) : Text := lit "Error opening file '" ++ path ++ lit "'"

/-- Retrieval below a home folder: the files after it, and the lines printed. -/
def run (fs : Files) (home : Text) : Files × List Text :=
  let path := home ++ lit "/" ++ logPath
  match fs.read path with
  | .error f => (fs, [unusable f.path])
  | .ok log =>
    match fs.write copyPath (copy log) with
    | .error f => (fs, [unusable f.path])
    | .ok fs => (fs, if hasStart (Text.lines log) then [] else [notFound])

end Retrieval

end ModuleStubs
