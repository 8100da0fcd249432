import ModuleStubs.Command
import ModuleStubs.CType.SelfCheck
import ModuleStubs.Extract.Retrieval

/-!
# The command line

`annotate` and `stub` run the two commands on the files that their arguments name,
`retrieve HOME` copies a report out of the log below a home folder, and `check` runs
the self-check of the types. The commands are functions on files: the files at the
paths are loaded first, and those that changed are written afterwards.
-/

set_option autoImplicit false

namespace ModuleStubs

namespace Main

/-- The wording of a failure. -/
def failureMessage : Command.Failure → Text
  | .arguments _ => lit "invalid arguments"
  | .file f => f.message
  | .json f => f.message
  | .data f => f.message

/-- The exit code of a failure. Help is none. -/
def exitCode : Command.Failure → UInt32
  | .arguments .help => 0
  | .arguments .wrong => 2
  | _ => 1

/-- A folder: only a folder has itself as a part. -/
def folderExists (path : Text) : IO Bool := do
  try
    let _ ← IO.FS.realPath (path.toString ++ "/.")
    return true
  catch _ => return false

/-- The content of a file that can be read. -/
def content? (path : Text) : IO (Option Text) := do
  try
    let t ← IO.FS.readFile path.toString
    return some (lit t)
  catch _ => return none

/-- The files and folders at some paths. -/
def load (paths : List Text) : IO Files := do
  let mut fs : Files := {}
  for path in paths do
    let folder := Files.folderOf path
    if !folder.isEmpty then
      if ← folderExists folder then
        fs := ((fs.makeFolders folder).toOption).getD fs
    match ← content? path with
    | some t => fs := fs.place path (Text.unifyLineEnds t)
    | none =>
      if ← folderExists path then
        fs := ((fs.makeFolders path).toOption).getD fs
  return fs

/-- The files at some paths that differ from before, written. -/
def save (paths : List Text) (before after : Files) : IO Unit := do
  for path in paths do
    match after.content? path with
    | some t =>
      if before.content? path != some t then
        let folder := Files.folderOf path
        if !folder.isEmpty then IO.FS.createDirAll folder.toString
        IO.FS.writeFile path.toString t.toString
    | none => pure ()

/-- A command run on the files that its arguments name. -/
def runCommand (command : Files → List Text → Command.Outcome) (args : List Text) : IO UInt32 := do
  let fs ← load args
  let o := command fs args
  for l in o.printed do IO.println l.toString
  save args fs o.files
  match o.failure with
  | none => return 0
  | some f =>
    IO.eprintln (failureMessage f).toString
    return exitCode f

/-- The report copied out of the log below a home folder. -/
def runRetrieval (home : Text) : IO UInt32 := do
  let paths := [home ++ lit "/" ++ Retrieval.logPath, Retrieval.copyPath]
  let fs ← load paths
  let (after, printed) := Retrieval.run fs home
  for l in printed do IO.println l.toString
  save paths fs after
  return 0

/-- The self-check of the types. -/
def runCheck : IO UInt32 := do
  match TypeContext.selfCheck with
  | .ok t =>
    IO.println t.toString
    return 0
  | .error f =>
    IO.eprintln f.message.toString
    return 1

end Main

end ModuleStubs

/-- The first argument chooses the command. -/
def main (args : List String) : IO UInt32 :=
  match args with
  | "annotate" :: rest => ModuleStubs.Main.runCommand (ModuleStubs.Command.annotate .utf8) (rest.map ModuleStubs.lit)
  | "stub" :: rest => ModuleStubs.Main.runCommand (ModuleStubs.Command.stub .utf8) (rest.map ModuleStubs.lit)
  | ["retrieve", home] => ModuleStubs.Main.runRetrieval (ModuleStubs.lit home)
  | ["check"] => ModuleStubs.Main.runCheck
  | _ => do
    IO.eprintln "usage: (annotate | stub) ARGUMENTS | retrieve HOME | check"
    return 2
