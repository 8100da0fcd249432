import ModuleStubs.Arguments
import ModuleStubs.Console
import ModuleStubs.Files
import ModuleStubs.Json.Reader
import ModuleStubs.Json.Writer

/-!
# Commands

The two commands of the generator, as functions on files: annotating a skeleton
file, and writing the stub file of a skeleton file. Each one reads all its input
before it touches its output. The annotating command opens its output only after
it succeeded; the writing command opens it before it starts, so what was written
before a fault stays in the file. A line that the console refuses is a fault.
-/

set_option autoImplicit false

namespace ModuleStubs

namespace Command

/-- Why a command fails. -/
inductive Failure where
  | arguments (r : Arguments.Refusal)
  | file (f : FileFault)
  | json (f : Json.ReadFault)
  | data (f : Fault)

/-- What a command leaves behind. -/
structure Outcome where
  files : Files
  /-- The lines printed. -/
  printed : List Text
  failure : Option Failure

/-- A command that failed before it printed or changed anything. -/
def Outcome.refused (fs : Files) (f : Failure) : Outcome := ⟨fs, [], some f⟩

/-- The JSON value in the file at a path. -/
def readJson (fs : Files) (path : Text) : Except Failure Json :=
  match fs.read path with
  | .error f => .error (.file f)
  | .ok t =>
    match Json.parse t with
    | .error f => .error (.json f)
    | .ok v => .ok v

/-- The input of the annotating command: the configuration, null if there is none,
and the skeleton. -/
def annotateInput (fs : Files) (args : AnnotateArguments) : Except Failure (Json × Json) := do
  let config ←
    match args.config with
    | some path => readJson fs path
    | none => .ok .null
  let data ← readJson fs args.input
  return (config, data)

/-- Annotating a skeleton file. -/
def annotate (console : Console) (fs : Files) (argv : List Text) : Outcome :=
  match Arguments.parseAnnotate argv with
  | .error r => .refused fs (.arguments r)
  | .ok args =>
    match annotateInput fs args with
    | .error f => .refused fs f
    | .ok (config, data) =>
      let r := Annotator.run console config args.verbosity data
      match r.result with
      | .error f => ⟨fs, r.log, some (.data f)⟩
      | .ok annotated =>
        match fs.write args.output (Json.document annotated) with
        | .error f => ⟨fs, r.log, some (.file f)⟩
        | .ok fs => ⟨fs, r.log, none⟩

/-- Writing a stub file. The folders on the way to it are made. -/
def stub (console : Console) (fs : Files) (argv : List Text) : Outcome :=
  match Arguments.parseStub argv with
  | .error r => .refused fs (.arguments r)
  | .ok args =>
    match readJson fs args.input with
    | .error f => .refused fs f
    | .ok data =>
      match fs.makeFolders (Files.folderOf args.output) with
      | .error f => .refused fs (.file f)
      | .ok fs =>
        let w := Stub.run console data
        match fs.write args.output (Stub.fileText w.log) with
        | .error f => .refused fs (.file f)
        | .ok fs =>
          ⟨fs, Stub.warnings w.log, match w.result with
            | .ok _ => none
            | .error f => some (.data f)⟩

end Command

end ModuleStubs
