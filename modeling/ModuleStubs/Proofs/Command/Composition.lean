import ModuleStubs.Proofs.Annotation.Restorable
import ModuleStubs.Proofs.Command.Overwriting
import ModuleStubs.Proofs.Json.RoundTrip
import ModuleStubs.Proofs.Stub.Encodable

/-!
# The two commands one after the other

The annotating command leaves a skeleton in a file, and the writing command takes it from there. Nothing is
lost on the way: run one after the other, the two commands write the text and print the lines that
annotating and writing give in memory (`commands_compose`). The file between them is harmless because an
annotated skeleton can be restored from its document (`readJson_annotate`). An annotation that fails leaves
all files as they were. The console has to take the lines, and the file of stubs takes every text that
comes of a skeleton without halves of surrogate pairs.
-/

set_option autoImplicit false

namespace ModuleStubs

namespace Command

open Files

variable {console : Console} {fs : Files} {argv : List Text} {args : AnnotateArguments}
  {config data : Json}

/-! ## The annotating command -/

theorem readJson_eq_ok {path : Text} {v : Json} (h : readJson fs path = .ok v) :
    ∃ t, fs.read path = .ok t ∧ Json.parse t = .ok v := by
  rw [readJson] at h
  split at h
  · contradiction
  · rename_i t ht
    split at h
    · contradiction
    · rename_i w hw
      obtain rfl := Except.ok.inj h
      exact ⟨t, ht, hw⟩

/-- The skeleton that the command annotates was read from its input. -/
theorem readJson_of_annotateInput (h : annotateInput fs args = .ok (config, data)) :
    readJson fs args.input = .ok data := by
  have hlast : ∀ {c : Json},
      (readJson fs args.input >>= fun d => pure (c, d)) = Except.ok (config, data) →
      readJson fs args.input = .ok data := by
    intro c hc
    obtain ⟨d, hd, heq⟩ := except_bind_eq_ok.1 hc
    obtain ⟨-, rfl⟩ := Prod.mk.inj (Except.ok.inj heq)
    exact hd
  -- with or without a configuration, the skeleton is read next
  rw [annotateInput] at h
  split at h
  · obtain ⟨c, -, h⟩ := except_bind_eq_ok.1 h
    exact hlast h
  · exact hlast h

/-- What was read is canonical, and the annotation keeps it so. -/
theorem isRestorable_annotated (hinput : annotateInput fs args = .ok (config, data))
    (hconfig : config.every Json.hasScalarTexts = true)
    (hdata : data.every Json.hasScalarTexts = true) :
    (Annotator.annotate config args.verbosity data).value.isRestorable = true := by
  obtain ⟨t, -, hparse⟩ := readJson_eq_ok (readJson_of_annotateInput hinput)
  exact Annotator.isRestorable_annotate args.verbosity hconfig
    (Json.isRestorable_iff.2 ⟨hdata, Json.canonical_of_parse hparse⟩)

section Annotate

variable (hargs : Arguments.parseAnnotate argv = .ok args)
  (hinput : annotateInput fs args = .ok (config, data))
include hargs hinput

variable (htakes : ∀ line ∈ Annotator.printed (Annotator.annotate config args.verbosity data),
  console.takes line = true)
include htakes

/-- An annotation that fails is reported, and no file is touched. -/
theorem annotate_of_failed {f : Fault}
    (hfault : (Annotator.annotate config args.verbosity data).failure = some f) :
    annotate console fs argv =
      ⟨fs, Annotator.printed (Annotator.annotate config args.verbosity data), some (.data f)⟩ := by
  simp only [annotate, hargs, hinput, Annotator.run_of_takes htakes, Progress.result, hfault]

/-- An annotation that completes is written to the output. -/
theorem annotate_of_completed {m : Location}
    (hcompleted : (Annotator.annotate config args.verbosity data).failure = none)
    (htarget : fs.target args.output = .ok m) :
    annotate console fs argv =
      ⟨{ fs with
          contents := putContent m
            (Json.document (Annotator.annotate config args.verbosity data).value) fs.contents },
        Annotator.printed (Annotator.annotate config args.verbosity data), none⟩ := by
  simp only [annotate, hargs, hinput, Annotator.run_of_takes htakes, Progress.result, hcompleted,
    write_of_target htarget (Json.isScalar_document _)]

/-- The output of an annotation holds the annotated skeleton. -/
theorem readJson_annotate {m : Location} (hconfig : config.every Json.hasScalarTexts = true)
    (hdata : data.every Json.hasScalarTexts = true)
    (hcompleted : (Annotator.annotate config args.verbosity data).failure = none)
    (htarget : fs.target args.output = .ok m) :
    readJson (annotate console fs argv).files args.output =
      .ok (Annotator.annotate config args.verbosity data).value := by
  have hwritten := content?_write (write_of_target htarget
    (Json.isScalar_document (Annotator.annotate config args.verbosity data).value))
  have hrestorable := isRestorable_annotated hinput hconfig hdata
  rw [annotate_of_completed hargs hinput htakes hcompleted htarget, readJson,
    read_of_content? hwritten, Json.unifyLineEnds_document]
  simp only [Json.parse_document hrestorable]

end Annotate

/-! ## Both commands -/

/-- What the writing command leaves in an output that it can open. -/
theorem content?_stub (console : Console) {made : Files} {argv : List Text} {args : StubArguments} {data : Json}
    {l : Location} (hargs : Arguments.parseStub argv = .ok args)
    (hread : readJson fs args.input = .ok data) (hopen : fs.opened args.output = .ok (made, l)) :
    (stub console fs argv).files.content? args.output =
      some (Stub.fileText (Stub.run console data).log) := by
  obtain ⟨hmake, htarget⟩ := opened_eq_ok hopen
  rw [stub_of_opened console hargs hread hopen, ← contents_of_makeFolders hmake]
  exact content?_write (write_of_target htarget (isScalar_fileText_run console data))

/-- The annotating command and the writing command, run one after the other on skeletons and
configurations without halves of surrogate pairs and on a console that takes the lines, do what annotating
and writing do in memory. If the annotation fails, so does the command, with the same fault and the same
lines, and no file changes. If it completes, the output of the writing command holds the text that is
written in memory, the lines printed are those of the annotation and of the writing, and the writing command
fails just if the writing does. -/
theorem commands_compose {stubArgv : List Text} {stubArgs : StubArguments}
    (hargs : Arguments.parseAnnotate argv = .ok args)
    (hstub : Arguments.parseStub stubArgv = .ok stubArgs) (hbetween : stubArgs.input = args.output)
    (hinput : annotateInput fs args = .ok (config, data))
    (hconfig : config.every Json.hasScalarTexts = true)
    (hdata : data.every Json.hasScalarTexts = true) (console : Console) :
    let p := Annotator.annotate config args.verbosity data
    let w := Stub.writeModule p.value
    let first := annotate console fs argv
    let second := stub console first.files stubArgv
    (∀ line ∈ Annotator.printed p, console.takes line = true) →
    (∀ f, p.failure = some f → first = ⟨fs, Annotator.printed p, some (.data f)⟩) ∧
    ∀ m, p.failure = none → fs.target args.output = .ok m →
      first.failure = none ∧
      ∀ made l, first.files.opened stubArgs.output = .ok (made, l) →
        (∀ line ∈ Stub.warnings w.log, console.takes line = true) →
        second.files.content? stubArgs.output = some (Stub.fileText w.log) ∧
        first.printed ++ second.printed = Annotator.printed p ++ Stub.warnings w.log ∧
        second.failure = match w.result with
          | .ok _ => none
          | .error f => some (.data f) := by
  intro p w first second htakes
  refine ⟨fun f hf => annotate_of_failed hargs hinput htakes hf, ?_⟩
  intro m hcompleted htarget
  have hfirst := annotate_of_completed hargs hinput htakes hcompleted htarget
  -- what the first command leaves is what the second one reads
  have hread : readJson first.files stubArgs.input = .ok p.value := by
    rw [hbetween]
    exact readJson_annotate hargs hinput htakes hconfig hdata hcompleted htarget
  refine ⟨congrArg Outcome.failure hfirst, ?_⟩
  intro made l hopen hwarnings
  have hscalar := (Json.isRestorable_iff.1 (isRestorable_annotated hinput hconfig hdata)).1
  have hrun := Stub.run_eq_writeModule hscalar hwarnings
  have hsecond := stub_of_opened console hstub hread hopen
  have hcontent := content?_stub console hstub hread hopen
  rw [hrun] at hsecond hcontent
  refine ⟨hcontent, ?_, congrArg Outcome.failure hsecond⟩
  rw [congrArg Outcome.printed hfirst, congrArg Outcome.printed hsecond]

/-! ## A skeleton with a configuration -/

/-- A skeleton with a signature in a doc and a member of an odd type, and a configuration for a type of
that signature. -/
def signedSkeleton : Files where
  contents :=
    [([lit "config.json"],
      lit "\x7b\"type-overrides\": [\x7b\"pattern\": \"Cy([A-Z]*)\", \"type\": \"\x7b\x7d\"\x7d]\x7d"),
     ([lit "in.json"],
      lit "\x7b\"type\": \"module\", \"name\": \"M\", \"members\": [" ++
      lit "\x7b\"type\": \"function\", \"name\": \"f\", \"doc\": \"int f(CyUNIT u) - 😀\"\x7d, " ++
      lit "\x7b\"type\": \"odd\", \"name\": \"x\"\x7d]\x7d")]

/-- The configuration in the files. -/
def signedConfig : Json :=
  .object [(lit "type-overrides", .list [.object
    [(lit "pattern", .str (lit "Cy([A-Z]*)")), (lit "type", .str (lit "\x7b\x7d"))]])]

/-- The skeleton in the files. -/
def signedModule : Json :=
  .object [(lit "type", .str (lit "module")), (lit "name", .str (lit "M")),
    (lit "members", .list
      [.object [(lit "type", .str (lit "function")), (lit "name", .str (lit "f")),
        (lit "doc", .str (lit "int f(CyUNIT u) - 😀"))],
       .object [(lit "type", .str (lit "odd")), (lit "name", .str (lit "x"))]])]

/-- The arguments of the annotating command. -/
def signedArguments : List Text :=
  [lit "--config", lit "config.json", lit "-v", lit "1", lit "in.json", lit "mid.json"]

/-- What they mean. -/
def signedOptions : AnnotateArguments :=
  ⟨some (lit "config.json"), lit "in.json", lit "mid.json", 1⟩

theorem parseAnnotate_signedArguments :
    Arguments.parseAnnotate signedArguments = .ok signedOptions :=
  rfl

theorem annotateInput_signedSkeleton :
    annotateInput signedSkeleton signedOptions = .ok (signedConfig, signedModule) :=
  except_eq_ok_of_toOption (by decide +kernel)

theorem parseStub_signedArguments :
    Arguments.parseStub [lit "mid.json", lit "out/M.py"] = .ok ⟨lit "mid.json", lit "out/M.py"⟩ :=
  rfl

theorem annotate_signedModule :
    (Annotator.annotate signedConfig 1 signedModule).failure = none := by
  decide +kernel

/-- The lines have no halves of surrogate pairs. -/
theorem takes_signedModule : ∀ line ∈ Annotator.printed (Annotator.annotate signedConfig 1 signedModule),
    Console.utf8.takes line = true := by
  decide +kernel

theorem target_signedSkeleton : signedSkeleton.target (lit "mid.json") = .ok [lit "mid.json"] := rfl

/-- After the annotation the folder of the stub file can be made. -/
theorem opened_signedSkeleton :
    ∃ made l, (annotate .utf8 signedSkeleton signedArguments).files.opened (lit "out/M.py") =
      .ok (made, l) := by
  rw [annotate_of_completed parseAnnotate_signedArguments annotateInput_signedSkeleton
    takes_signedModule annotate_signedModule target_signedSkeleton]
  exact ⟨_, _, rfl⟩

/-- The rest of the doc needs two escapes in the file between the commands, and comes out of it as one code
point. Each command names the member that it ignores. -/
theorem commands_compose_signedSkeleton :
    Arguments.parseAnnotate signedArguments = .ok signedOptions ∧
    Arguments.parseStub [lit "mid.json", lit "out/M.py"] = .ok ⟨lit "mid.json", lit "out/M.py"⟩ ∧
    annotateInput signedSkeleton signedOptions = .ok (signedConfig, signedModule) ∧
    signedConfig.every Json.hasScalarTexts = true ∧ signedModule.every Json.hasScalarTexts = true ∧
    let first := annotate .utf8 signedSkeleton signedArguments
    let second := stub .utf8 first.files [lit "mid.json", lit "out/M.py"]
    first.failure = none ∧ second.failure = none ∧
    second.files.content? (lit "out/M.py") = some (lit ("\"\"\"\nM\n\n\n\"\"\"\n\n" ++
      "def f( arg0 ) :\n\t# type: (UNIT) -> int\n\t\"\"\" 😀 \"\"\"\n\n")) ∧
    first.printed ++ second.printed =
      [lit "Ignoring member M.x of unknown type 'odd'", lit "WARNING: Ignored M.x of type odd"] := by
  have hconfig : signedConfig.every Json.hasScalarTexts = true := by decide +kernel
  have hdata : signedModule.every Json.hasScalarTexts = true := by decide +kernel
  obtain ⟨hfirst, hsecond⟩ :=
    (commands_compose parseAnnotate_signedArguments parseStub_signedArguments rfl
      annotateInput_signedSkeleton hconfig hdata .utf8 takes_signedModule).2 _ annotate_signedModule
      target_signedSkeleton
  obtain ⟨made, l, hopened⟩ := opened_signedSkeleton
  obtain ⟨hcontent, hprinted, hfailure⟩ := hsecond made l hopened (by decide +kernel)
  refine ⟨parseAnnotate_signedArguments, parseStub_signedArguments, annotateInput_signedSkeleton,
    hconfig, hdata, hfirst, ?_, ?_, ?_⟩
  · rw [hfailure]
    decide +kernel
  · rw [hcontent]
    decide +kernel
  · rw [hprinted]
    decide +kernel

end Command

end ModuleStubs
