import ModuleStubs.Proofs.Command.Opening
import ModuleStubs.Proofs.Stub.Visits
import ModuleStubs.Proofs.Text.Utf8

/-!
# What a failed run leaves in its output

The command that writes stubs opens its output before it starts. A skeleton that cannot be written to
its end therefore costs the file that was there: whatever the output held, after the run it holds what
was written before the fault (`stub_keeps_iff`). Nothing is lost only if the output cannot be opened, or
if it held just that text. All other files stay as they were. A fault is also a text that the file does not
take, or a warning that the console does not take.
-/

set_option autoImplicit false

namespace ModuleStubs

namespace Command

open Files

section Stub

variable (console : Console) {fs made : Files} {argv : List Text} {args : StubArguments}
  {data : Json} {l : Location}

/-- What a run writes is taken by a file. -/
theorem isScalar_fileText_run (data : Json) :
    (Stub.fileText (Stub.run console data).log).isScalar = true := by
  refine Text.isScalar_iff.2 fun c hc => ?_
  obtain ⟨e, he, hc⟩ := List.mem_flatMap.1 hc
  have htaken := Trace.forall_mem_log_stopAt _ e he
  cases e with
  | write t =>
      refine Text.isScalar_iff.1 (Bool.of_not_eq_false fun hscalar => ?_) c hc
      simp [Stub.refusal, hscalar] at htaken
  | warn t => cases hc

/-- A run that opens its output puts there what was written, up to a fault if there is one. -/
theorem stub_of_opened (hargs : Arguments.parseStub argv = .ok args)
    (hread : readJson fs args.input = .ok data) (hopen : fs.opened args.output = .ok (made, l)) :
    stub console fs argv =
      ⟨{ made with contents := putContent l (Stub.fileText (Stub.run console data).log) fs.contents },
        Stub.warnings (Stub.run console data).log,
        match (Stub.run console data).result with
        | .ok _ => none
        | .error f => some (.data f)⟩ := by
  obtain ⟨hmake, htarget⟩ := opened_eq_ok hopen
  cases hresult : (Stub.run console data).result with
  | ok u =>
      simp only [stub, hargs, hread, hmake, write_of_target htarget (isScalar_fileText_run console data),
        contents_of_makeFolders hmake,
        hresult]
  | error f =>
      simp only [stub, hargs, hread, hmake, write_of_target htarget (isScalar_fileText_run console data),
        contents_of_makeFolders hmake,
        hresult]

/-- A run that cannot open its output fails for that reason and leaves every content as it was. -/
theorem stub_of_not_opened {g : FileFault} (hargs : Arguments.parseStub argv = .ok args)
    (hread : readJson fs args.input = .ok data) (hopen : fs.opened args.output = .error g) :
    (stub console fs argv).failure = some (.file g) ∧ (stub console fs argv).files.contents = fs.contents := by
  rw [opened] at hopen
  cases hmake : fs.makeFolders (folderOf args.output) with
  | error f =>
      rw [hmake] at hopen
      obtain rfl := Except.error.inj hopen
      simp only [stub, hargs, hread, hmake, Outcome.refused, and_self]
  | ok made =>
      cases htarget : made.target args.output with
      | ok k =>
          simp only [hmake, htarget] at hopen
          contradiction
      | error c =>
          simp only [hmake, htarget] at hopen
          obtain rfl := Except.error.inj hopen
          simp only [stub, hargs, hread, hmake, write_of_target_error htarget, Outcome.refused,
            contents_of_makeFolders hmake, and_self]

variable {console} in
/-- A run on a skeleton that cannot be written fails. It leaves all contents as they were exactly if its
output cannot be opened or held already what is written before the fault. In an output that is opened
that text replaces what was there, and no other file changes. -/
theorem stub_keeps_iff {f : Fault} (hargs : Arguments.parseStub argv = .ok args)
    (hread : readJson fs args.input = .ok data)
    (hfault : (Stub.run console data).result = .error f) :
    (stub console fs argv).failure ≠ none ∧
    ((∀ k, contentAt? k (stub console fs argv).files.contents = contentAt? k fs.contents) ↔
      ∀ made l, fs.opened args.output = .ok (made, l) →
        contentAt? l fs.contents = some (Stub.fileText (Stub.run console data).log)) ∧
    ∀ made l, fs.opened args.output = .ok (made, l) →
      (stub console fs argv).failure = some (.data f) ∧
      contentAt? l (stub console fs argv).files.contents =
        some (Stub.fileText (Stub.run console data).log) ∧
      ∀ k, k ≠ l → contentAt? k (stub console fs argv).files.contents = contentAt? k fs.contents := by
  cases hopen : fs.opened args.output with
  | error g =>
      obtain ⟨hfailure, hcontents⟩ := stub_of_not_opened console hargs hread hopen
      refine ⟨?_, ⟨fun _ made l h => ?_, fun _ k => ?_⟩, fun made l h => ?_⟩
      · rw [hfailure]
        exact Option.some_ne_none _
      · contradiction
      · rw [hcontents]
      · contradiction
  | ok opened =>
      obtain ⟨made, l⟩ := opened
      have hrun := stub_of_opened console hargs hread hopen
      simp only [hfault] at hrun
      -- the place of the output is the only one whose content depends on the run
      have hself : contentAt? l (stub console fs argv).files.contents =
          some (Stub.fileText (Stub.run console data).log) := by
        rw [hrun, contentAt?_putContent, if_pos rfl]
      have hother : ∀ k, k ≠ l →
          contentAt? k (stub console fs argv).files.contents = contentAt? k fs.contents := by
        intro k hk
        rw [hrun, contentAt?_putContent, if_neg (Ne.symm hk)]
      have hfailure : (stub console fs argv).failure = some (.data f) := by rw [hrun]
      refine ⟨?_, ⟨?_, ?_⟩, ?_⟩
      · rw [hfailure]
        exact Option.some_ne_none _
      · rintro hkeeps made' l' hsame
        obtain ⟨-, rfl⟩ := Prod.mk.inj (Except.ok.inj hsame)
        rw [← hkeeps l, hself]
      · intro hheld k
        by_cases hk : k = l
        · rw [hk, hself, hheld made l rfl]
        · exact hother k hk
      · rintro made' l' hsame
        obtain ⟨-, rfl⟩ := Prod.mk.inj (Except.ok.inj hsame)
        exact ⟨hfailure, hself, hother⟩

end Stub

/-! ## A module inside a module -/

/-- A skeleton that cannot be written, and an earlier stub file. -/
def earlierStub : Files where
  contents :=
    [([lit "in.json"],
      lit "\x7b\"type\": \"module\", \"name\": \"M\", \"members\": [\x7b\"name\": \"N\", \"type\": \"module\"\x7d]\x7d"),
     ([lit "out", lit "M.py"], lit "old\n")]
  folders := [[], [lit "out"]]

/-- The skeleton in the files. -/
def nestedModule : Json :=
  .object [(lit "type", .str (lit "module")), (lit "name", .str (lit "M")),
    (lit "members", .list [.object [(lit "name", .str (lit "N")), (lit "type", .str (lit "module"))]])]

/-- The arguments that name the two files. -/
def earlierArguments : List Text := [lit "in.json", lit "out/M.py"]

theorem parseStub_earlierArguments :
    Arguments.parseStub earlierArguments = .ok ⟨lit "in.json", lit "out/M.py"⟩ :=
  rfl

theorem readJson_earlierStub : readJson earlierStub (lit "in.json") = .ok nestedModule :=
  except_eq_ok_of_toOption (by decide +kernel)

/-- The head is written, and the empty line before the first member. -/
theorem run_nestedModule :
    Stub.run .any nestedModule =
      ⟨[.write (lit "\"\"\"\nM\n\n\n\"\"\"\n"), .write (lit "\n")],
        .error (.violated .isNoModule)⟩ :=
  rfl

theorem opened_earlierStub :
    earlierStub.opened (lit "out/M.py") = .ok (earlierStub, [lit "out", lit "M.py"]) :=
  rfl

/-- The earlier stub file is lost. -/
theorem stub_keeps_iff_earlierStub :
    Arguments.parseStub earlierArguments = .ok ⟨lit "in.json", lit "out/M.py"⟩ ∧
    readJson earlierStub (lit "in.json") = .ok nestedModule ∧
    (Stub.run .any nestedModule).result = .error (.violated .isNoModule) ∧
    ¬ ∀ k, contentAt? k (stub .any earlierStub earlierArguments).files.contents =
      contentAt? k earlierStub.contents := by
  have hfault : (Stub.run .any nestedModule).result = .error (.violated .isNoModule) := by
    rw [run_nestedModule]
  refine ⟨parseStub_earlierArguments, readJson_earlierStub, hfault, ?_⟩
  rw [(stub_keeps_iff parseStub_earlierArguments readJson_earlierStub hfault).2.1]
  intro hheld
  have hsame := hheld _ _ opened_earlierStub
  rw [run_nestedModule] at hsame
  exact absurd hsame (by decide +kernel)

/-- The output held the text of an earlier run; after the failed run it holds the start of a new one. -/
theorem stub_earlierStub :
    earlierStub.content? (lit "out/M.py") = some (lit "old\n") ∧
    (stub .any earlierStub earlierArguments).failure = some (.data (.violated .isNoModule)) ∧
    (stub .any earlierStub earlierArguments).files.content? (lit "out/M.py") =
      some (lit "\"\"\"\nM\n\n\n\"\"\"\n\n") := by
  rw [stub_of_opened .any parseStub_earlierArguments readJson_earlierStub opened_earlierStub,
    run_nestedModule]
  refine ⟨?_, rfl, ?_⟩ <;> decide +kernel

end Command

end ModuleStubs
