import ModuleStubs.Extract.Retrieval
import ModuleStubs.Proofs.Command.Opening
import ModuleStubs.Proofs.Json.Documents
import ModuleStubs.Proofs.Wire.ChunkLines

/-!
# A report survives the log

A value that was written to a log, each chunk on a line of its own between the marker lines, is
retrieved from it as a file of standard JSON that denotes the value (`readJson_run`). Three parts agree
on this: chunks are tokens, so that none of them is broken or taken for a marker; the lines between the
markers are copied and no others (`copied_report`); and line feeds between tokens mean nothing to the
reader of the file.
-/

set_option autoImplicit false

namespace ModuleStubs

theorem Text.head?_strip_cons {c : CodePoint} (hc : isBlank c = false) (t : Text) :
    (Text.strip (c :: t)).head? = some c := by
  have hstart : Text.stripStart (c :: t) = c :: t := Text.stripStart_eq_self (by simpa using hc)
  obtain ⟨s, hs⟩ := Text.stripEnd_isPrefix (c :: t)
  rw [Text.strip, hstart]
  cases hend : Text.stripEnd (c :: t) with
  | cons d r =>
      rw [hend, List.cons_append] at hs
      rw [List.head?_cons, (List.cons.inj hs).1]
  | nil =>
      -- only blanks are removed at the end, and the first code point is none
      rw [Text.stripEnd, List.reverse_eq_nil_iff, List.reverse_cons, List.dropWhile_append] at hend
      split at hend
      · simp [hc] at hend
      · simp at hend

namespace Retrieval

/-! ## Marker lines -/

/-- The line starts or ends a report, up to blanks around it. -/
def IsMarker (l : Text) : Prop := Text.strip l = startLine ∨ Text.strip l = endLine

instance decidableIsMarker (l : Text) : Decidable (IsMarker l) := inferInstanceAs (Decidable (_ ∨ _))

theorem isMarker_withFeed {l : Text} : IsMarker (Text.withFeed l) ↔ IsMarker l := by
  rw [IsMarker, IsMarker, Text.withFeed, Text.strip_append_of_isBlank (by decide)]

/-- The markers start with a capital letter, and no token does. -/
theorem not_isMarker_of_isToken {l : Text} (h : l.IsToken) : ¬ IsMarker l := by
  cases l with
  | nil => exact h.elim
  | cons c t =>
      obtain ⟨hblank, hcapital, -⟩ := h
      have hhead := Text.head?_strip_cons hblank t
      have hne : c ≠ 'T' := by
        rintro rfl
        exact absurd hcapital (by decide)
      rintro (hstart | hend)
      · rw [hstart] at hhead
        exact hne (Option.some.inj hhead).symm
      · rw [hend] at hhead
        exact hne (Option.some.inj hhead).symm

/-! ## Copying -/

/-- Lines that are no markers are all copied or all left out. -/
theorem copied_append {ls : List Text} (hls : ∀ l ∈ ls, ¬ IsMarker l) (copying : Bool)
    (rest : List Text) :
    copied copying (ls ++ rest) = (if copying then ls else []) ++ copied copying rest := by
  induction ls with
  | nil => cases copying <;> rfl
  | cons l ls ih =>
      obtain ⟨hstart, hend⟩ := not_or.1 (hls l List.mem_cons_self)
      have hrest := ih fun m hm => hls m (List.mem_cons_of_mem l hm)
      rw [List.cons_append, copied, if_neg hstart, if_neg hend, hrest]
      cases copying <;> rfl

theorem copied_start {l : Text} (hl : Text.strip l = startLine) (copying : Bool) (ls : List Text) :
    copied copying (l :: ls) = copied true ls := by
  rw [copied, if_pos hl]

theorem copied_end {l : Text} (hl : Text.strip l = endLine) (copying : Bool) (ls : List Text) :
    copied copying (l :: ls) = copied false ls := by
  have hstart : Text.strip l ≠ startLine := by
    rw [hl]
    decide +kernel
  rw [copied, if_neg hstart, if_pos hl]

/-- The lines between the markers are copied, and no others. -/
theorem copied_report {before report after : List Text} {s e : Text}
    (hbefore : ∀ l ∈ before, ¬ IsMarker l) (hs : Text.strip s = startLine)
    (hreport : ∀ l ∈ report, ¬ IsMarker l) (he : Text.strip e = endLine)
    (hafter : ∀ l ∈ after, ¬ IsMarker l) :
    copied false (before ++ s :: (report ++ e :: after)) = report := by
  have hlast := copied_append hafter false []
  rw [List.append_nil] at hlast
  rw [copied_append hbefore, copied_start hs, copied_append hreport, copied_end he, hlast]
  exact List.append_nil report

/-! ## Logs -/

/-- What stands around a report in a log: lines before it and behind it, and a last piece without line
end. None of them is a marker. -/
structure Surroundings where
  lineEnd : LineEnd
  before : List Text
  after : List Text
  tail : Text
  isPlain : ∀ l ∈ before ++ (after ++ [tail]), l.IsLine ∧ ¬ IsMarker l

/-- The log with the lines of a report between the markers. -/
def Surroundings.log (s : Surroundings) (report : List Text) : Text :=
  Text.ofLines s.lineEnd (s.before ++ startLine :: (report ++ endLine :: s.after)) ++ s.tail

/-- The lines of a log, as they are read. -/
theorem Surroundings.lines_log (s : Surroundings) {report : List Text}
    (hreport : ∀ l ∈ report, l.IsLine) :
    Text.lines (Text.unifyLineEnds (s.log report)) =
      s.before.map Text.withFeed ++ Text.withFeed startLine :: (report.map Text.withFeed ++
        Text.withFeed endLine :: (s.after.map Text.withFeed ++ Text.lines s.tail)) := by
  have hplain := s.isPlain
  simp only [List.forall_mem_append, List.forall_mem_singleton] at hplain
  obtain ⟨hbefore, hafter, htail⟩ := hplain
  have hlines : ∀ l ∈ s.before ++ startLine :: (report ++ endLine :: s.after), l.IsLine := by
    simp only [List.forall_mem_append, List.forall_mem_cons]
    exact ⟨fun l hl => (hbefore l hl).1, by decide, hreport, by decide, fun l hl => (hafter l hl).1⟩
  rw [Surroundings.log, Text.lines_unifyLineEnds s.lineEnd hlines htail.1]
  simp

/-- The copy of a log is its report, with line feeds. -/
theorem Surroundings.copy_log (s : Surroundings) {report : List Text}
    (hreport : ∀ l ∈ report, l.IsLine ∧ ¬ IsMarker l) :
    copy (Text.unifyLineEnds (s.log report)) = Text.ofLines .lineFeed report := by
  have hplain := s.isPlain
  simp only [List.forall_mem_append, List.forall_mem_singleton] at hplain
  obtain ⟨hbefore, hafter, htail⟩ := hplain
  have hfeed : ∀ {ls : List Text}, (∀ l ∈ ls, l.IsLine ∧ ¬ IsMarker l) →
      ∀ l ∈ ls.map Text.withFeed, ¬ IsMarker l := by
    intro ls hls l hl
    obtain ⟨m, hm, rfl⟩ := List.mem_map.1 hl
    exact mt isMarker_withFeed.1 (hls m hm).2
  have hlast : ∀ l ∈ s.after.map Text.withFeed ++ Text.lines s.tail, ¬ IsMarker l := by
    refine List.forall_mem_append.2 ⟨hfeed hafter, ?_⟩
    intro l hl
    rw [Text.mem_lines_of_isLine htail.1 hl]
    exact htail.2
  rw [copy, s.lines_log fun l hl => (hreport l hl).1,
    copied_report (hfeed hbefore) (by decide) (hfeed hreport) (by decide) hlast]
  exact (Text.ofLines_lineFeed report).symm

theorem Surroundings.hasStart_log (s : Surroundings) {report : List Text}
    (hreport : ∀ l ∈ report, l.IsLine) :
    hasStart (Text.lines (Text.unifyLineEnds (s.log report))) = true := by
  have hmem : Text.withFeed startLine ∈ Text.lines (Text.unifyLineEnds (s.log report)) := by
    rw [s.lines_log hreport]
    exact List.mem_append_right _ List.mem_cons_self
  exact List.any_eq_true.2 ⟨_, hmem, by decide⟩

/-- The copy can be written if there is no folder in its place. -/
theorem target_copyPath {fs : Files} (h : fs.isFolder [copyPath] = false) :
    fs.target copyPath = .ok [copyPath] := by
  change (if fs.isFolder [copyPath] = true then _ else Except.ok [copyPath]) = _
  rw [h]
  rfl

/-- Retrieval finds the report and writes its copy. -/
theorem run_log (s : Surroundings) {report : List Text}
    (hreport : ∀ l ∈ report, l.IsLine ∧ ¬ IsMarker l) (hscalar : ∀ l ∈ report, l.isScalar = true)
    {fs : Files} {home : Text}
    (hlog : fs.content? (home ++ lit "/" ++ logPath) = some (s.log report))
    (hfree : fs.isFolder [copyPath] = false) :
    ∃ fs', run fs home = (fs', []) ∧
      fs'.content? copyPath = some (Text.ofLines .lineFeed report) := by
  have hread := Files.read_of_content? hlog
  have hstart := s.hasStart_log fun l hl => (hreport l hl).1
  have hcopy : (copy (Text.unifyLineEnds (s.log report))).isScalar = true := by
    rw [s.copy_log hreport]
    refine Text.isScalar_iff.2 fun c hc => ?_
    obtain ⟨l, hl, hc⟩ := List.mem_flatMap.1 hc
    rcases List.mem_append.1 hc with hc | hc
    · exact Text.isScalar_iff.1 (hscalar l hl) c hc
    · exact Text.isScalar_iff.1 (Text.isScalar_lit "\n") c hc
  obtain ⟨fs', hwrite⟩ : ∃ fs', fs.write copyPath (copy (Text.unifyLineEnds (s.log report))) =
      .ok fs' := ⟨_, Files.write_of_target (target_copyPath hfree) hcopy⟩
  refine ⟨fs', ?_, ?_⟩
  · simp only [run, hread, hwrite, hstart, if_true]
  · rw [← s.copy_log hreport]
    exact Files.content?_write hwrite

/-! ## Values -/

/-- The chunks of a value on lines of their own are a file that denotes the value. -/
theorem readJson_ofLines {v : Json} (hv : v.isBasic CodePoint.isWholeUnit = true) {fs : Files}
    {path : Text} (h : fs.content? path = some (Text.ofLines .lineFeed v.chunks)) :
    Command.readJson fs path = .ok v := by
  have hgap : Grammar.Gap .standard LineEnd.lineFeed.text :=
    List.forall_mem_singleton.2 (by decide)
  have hparse : Json.parse (Text.ofLines .lineFeed v.chunks) = .ok v :=
    Json.parse_of_document (Json.document_chunks hgap hv)
  have hlines : ∀ c ∈ v.chunks, c.IsLine := fun c hc => (Json.isToken_of_mem_chunks v hv c hc).isLine
  have hunify := Text.unifyLineEnds_ofLines .lineFeed hlines (by decide : Text.IsLine [])
  rw [List.append_nil] at hunify
  simp only [Command.readJson, Files.read_of_content? h, hunify, hparse]

/-- **A report survives the log.** A value of null, truth values, integers, texts of code points up to
U+FFFF that are no halves of surrogate pairs, lists, and objects with distinct keys is written in
chunks, none of which is broken by a line end or taken for a marker. If a log has each of them on a line
of its own between the markers, whatever else is in the log, retrieval leaves a file which is read as
the value. -/
theorem readJson_run {v : Json} (hv : v.isBasic CodePoint.isWholeUnit = true) :
    ∃ chunks, (Wire.Datum.ofJson v).chunks {} = ⟨chunks, .ok []⟩ ∧
      (∀ c ∈ chunks, c.IsLine ∧ ¬ IsMarker c) ∧
      ∀ (s : Surroundings) (fs : Files) (home : Text),
        fs.content? (home ++ lit "/" ++ logPath) = some (s.log chunks) →
        fs.isFolder [copyPath] = false →
        ∃ fs', run fs home = (fs', []) ∧ Command.readJson fs' copyPath = .ok v := by
  have hlines : ∀ c ∈ v.chunks, c.IsLine ∧ ¬ IsMarker c := by
    intro c hc
    have htoken := Json.isToken_of_mem_chunks v hv c hc
    exact ⟨htoken.isLine, not_isMarker_of_isToken htoken⟩
  refine ⟨v.chunks, Wire.writeValue_ofJson rfl v _ [] hv (Nat.le_succ _), hlines, ?_⟩
  intro s fs home hlog hfree
  have hscalar : ∀ c ∈ v.chunks, c.isScalar = true := fun c hc => Text.isScalar_iff.2 fun d hd =>
    ((Json.isToken_of_mem_chunks v hv c hc).isPrintable d hd).not_isSurrogate
  obtain ⟨fs', hrun, hcopy⟩ := run_log s hlines hscalar hlog hfree
  exact ⟨fs', hrun, readJson_ofLines hv hcopy⟩

/-- A value whose texts look like markers and hold line ends, blanks and code points beyond ASCII. -/
def markersAsTexts : Json :=
  .object [(startLine, .list [.list [], .object [], .null, .bool true, .int (-70)]),
    ([], .str (lit "\n" ++ endLine ++ lit "\r\n")),
    (lit "\"\\/",
      .object [(lit "b", .bool false), ([CodePoint.ofNat 0x2028], .str [CodePoint.ofNat 0xFFFF])])]

/-- Lines that are nearly markers, an empty one, and a last one without end. -/
def nearlyMarkers : Surroundings where
  lineEnd := .both
  before := [lit "Tree for CvPythonExtensions", [], lit "\t" ++ startLine ++ lit "."]
  after := [lit "END", lit "Tree for CvPythonExtensions  END"]
  tail := lit "PY:"
  isPlain := by decide +kernel

/-- The log below the home folder `u`. -/
def homeWithLog (log : Text) : Files where
  contents := [([lit "u", lit "Documents", lit "My Games", lit "Beyond the Sword", lit "Logs",
    lit "PythonDbg.log"], log)]
  folders := [[], [lit "u"], [lit "u", lit "Documents"], [lit "u", lit "Documents", lit "My Games"],
    [lit "u", lit "Documents", lit "My Games", lit "Beyond the Sword"],
    [lit "u", lit "Documents", lit "My Games", lit "Beyond the Sword", lit "Logs"]]

theorem readJson_run_markersAsTexts :
    markersAsTexts.isBasic CodePoint.isWholeUnit = true ∧
      ∃ chunks, (Wire.Datum.ofJson markersAsTexts).chunks {} = ⟨chunks, .ok []⟩ ∧
        ∃ fs', run (homeWithLog (nearlyMarkers.log chunks)) (lit "u") = (fs', []) ∧
          Command.readJson fs' copyPath = .ok markersAsTexts := by
  have hbasic : markersAsTexts.isBasic CodePoint.isWholeUnit = true := by decide
  obtain ⟨chunks, hchunks, -, hrun⟩ := readJson_run hbasic
  have hlog : (homeWithLog (nearlyMarkers.log chunks)).content? (lit "u" ++ lit "/" ++ logPath) =
      some (nearlyMarkers.log chunks) := rfl
  exact ⟨hbasic, chunks, hchunks, hrun nearlyMarkers _ _ hlog rfl⟩

end Retrieval

end ModuleStubs
