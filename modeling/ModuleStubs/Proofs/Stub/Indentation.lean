import Mathlib.Tactic.Choose
import ModuleStubs.Proofs.Stub.Bodies
import ModuleStubs.Proofs.Stub.Shown
import ModuleStubs.Proofs.Text.Lines

/-!
# Stubs under an indent

What is written for a node consists of lines, and each of them starts with the indent. The writer is a run with
its indent left open, and such a run is uniform if it is a script of lines and warnings in which the indent
stands before every line and nowhere else (`IsUniform`). All runs of the writer are uniform for nodes whose
texts have no line feeds in them: the forms of text are, each node is without its members
(`isUniform_writeSelf`), and each node is with them (`isUniform_writeNode`). So a node is written under a longer
indent as the lines that are written under a shorter one, with what is missing put before each of them, the
warnings and the outcome being the same (`writeNode_indented`).
-/

set_option autoImplicit false

namespace ModuleStubs

/-- Renaming what is logged does not change how computations follow one another. -/
theorem Trace.mapLog_bind {μ ν ε α β : Type} (g : μ → ν) (x : Trace μ ε α) (f : α → Trace μ ε β) :
    (x >>= f).mapLog g = x.mapLog g >>= fun a => (f a).mapLog g := by
  obtain ⟨log, result⟩ := x
  cases result with
  | error e => rfl
  | ok a => simp [mapLog]

namespace Text

/-- The text has no line feed in it. -/
def Unbroken (t : Text) : Prop := CodePoint.ofChar '\n' ∉ t

instance decidableUnbroken (t : Text) : Decidable t.Unbroken := inferInstanceAs (Decidable (¬_))

theorem unbroken_append {t u : Text} : (t ++ u).Unbroken ↔ t.Unbroken ∧ u.Unbroken := by
  rw [Unbroken, List.mem_append, not_or]
  rfl

theorem unbroken_iff {t : Text} : t.Unbroken ↔ ∀ c ∈ t, c ≠ CodePoint.ofChar '\n' :=
  ⟨fun h _ hc heq => h (heq ▸ hc), fun h hmem => h _ hmem rfl⟩

theorem unbroken_join {sep : Text} (hsep : sep.Unbroken) {ts : List Text} (hts : ∀ t ∈ ts, t.Unbroken) :
    (join sep ts).Unbroken :=
  unbroken_iff.2 (forall_mem_join (unbroken_iff.1 hsep) fun t ht => unbroken_iff.1 (hts t ht))

/-- Lines that are pushed in are the lines of the text that they make up, each pushed in. -/
theorem ofLines_map_append {ls : List Text} (hls : ∀ l ∈ ls, l.Unbroken) (a : Text) :
    ofLines .lineFeed (ls.map (a ++ ·)) = concat ((lines (ofLines .lineFeed ls)).map (a ++ ·)) := by
  have hlines : lines (ofLines .lineFeed ls) = ls.map withFeed := by
    have h := lines_ofLines hls []
    rw [List.append_nil] at h
    exact h.trans (List.append_nil _)
  rw [hlines, ofLines_lineFeed, List.map_map, List.map_map]
  refine congrArg concat (List.map_congr_left fun l _ => ?_)
  exact List.append_assoc a l _

end Text

namespace Stub

/-! ## Runs with an open indent -/

/-- An entry of a log with the indent left open: lines, or a warning. -/
inductive Cue where
  | lines (ls : List Text)
  | warn (text : Text)

namespace Cue

/-- The entry under an indent. -/
def under (indent : Text) : Cue → Emission
  | .lines ls => .write (Text.ofLines .lineFeed (ls.map (indent ++ ·)))
  | .warn t => .warn t

/-- The lines of the entry. -/
def body : Cue → List Text
  | .lines ls => ls
  | .warn _ => []

/-- The entry with each line pushed in. -/
def pushed (indent : Text) : Cue → Cue
  | .lines ls => .lines (ls.map (indent ++ ·))
  | .warn t => .warn t

/-- The lines are lines. -/
def IsSound (cue : Cue) : Prop := ∀ l ∈ cue.body, l.Unbroken

theorem under_append (indent more : Text) (cue : Cue) :
    cue.under (indent ++ more) = (cue.pushed more).under indent := by
  cases cue with
  | lines ls => simp [under, pushed, Function.comp_def]
  | warn t => rfl

theorem IsSound.pushed {cue : Cue} (h : cue.IsSound) {more : Text} (hmore : more.Unbroken) :
    (cue.pushed more).IsSound := by
  cases cue with
  | lines ls =>
      intro l hl
      obtain ⟨m, hm, rfl⟩ := List.mem_map.1 hl
      exact Text.unbroken_append.2 ⟨hmore, h m hm⟩
  | warn t => exact h

end Cue

/-- The run does the same under every indent: it writes the same lines, each behind the indent, it gives the
same warnings, and it ends in the same way. -/
def IsUniform {α : Type} (run : Text → Writing α) : Prop :=
  ∃ script : Trace Cue Fault α, (∀ cue ∈ script.log, cue.IsSound) ∧
    ∀ indent, run indent = script.mapLog (Cue.under indent)

section Uniform

variable {α β : Type}

/-- A run that leaves nothing. -/
theorem isUniform_quiet (r : Except Fault α) : IsUniform fun _ => (⟨[], r⟩ : Writing α) :=
  ⟨⟨[], r⟩, by simp, fun _ => rfl⟩

theorem isUniform_warn (t : Text) : IsUniform fun _ => (Trace.say (.warn t) : Writing Unit) :=
  ⟨⟨[.warn t], .ok ()⟩, by simp [Cue.IsSound, Cue.body], fun _ => rfl⟩

theorem isUniform_lines (ls : List Text) (hls : ∀ l ∈ ls, l.Unbroken) {form : Text → Text}
    (hform : ∀ indent, form indent = Text.ofLines .lineFeed (ls.map (indent ++ ·))) :
    IsUniform fun indent => write (form indent) := by
  refine ⟨⟨[.lines ls], .ok ()⟩, by simpa [Cue.IsSound, Cue.body] using hls, ?_⟩
  intro indent
  dsimp only
  rw [hform]
  rfl

/-- A form of text that is one line. -/
theorem isUniform_line {l : Text} (hl : l.Unbroken) {form : Text → Text}
    (hform : ∀ indent, form indent = indent ++ (l ++ lit "\n")) :
    IsUniform fun indent => write (form indent) := by
  refine isUniform_lines [l] (by simpa using hl) ?_
  intro indent
  rw [hform]
  simp [Text.ofLines, LineEnd.text]

theorem IsUniform.bind {run : Text → Writing α} {next : Text → α → Writing β} (hrun : IsUniform run)
    (hnext : ∀ a, IsUniform fun indent => next indent a) :
    IsUniform fun indent => run indent >>= next indent := by
  obtain ⟨script, hsound, heq⟩ := hrun
  choose later hlater hnext using hnext
  refine ⟨script >>= later, Trace.forall_mem_log_bind hsound hlater, ?_⟩
  intro indent
  rw [Trace.mapLog_bind, ← heq]
  exact bind_congr fun a => hnext a indent

/-- A uniform run is uniform below a further indent. -/
theorem IsUniform.deeper {run : Text → Writing α} (h : IsUniform run) {more : Text}
    (hmore : more.Unbroken) : IsUniform fun indent => run (indent ++ more) := by
  obtain ⟨script, hsound, heq⟩ := h
  refine ⟨script.mapLog (Cue.pushed more), ?_, ?_⟩
  · intro cue hcue
    obtain ⟨cue, hmem, rfl⟩ := List.mem_map.1 hcue
    exact (hsound cue hmem).pushed hmore
  · intro indent
    have hunder : Cue.under (indent ++ more) = Cue.under indent ∘ Cue.pushed more :=
      funext (Cue.under_append indent more)
    dsimp only
    rw [heq, hunder, Trace.mapLog, Trace.mapLog, Trace.mapLog, List.map_map]

end Uniform

/-! ## What a node is written with -/

/-- The texts of a node are lines: those of its name, type, doc and value, and of its signature. -/
def IsFlat (node : Json) : Prop := ∀ x ∈ shownValues node, x.display.Unbroken

instance decidableIsFlat (node : Json) : Decidable (IsFlat node) :=
  inferInstanceAs (Decidable (∀ x ∈ shownValues node, x.display.Unbroken))

theorem IsFlat.field {fields : Record Json} (h : IsFlat (.object fields)) {key : Text} {v : Json}
    (hv : Record.get? key fields = some v)
    (hkey : key ∈ [lit "name", lit "type", lit "doc", lit "value"]) : v.display.Unbroken :=
  h v (List.mem_append_left _ (List.mem_filterMap.2 ⟨key, hkey, hv⟩))

/-- The parameters and the type comment of a flat node are lines. -/
theorem unbroken_of_readHead {fields : Record Json} {isMethod : Bool} {parameters : List Text}
    {comment : Option Comment} (h : readHead isMethod fields = .ok (parameters, comment))
    (hflat : IsFlat (.object fields)) :
    (∀ p ∈ parameters, p.Unbroken) ∧
      ∀ c, comment = some c → (∀ t ∈ c.types, t.Unbroken) ∧ c.returned.Unbroken :=
  shown_of_readHead (by decide) h hflat

/-! ## Forms of text -/

theorem isUniform_passLine : IsUniform fun indent => write (passLine indent) :=
  isUniform_line (l := lit "\tpass") (by decide) fun indent => by simp [passLine, lit]

theorem isUniform_docLine {doc : Json} (hdoc : doc.display.Unbroken) :
    IsUniform fun indent => write (docLine indent doc) := by
  refine isUniform_line (l := lit "\t\"\"\" " ++ doc.display ++ lit " \"\"\"") ?_ ?_
  · simp only [Text.unbroken_append]
    exact ⟨⟨by decide, hdoc⟩, by decide⟩
  · intro indent
    simp [docLine, lit]

theorem isUniform_containerHeader (isType : Bool) {name : Json} (hname : name.display.Unbroken) :
    IsUniform fun indent => write (if isType then typeHeader indent name else classHeader indent name) := by
  cases isType with
  | false =>
      refine isUniform_line (l := lit "class " ++ name.display ++ lit "( object ) :") ?_ ?_
      · simp only [Text.unbroken_append]
        exact ⟨⟨by decide, hname⟩, by decide⟩
      · intro indent
        simp [classHeader, lit]
  | true =>
      refine isUniform_line (l := lit "class " ++ name.display ++ lit " :") ?_ ?_
      · simp only [Text.unbroken_append]
        exact ⟨⟨by decide, hname⟩, by decide⟩
      · intro indent
        simp [typeHeader, lit]

theorem isUniform_functionHeader {name : Json} (hname : name.display.Unbroken) {parameters : List Text}
    (hparameters : ∀ p ∈ parameters, p.Unbroken) :
    IsUniform fun indent => write (functionHeader indent name parameters) := by
  refine isUniform_line
    (l := lit "def " ++ name.display ++ lit "( " ++ Text.join (lit ", ") parameters ++ lit " ) :") ?_ ?_
  · simp only [Text.unbroken_append]
    exact ⟨⟨⟨⟨by decide, hname⟩, by decide⟩, Text.unbroken_join (by decide) hparameters⟩, by decide⟩
  · intro indent
    simp [functionHeader, lit]

theorem isUniform_typeComment {types : List Text} (htypes : ∀ t ∈ types, t.Unbroken) {returned : Text}
    (hreturned : returned.Unbroken) :
    IsUniform fun indent => write (typeComment indent types returned) := by
  refine isUniform_line
    (l := lit "\t# type: (" ++ Text.join (lit ", ") types ++ lit ") -> " ++ returned) ?_ ?_
  · simp only [Text.unbroken_append]
    exact ⟨⟨⟨by decide, Text.unbroken_join (by decide) htypes⟩, by decide⟩, hreturned⟩
  · intro indent
    simp [typeComment, lit]

theorem isUniform_constantLine {name value type : Json} (hname : name.display.Unbroken)
    (hvalue : value.display.Unbroken) (htype : type.display.Unbroken) :
    IsUniform fun indent => write (constantLine indent name value type) := by
  refine isUniform_line
    (l := name.display ++ lit " = " ++ value.display ++ lit " # type: " ++ type.display) ?_ ?_
  · simp only [Text.unbroken_append]
    exact ⟨⟨⟨⟨hname, by decide⟩, hvalue⟩, by decide⟩, htype⟩
  · intro indent
    simp [constantLine, lit]

/-- The lines of a property. -/
def propertyBody (name : Text) : List Text :=
  [lit "@property", lit "def " ++ name ++ lit "( self ) :", lit "\t# type: () -> Any", lit "\tpass",
    lit "@" ++ name ++ lit ".setter", lit "def " ++ name ++ lit "( self, value ) :",
    lit "\t# type: (Any) -> None", lit "\tpass"]

theorem isUniform_propertyLines {name : Json} (hname : name.display.Unbroken) :
    IsUniform fun indent => write (propertyLines indent name) := by
  refine isUniform_lines (propertyBody name.display) ?_ ?_
  · have hnamed : ∀ s t : String, (lit s).Unbroken → (lit t).Unbroken →
        (lit s ++ name.display ++ lit t).Unbroken := fun s t hs ht =>
      Text.unbroken_append.2 ⟨Text.unbroken_append.2 ⟨hs, hname⟩, ht⟩
    simp only [propertyBody, List.forall_mem_cons]
    exact ⟨by decide, hnamed _ _ (by decide) (by decide), by decide, by decide,
      hnamed _ _ (by decide) (by decide), hnamed _ _ (by decide) (by decide), by decide, by decide,
      List.forall_mem_nil _⟩
  · intro indent
    delta propertyLines
    simp [propertyBody, Text.ofLines, LineEnd.text, lit]

/-! ## Nodes without their members -/

theorem isUniform_writeContainer {type name : Json} {fields : Record Json}
    (hflat : IsFlat (.object fields)) (hname : name.display.Unbroken) :
    IsUniform fun indent => writeContainer indent type name fields := by
  refine (isUniform_containerHeader (type.isStr (lit "type")) hname).bind fun _ => ?_
  refine IsUniform.bind ?_ fun documented => (isUniform_quiet (memberNodes fields)).bind fun nodes => ?_
  · cases hdoc : Record.get? (lit "doc") fields with
    | none =>
        simp only [writeDoc, hdoc]
        exact isUniform_quiet _
    | some doc =>
        simp only [writeDoc, hdoc]
        exact (isUniform_docLine (hflat.field hdoc (by decide))).bind fun _ => isUniform_quiet _
  · split
    · exact isUniform_passLine
    · exact isUniform_quiet _

/-- What a function ends with. -/
theorem isUniform_functionBody {fields : Record Json} (hflat : IsFlat (.object fields)) :
    IsUniform fun indent =>
      match Record.get? (lit "doc") fields with
      | some doc => write (if doc.truthy then docLine indent doc else passLine indent)
      | none => write (passLine indent) := by
  cases hdoc : Record.get? (lit "doc") fields with
  | none => exact isUniform_passLine
  | some doc =>
      cases htrue : doc.truthy with
      | false => simpa [htrue] using isUniform_passLine
      | true => simpa [htrue] using isUniform_docLine (hflat.field hdoc (by decide))

theorem isUniform_writeFunction {isMethod : Bool} {name : Json} {fields : Record Json}
    (hflat : IsFlat (.object fields)) (hname : name.display.Unbroken) :
    IsUniform fun indent => writeFunction indent isMethod name fields := by
  cases hhead : readHead isMethod fields with
  | error e =>
      simp only [writeFunction, hhead, Trace.liftM_error_bind]
      exact isUniform_quiet _
  | ok head =>
      obtain ⟨parameters, comment⟩ := head
      obtain ⟨hparameters, hcomment⟩ := unbroken_of_readHead hhead hflat
      simp only [writeFunction, hhead, Trace.liftM_ok, pure_bind]
      refine (isUniform_functionHeader hname hparameters).bind fun _ => ?_
      cases comment with
      | none => exact isUniform_functionBody hflat
      | some c =>
          obtain ⟨htypes, hreturned⟩ := hcomment c rfl
          exact (isUniform_typeComment htypes hreturned).bind fun _ => isUniform_functionBody hflat

theorem isUniform_writeOther {path : Text} {name type : Json} {fields : Record Json}
    (hflat : IsFlat (.object fields)) (hname : name.display.Unbroken) (htype : type.display.Unbroken) :
    IsUniform fun indent => writeOther indent path name type fields := by
  cases hvalue : Record.get? (lit "value") fields with
  | some value =>
      simp only [writeOther, hvalue]
      exact isUniform_constantLine hname (hflat.field hvalue (by decide)) htype
  | none =>
      simp only [writeOther, hvalue]
      split
      · exact isUniform_propertyLines hname
      · split
        · exact isUniform_quiet _
        · exact isUniform_warn _

/-- A flat node without its members. -/
theorem isUniform_writeSelf {node : Json} (hflat : IsFlat node) (path : Text) :
    IsUniform fun indent => writeSelf indent path node := by
  cases node with
  | object fields =>
      cases htype : Record.get? (lit "type") fields with
      | none =>
          simp only [writeSelf_untyped htype]
          exact isUniform_quiet _
      | some type =>
          cases hname : Record.get? (lit "name") fields with
          | none =>
              simp only [writeSelf_unnamed htype hname]
              split
              · exact isUniform_quiet _
              · exact isUniform_quiet _
          | some name =>
              have hn : name.display.Unbroken := hflat.field hname (by decide)
              simp only [writeSelf_of_fields htype hname]
              split
              · exact isUniform_quiet _
              split
              · exact isUniform_writeContainer hflat hn
              split
              · exact isUniform_writeFunction hflat hn
              split
              · exact isUniform_writeFunction hflat hn
              · exact isUniform_writeOther hflat hn (hflat.field htype (by decide))
  | _ => exact isUniform_quiet _

/-! ## Nodes with their members -/

/-- The list companion of `isUniform_writeNode`. -/
theorem isUniform_writeNodes {nodes : List Json}
    (h : ∀ node ∈ nodes, ∀ path, IsUniform fun indent => writeNode indent path node) (path : Text) :
    IsUniform fun indent => writeNodes indent path nodes := by
  induction nodes with
  | nil => exact isUniform_quiet _
  | cons node nodes ih =>
      simp only [writeNodes]
      refine (h node List.mem_cons_self path).bind fun _ => ?_
      exact ih fun n hn => h n (List.mem_cons_of_mem node hn)

/-- A node that is flat, with all nodes below it. The visits say which nodes these are, whatever their
labels. -/
theorem isUniform_writeNode {address : List Nat} {indent path : Text} {node : Json}
    (hflat : ∀ v ∈ visits address indent path node, IsFlat v.node) (path' : Text) :
    IsUniform fun indent' => writeNode indent' path' node := by
  cases node with
  | object fields =>
      rw [visits_object, List.forall_mem_cons] at hflat
      obtain ⟨hself, hbelow⟩ := hflat
      simp only [writeNode_object]
      refine (isUniform_writeSelf hself path').bind fun _ => ?_
      cases hname : containerName? fields with
      | none => exact isUniform_quiet _
      | some name =>
          rw [hname] at hbelow
          refine (isUniform_writeNodes ?_ _).deeper (by decide)
          intro n hn path''
          -- the members are smaller than the node, and their visits are among its visits
          cases hm : memberNodes fields with
          | error e =>
              rw [hm] at hn
              contradiction
          | ok nodes =>
              rw [hm] at hn hbelow
              have := size_lt_of_mem_memberNodes hm hn
              obtain ⟨i, hi⟩ := List.getElem?_of_mem hn
              exact isUniform_writeNode
                (fun v hv => hbelow v (mem_listVisits_iff.2 ⟨i, n, hi, hv⟩)) path''
  | _ => exact isUniform_quiet _
termination_by node.size

/-! ## Lines of a file -/

/-- What a script leaves in a file under an indent: its lines, each behind the indent. -/
theorem fileText_map_under (indent : Text) (log : List Cue) :
    fileText (log.map (Cue.under indent)) =
      Text.ofLines .lineFeed ((log.flatMap Cue.body).map (indent ++ ·)) := by
  induction log with
  | nil => rfl
  | cons cue log ih =>
      rw [List.map_cons, List.flatMap_cons, List.map_append, Text.ofLines, List.flatMap_append,
        ← Text.ofLines, ← Text.ofLines, ← ih]
      cases cue with
      | lines ls => rfl
      | warn t => rfl

theorem warnings_map_under (indent indent' : Text) (log : List Cue) :
    warnings (log.map (Cue.under indent)) = warnings (log.map (Cue.under indent')) := by
  induction log with
  | nil => rfl
  | cons cue log ih =>
      cases cue with
      | lines ls => exact ih
      | warn t => exact congrArg (t :: ·) ih

/-- **A longer indent pushes every line in.** Let the texts of a node and of all nodes below it have no line
feeds. Under the indent `a ++ b` the writer ends as it does under `b`, it gives the same warnings, and it writes
the same lines with `a` put before each of them. These are the lines of the text if `b` has no line feed. -/
theorem writeNode_indented {path : Text} {node : Json}
    (hflat : ∀ v ∈ visits [] [] path node, IsFlat v.node) (a b : Text) :
    (writeNode (a ++ b) path node).result = (writeNode b path node).result ∧
    warnings (writeNode (a ++ b) path node).log = warnings (writeNode b path node).log ∧
    (∃ ls : List Text, (∀ l ∈ ls, l.Unbroken) ∧
      fileText (writeNode b path node).log = Text.ofLines .lineFeed (ls.map (b ++ ·)) ∧
      fileText (writeNode (a ++ b) path node).log =
        Text.ofLines .lineFeed ((ls.map (b ++ ·)).map (a ++ ·))) ∧
    (b.Unbroken → fileText (writeNode (a ++ b) path node).log =
      Text.concat ((Text.lines (fileText (writeNode b path node).log)).map (a ++ ·))) := by
  obtain ⟨script, hsound, hrun⟩ := isUniform_writeNode hflat path
  dsimp only at hrun
  have hlines : ∀ indent, fileText (writeNode indent path node).log =
      Text.ofLines .lineFeed ((script.log.flatMap Cue.body).map (indent ++ ·)) := by
    intro indent
    rw [hrun]
    exact fileText_map_under indent script.log
  have hunbroken : ∀ l ∈ script.log.flatMap Cue.body, l.Unbroken := by
    intro l hl
    obtain ⟨cue, hcue, hl⟩ := List.mem_flatMap.1 hl
    exact hsound cue hcue l hl
  have hdeeper : fileText (writeNode (a ++ b) path node).log =
      Text.ofLines .lineFeed (((script.log.flatMap Cue.body).map (b ++ ·)).map (a ++ ·)) := by
    simp [hlines, Function.comp_def]
  refine ⟨?_, ?_, ⟨_, hunbroken, hlines b, hdeeper⟩, ?_⟩
  · rw [hrun, hrun]
    rfl
  · rw [hrun, hrun]
    exact warnings_map_under (a ++ b) b script.log
  · intro hb
    rw [hdeeper, hlines]
    refine Text.ofLines_map_append (fun l hl => ?_) a
    obtain ⟨m, hm, rfl⟩ := List.mem_map.1 hl
    exact Text.unbroken_append.2 ⟨hb, hunbroken m hm⟩

/-- A class with a doc, and in it a property, a method with a signature, an unknown node and a type with a
constant. -/
def layeredClass : Json :=
  .object [(lit "name", .str (lit "Outer")), (lit "type", .str (lit "class")), (lit "doc", .str (lit "outer")),
    (lit "members", .list
      [.object [(lit "name", .str (lit "size")), (lit "type", .str (lit "property"))],
       .object [(lit "name", .str (lit "move")), (lit "type", .str (lit "instancemethod")),
        (lit "signature", .object [(lit "return-type", .str (lit "int")), (lit "args", .list
          [.object [(lit "name", .str (lit "plot")), (lit "type", .str (lit "CyPlot"))]])])],
       .object [(lit "name", .str (lit "odd")), (lit "type", .str (lit "ellipsis"))],
       .object [(lit "name", .str (lit "Inner")), (lit "type", .str (lit "type")), (lit "members", .list
        [.object [(lit "name", .str (lit "NO_UNIT")), (lit "type", .str (lit "int")),
          (lit "value", .int (-1))]])]])]

theorem writeNode_indented_layered :
    fileText (writeNode (lit "  " ++ tab) (lit "M") layeredClass).log =
      lit "  \tclass Outer( object ) :\n  \t\t\"\"\" outer \"\"\"\n" ++
      lit "  \t\t@property\n  \t\tdef size( self ) :\n  \t\t\t# type: () -> Any\n  \t\t\tpass\n" ++
      lit "  \t\t@size.setter\n  \t\tdef size( self, value ) :\n  \t\t\t# type: (Any) -> None\n  \t\t\tpass\n" ++
      lit "  \t\tdef move( self, plot ) :\n  \t\t\t# type: (CyPlot) -> int\n  \t\t\tpass\n" ++
      lit "  \t\tclass Inner :\n  \t\t\tNO_UNIT = -1 # type: int\n" ∧
    warnings (writeNode (lit "  " ++ tab) (lit "M") layeredClass).log =
      [lit "WARNING: Ignored M.Outer.odd of type ellipsis"] := by
  have hflat : ∀ v ∈ visits [] [] (lit "M") layeredClass, IsFlat v.node := by decide +kernel
  obtain ⟨-, hwarnings, -, hlines⟩ := writeNode_indented hflat (lit "  ") tab
  rw [hlines (by decide), hwarnings]
  constructor
  · decide +kernel
  · decide +kernel

end Stub

end ModuleStubs
