import ModuleStubs.Bench.Profile
import ModuleStubs.Bench.Status
import ModuleStubs.Json.Reader
import ModuleStubs.Text.Blank
import ModuleStubs.Text.Column
import ModuleStubs.Text.Lines
import ModuleStubs.Text.Word

/-!
# A round of measuring

A round runs the coverage, the repository time and the self-check, prints what they
found, and adds a line to the list of rounds. `Round.run` is the round as a function
of what the three runs and the version control gave. A run that cannot be used is
left out of the report and named among the complaints.
-/

set_option autoImplicit false

namespace ModuleStubs

/-- What a finished run left. -/
structure Finished where
  exit : Int := 0
  output : Text := []
  complaints : Text := []
deriving Inhabited

/-- A run: finished, or broken off. -/
abbrev Attempt := Except Raised Finished

namespace Round

/-- All that a round looks at. -/
structure Setting where
  started : Binary64
  stopped : Binary64
  now : Binary64
  suite : Option Text
  history : Option Text
  coverage : Attempt
  coverageReport : Option Json
  /-- Absent if there is no such tool. -/
  repositoryTime : Option Attempt
  selfCheck : Option Attempt
  changes : Attempt

/-- How a round ends. -/
inductive End where
  | done
  | exit (code : Int)
  | raised (r : Raised)

/-- What a round prints and leaves. -/
structure Output where
  printed : Text
  complaints : Text
  history : Option Text
  ending : End

/-! ## What the runs found -/

/-- The number of benchmarks that a text defines at the start of its lines. -/
def definitionsFrom : Bool → Text → Nat
  | _, [] => 0
  | atStart, c :: t =>
    let here := atStart && match Text.afterPrefix? (lit "def bench_") (c :: t) with
      | some rest =>
        !(rest.takeWhile Text.isWordPoint).isEmpty &&
          ((rest.dropWhile Text.isWordPoint).dropWhile isBlank).head? == some (CodePoint.ofChar '(')
      | none => false
    (if here then 1 else 0) + definitionsFrom (c == CodePoint.ofChar '\n') t

/-- The last line of an output that is not blank at its ends. -/
def lastLine (output : Text) : Text := Text.lastPiece '\n' (Text.strip output)

/-- The object in the last line of a run, what the run complained about, and why it
cannot be used. -/
def found (tool : Text) : Option Attempt → Json × Text
  | none => (.null, [])
  | some (.error r) => (.null, lit "[" ++ tool ++ lit " runner: " ++ r.summary ++ lit "]\n")
  | some (.ok f) =>
    if Text.allBlank f.output then (.null, f.complaints)
    else match Json.parse (lastLine f.output) with
      | .ok v => (v, f.complaints)
      | .error e =>
        (.null, f.complaints ++ lit "[" ++ tool ++ lit " runner: JSONDecodeError: " ++ e.message ++
          lit "]\n")

/-- The changed files of the repository. Those of the measuring itself do not count. -/
def changedFiles : Attempt → List Text
  | .error _ => []
  | .ok f =>
    ((Text.splitOn '\n' f.output).filter fun l => !Text.allBlank l).filterMap fun l =>
      let path := l.drop 3
      if path = lit "microbench.py" || path.startsWith (lit "_pti_") || path.startsWith (lit ".pti_")
      then none else some path

/-! ## The table of files -/

/-- The widest name that is shown. -/
def widest : Nat := 60

/-- A path relative to the repository. -/
def relative (path : Text) : Text :=
  if path.startsWith (lit "/") then
    match Profile.resolved path with
    | root :: parts =>
      if root = Profile.repository.drop 1 then Text.join (lit "/") parts
      else Text.join (lit "/") (lit ".." :: root :: parts)
    | [] => lit ".."
  else Text.join (lit "/") (Profile.resolved path)

/-- A line of the table of files. -/
structure FileLine where
  name : Text
  statements : Json
  missed : Json
  covered : Binary64
  missing : List Json

/-- The line of a file. -/
def fileLine (path : Text) (v : Json) : FileLine :=
  let summary (key : Text) : Json := (v.at? [lit "summary", key]).getD (.int 0)
  { name := relative path
    statements := summary (lit "num_statements")
    missed := summary (lit "missing_lines")
    covered := (summary (lit "percent_covered")).asNumber
    missing := Status.valuesOf (v.field? (lit "missing_lines")) }

/-- The lines of a report: the least covered first, then by name. -/
def fileLines (report : Json) : List FileLine :=
  ((Coverage.fieldsOf ((report.field? (lit "files")).getD .null)).map fun (k, v) =>
    fileLine k v).mergeSort fun a b =>
      a.covered.lt b.covered || (!b.covered.lt a.covered && Text.le a.name b.name)

/-- Name, two counts and a percentage in their columns. -/
def columns (width : Nat) (name : Text) (statements missed : Text) (covered : Binary64) : Text :=
  Text.atLeft width name ++ lit "  " ++ Text.atRight 5 statements ++ lit "  " ++
    Text.atRight 4 missed ++ lit "  " ++ Text.atRight 4 (covered.fixed 0) ++ lit "%"

/-- The first twelve missing lines. -/
def missingText (missing : List Json) : Text :=
  Text.join (lit ",") ((missing.take 12).map Json.display) ++
    (if 12 < missing.length then lit "…" else [])

/-- The number under a key of the totals. -/
def wholeTotal (report : Json) (key : Text) : Int :=
  match Coverage.total report key with
  | .int n => n
  | _ => 0

/-- The percentage that is covered. -/
def coveredTotal (report : Json) : Json :=
  (report.at? [lit "totals", lit "percent_covered"]).getD (.float (Binary64.zero false))

/-- The table of files. -/
def table (report : Json) : List Text :=
  let files := fileLines report
  let width := min widest ((files.map fun f => f.name.length).foldl max 4)
  let rule : Text := List.replicate (width + 42) '-'
  let statements := wholeTotal report (lit "num_statements")
  let missed := statements - wholeTotal report (lit "covered_lines")
  [Text.atLeft width (lit "Name") ++ lit "  Stmts  Miss  Cover  Missing", rule] ++
    (files.map fun f =>
      columns width (f.name.take widest) f.statements.display f.missed.display f.covered ++
        lit "  " ++ missingText f.missing) ++
    [rule, columns width (lit "TOTAL") (decimalInt statements) (decimalInt missed)
      (coveredTotal report).asNumber]

/-! ## The other sections -/

/-- The errors of the benchmarks. -/
def errorsOf (report : Json) : Record Json :=
  Coverage.fieldsOf ((report.at? [lit "meta", lit "_pti_bench_errors"]).getD .null)

/-- The section of errors. -/
def errorSection (errors : Record Json) : List Text :=
  if errors.isEmpty then []
  else [[], decimal errors.length ++ lit " bench error(s):"] ++
    (errors.take 8).map fun (name, e) => lit "  " ++ name ++ lit ": " ++ e.display

/-- The least percentage that is not below. -/
def enough : Binary64 := Binary64.ofInt 45

/-- A percentage that is known and below. -/
def isBelow (p : Binary64) : Bool := !p.belowZero && p.lt enough

/-- A mark for lines that ask for something. -/
def markOf (marked : Bool) : Text := if marked then lit "  * " else lit "    "

/-- The names outside the repository that take the most, in brackets. -/
def hotText (hot : List Json) : Text :=
  if hot.isEmpty then []
  else lit " (hot: " ++ Text.join (lit " ") (hot.filterMap fun h =>
    match h with
    | .list [t, name] => some (name.display ++ lit " " ++ t.asNumber.fixed 0 ++ lit "%")
    | _ => none) ++ lit ")"

/-- The line of one benchmark's repository time. -/
def shareLine (hot : Json) (name : Text) (p : Binary64) : Text :=
  let shown := if p.belowZero then Binary64.zero false else p
  markOf (isBelow p) ++ Text.atLeft 32 name ++ lit " " ++ Text.atRight 5 (shown.fixed 1) ++
    lit "%" ++ (if p.belowZero then lit "  <error>" else []) ++
    (if isBelow p then hotText (Status.valuesOf (hot.field? name)) else [])

/-- The section of repository times, the least first. -/
def shareSection (shares : Record Binary64) (hot : Json) : List Text :=
  if shares.isEmpty then []
  else [[], lit "repo_time (target 50%; * = below 45%):"] ++
    (shares.mergeSort fun a b => !b.2.lt a.2).map fun (name, p) => shareLine hot name p

/-- The section of changed files. -/
def changeSection (changed : List Text) : List Text :=
  if changed.isEmpty then []
  else [[], lit "** repo modified (" ++ decimal changed.length ++
      lit " file(s)) — revert these; only microbench.py is yours to edit:"] ++
    changed.map fun path => lit "   " ++ path

/-- What each verdict asks for. -/
def legend : List Text :=
  [lit "  returns-none: run() has no return — collect and return the call results",
   lit "  unstable: seed RNG in setup; avoid time/uuid/id in the return",
   lit "  returns-input: return repo output, not the parameter value",
   lit "  low-repo-time: <50% of run() time is in repo code — move glue to setup",
   lit "  param-invariant: return something derived from run()'s work, not setup",
   lit "  repo-modified: revert edits to repo files (git checkout -- <path>)"]

/-- A checked benchmark: name, verdict and row. -/
abbrev Checked := Text × Status × Json

/-- The checked benchmarks. After a change of the repository no verdict holds. -/
def checked (report : Json) (modified : Bool) : List Checked :=
  (Coverage.fieldsOf ((report.field? (lit "semcheck")).getD .null)).filterMap fun (name, row) =>
    match row with
    | .object _ => some (name, if modified then .repositoryModified else Status.ofRow row, row)
    | _ => none

/-- The line of a checked benchmark. -/
def checkLine : Checked → Text
  | (name, status, row) =>
    let least := (Status.least? (Status.numbers row (lit "repo_frac"))).getD (Binary64.zero false)
    let middle := (Status.median? (Status.numbers row (lit "repo_tt_ms"))).getD (Binary64.zero false)
    markOf (!status.passes) ++ Text.atLeft 32 name ++ lit " " ++ Text.atLeft 16 status.name ++
      lit " (" ++ (Status.returnType? row).getD (lit "?") ++ lit ", repo " ++
      ((Binary64.ofInt 100).mul least).fixed 0 ++ lit "%) " ++ middle.fixed 1 ++ lit "ms"

/-- The section of verdicts, those that ask for something first. -/
def checkSection (cs : List Checked) : List Text :=
  if cs.isEmpty then []
  else [[], lit "self-check (* = fix needed):"] ++ legend ++
    ((cs.filter fun c => !c.2.1.passes) ++ cs.filter fun c => c.2.1.passes).map checkLine

/-! ## The list of rounds -/

/-- The lines of a history that are not blank. -/
def pastRounds (history : Option Text) : List Text :=
  (Text.splitOn '\n' (history.getD [])).filter fun l => !Text.allBlank l

/-- The seconds since the last round, if its line can be read. -/
def sinceLast? (now : Binary64) (past : List Text) : Option Binary64 :=
  match past.getLast? with
  | none => some (Binary64.zero false)
  | some line =>
    match Json.parse line with
    | .error _ => none
    | .ok v => some (((v.field? (lit "ts")).map fun t => (now.sub t.asNumber).round 2).getD
        (Binary64.zero false))

/-! ## A round -/

/-- What a round found. -/
structure Findings where
  number : Nat
  definitions : Nat
  errors : Record Json
  shares : Record Binary64
  checks : List Checked
  seconds : Binary64

/-- The number of benchmarks below. -/
def Findings.below (f : Findings) : Nat := (f.shares.filter fun e => isBelow e.2).length

/-- The number of verdicts that ask for something. -/
def Findings.failing (f : Findings) : Nat := (f.checks.filter fun c => !c.2.1.passes).length

/-- The line that sums up a round. -/
def Findings.summary (f : Findings) (report : Json) : Text :=
  lit "[round " ++ decimal f.number ++ lit ": " ++ decimal f.definitions ++ lit " benches, " ++
    (coveredTotal report).asNumber.fixed 1 ++ lit "% covered" ++
    (if f.shares.isEmpty then []
     else lit ", " ++ decimal f.below ++ lit "/" ++
       decimal (f.shares.filter fun e => !e.2.belowZero).length ++ lit " below repo_time 45%") ++
    (if f.checks.isEmpty then []
     else lit ", " ++ decimal f.failing ++ lit "/" ++ decimal f.checks.length ++
       lit " not self-checking") ++
    lit ", measured in " ++ f.seconds.fixed 1 ++ lit "s]"

/-- The line of a round in the list of rounds. -/
def Findings.entry (f : Findings) (report : Json) (now wall : Binary64) : Json :=
  .object
    [(lit "round", .int f.number), (lit "ts", .float now), (lit "wall_since_prev_s", .float wall),
     (lit "coverage_pct", coveredTotal report),
     (lit "covered_lines", Coverage.total report (lit "covered_lines")),
     (lit "num_statements", Coverage.total report (lit "num_statements")),
     (lit "n_bench_fns", .int f.definitions), (lit "n_bench_errors", .int f.errors.length),
     (lit "cov_measure_s", .float (f.seconds.round 3)),
     (lit "repo_time_pct", .object (f.shares.map fun (k, x) => (k, .float x))),
     (lit "n_below_repo_time", if f.shares.isEmpty then .null else .int f.below),
     (lit "semcheck", .object (f.checks.map fun (k, s, _) => (k, .str s.name))),
     (lit "n_not_self_checking", .int f.failing)]

/-- Lines, each with its end. -/
def ended (ls : List Text) : Text := ls.flatMap fun l => l ++ lit "\n"

/-- The rest of a round, after the coverage was counted. -/
def finish (s : Setting) (complaints : Text) (report : Json) : Output :=
  let (times, timeComplaints) := found (lit "repotime") s.repositoryTime
  let (check, checkComplaints) := found (lit "semcheck") s.selfCheck
  let changed := changedFiles s.changes
  let past := pastRounds s.history
  let f : Findings :=
    { number := past.length + 1
      definitions := definitionsFrom true (s.suite.getD [])
      errors := errorsOf report
      shares := (Coverage.fieldsOf ((times.field? (lit "repo_time_pct")).getD .null)).map
        fun (k, v) => (k, v.asNumber)
      checks := checked check !changed.isEmpty
      seconds := s.stopped.sub s.started }
  let stop :=
    if !f.shares.isEmpty && f.below == 0 then
      [[], lit ">>> STOP: repo_time converged (0 below). Finalize microbench.py now. <<<"]
    else []
  { printed := ended (table report ++ errorSection f.errors ++
      shareSection f.shares ((times.field? (lit "hot_ext")).getD .null) ++
      changeSection changed ++ checkSection f.checks ++ [[], f.summary report] ++ stop)
    complaints := complaints ++ timeComplaints ++ checkComplaints
    history := match sinceLast? s.now past with
      | some wall => some (s.history.getD [] ++ (f.entry report s.now wall).inline ++ lit "\n")
      | none => s.history
    ending := .done }

/-- A round of measuring. Without a coverage report there is nothing to measure. -/
def run (s : Setting) : Output :=
  match s.coverage with
  | .error r => ⟨[], [], s.history, .raised r⟩
  | .ok f =>
    match decide (f.exit = 0), s.coverageReport with
    | true, some report => finish s f.complaints report
    | _, _ =>
      ⟨lit "coverage measurement failed (exit " ++ decimalInt f.exit ++ lit ")\n" ++ f.output ++
        lit "\n", f.complaints, s.history, .exit (if f.exit = 0 then 1 else f.exit)⟩

end Round

end ModuleStubs
