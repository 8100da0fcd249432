import ModuleStubs.Bench.Suite
import ModuleStubs.Number.Layout

/-!
# Running a suite under coverage

Every benchmark is called once while the lines are counted. The coverage report
then gets the number of benchmarks and the errors under `meta`.
-/

set_option autoImplicit false

namespace ModuleStubs

/-- A number as a binary fraction. Anything else counts as nought. -/
def Json.asNumber : Json → Binary64
  | .int n => Binary64.ofInt n
  | .float x => x
  | _ => Binary64.zero false

/-- The value at a path of keys. -/
def Json.at? (v : Json) (path : List Text) : Option Json :=
  path.foldl (fun v key => v.bind (Json.field? key)) (some v)

namespace Coverage

/-- What is asked of the line counter. -/
inductive Request where
  | create (leftOut : Json)
  | start
  | stop
  | report

/-- The requests of one run, in order. -/
def requests (leftOut : Json) : List Request := [.create leftOut, .start, .stop, .report]

/-- The requests of a run that finds no suite: the counting has begun by then. -/
def requestsWithoutSuite (leftOut : Json) : List Request := [.create leftOut, .start]

/-- The errors of the benchmarks, by name. -/
def errors (benches : List Bench) : Record Json :=
  benches.filterMap fun b =>
    match b.call 0 [] with
    | .ok _ => none
    | .error r => some (b.name, .str r.summary)

/-- The fields of an object. Other values have none. -/
def fieldsOf : Json → Record Json
  | .object fields => fields
  | _ => []

/-- The report with what is known of the benchmarks. -/
def annotated (benches : List Bench) (report : Json) : Json :=
  let known := fieldsOf ((report.field? (lit "meta")).getD (.object []))
  let full := Record.set (lit "_pti_n_benches") (.int benches.length)
    (Record.set (lit "_pti_bench_errors") (.object (errors benches)) known)
  .object (Record.set (lit "meta") (.object full) (fieldsOf report))

/-- A number under `totals`, nought if it is missing. -/
def total (report : Json) (key : Text) : Json :=
  (report.at? [lit "totals", key]).getD (.int 0)

/-- The line that sums up a run. -/
def summary (benches : List Bench) (report : Json) : Text :=
  lit "coverage: " ++ (total report (lit "percent_covered")).asNumber.fixed 1 ++ lit "% (" ++
    (total report (lit "covered_lines")).display ++ lit "/" ++
    (total report (lit "num_statements")).display ++ lit " stmts, " ++
    decimal benches.length ++ lit " benches, " ++ decimal (errors benches).length ++ lit " errors)"

end Coverage

end ModuleStubs
