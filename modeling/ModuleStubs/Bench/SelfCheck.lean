import ModuleStubs.Bench.Profile

/-!
# Self-checks of benchmarks

For every benchmark: the type and the fingerprints of its results, over two calls
without keywords and one call for each set of parameters, and where the time of
those calls went. Files are named relative to the repository here.
-/

set_option autoImplicit false

namespace ModuleStubs

namespace BenchCheck

/-- What is known of a benchmark. -/
structure Row where
  returnType : Text
  stable : List Text := []
  byParam : Record Text := []
  ownMilliseconds : Record Binary64 := []
  ownPart : Record Binary64 := []
  outsidePart : Record Binary64 := []
  paramPrints : List Text := []

/-- A file of the repository's own code. -/
def isOwn (path : Text) : Bool :=
  !path.startsWith (lit "/") && !path.startsWith (lit "<") && path != lit "~" &&
    Profile.ownParts (Profile.resolved path)

/-- Compiled code outside the repository. -/
def isCompiled (path : Text) : Bool :=
  path == lit "~" || (path.startsWith (lit "/") &&
    (path.endsWith (lit ".so") || path.endsWith (lit ".pyd")))

/-- A part of a total, to three places. -/
def part (x whole : Binary64) : Binary64 :=
  if whole.isZero then Binary64.zero false else (x.div whole).round 3

/-- A row with the times of one more profiled call. -/
def Row.timed (row : Row) (key : Text) (p : Profile) : Row :=
  let own := p.totalOf isOwn
  { row with
    ownMilliseconds := Record.set key ((own.mul (Binary64.ofInt 1000)).round 3) row.ownMilliseconds
    ownPart := Record.set key (part own p.total) row.ownPart
    outsidePart := Record.set key (part (p.totalOf isCompiled) p.total) row.outsidePart }

/-- The name of a set of parameters. -/
def paramKey (keywords : Record Json) : Text :=
  if keywords.isEmpty then lit "-"
  else Text.join (lit ",") (keywords.map fun (k, v) => k ++ lit "=" ++ v.display)

/-- The fingerprint of a result, by a walk. -/
def print (walk : Walk) (v : Result) : Except Raised Text :=
  (walk.fingerprint v).mapError .ofUnencodable

/-- The fingerprints of all parameter values, sorted, each once. -/
def paramPrints (walk : Walk) (params : List (Record Json)) : Except Raised (List Text) := do
  let prints ← (params.flatMap fun ks => ks).mapM fun (_, v) => print walk (.ofJson v)
  return Text.sort prints.eraseDups

/-- The result of a call and its fingerprint. -/
def printedCall (walk : Walk) (b : Bench) (earlier : Nat) (keywords : Record Json) :
    Except Raised (Result × Text) := do
  let v ← b.call earlier keywords
  return (v, ← print walk v)

/-- The calls with parameters, after `earlier` calls and as many used profiles. -/
def withParams (walk : Walk) (b : Bench) (profiles : List Profile) (used : Nat) :
    Nat → List (Record Json) → Row → Row
  | _, [], row => row
  | done, ks :: rest, row =>
    match printedCall walk b (done + 2) ks with
    | .error r => { row with returnType := r.tag }
    | .ok (_, fingerprint) =>
      let key := paramKey ks
      let row := { row with byParam := Record.set key fingerprint row.byParam }
      withParams walk b profiles used (done + 1) rest
        (row.timed key (Profile.cyclic profiles (used + done)))

/-- The row of the two calls of a benchmark without keywords. -/
def firstRow (walk : Walk) (b : Bench) : Except Raised Row := do
  let (v, first) ← printedCall walk b 0 []
  let (_, second) ← printedCall walk b 1 []
  return { returnType := v.typeName
           stable := [first, second]
           paramPrints := ← paramPrints walk b.params }

/-- The row of a benchmark, and the number of profiles used after it. -/
def row (walk : Walk) (profiles : List Profile) (used : Nat) (b : Bench) : Row × Nat :=
  match firstRow walk b with
  | .ok first =>
    let timed := first.timed (lit "<default>") (Profile.cyclic profiles used)
    (withParams walk b profiles (used + 1) 0 b.params timed, used + 1 + b.params.length)
  | .error r => ({ returnType := r.tag }, used)

/-- The row of a benchmark that is only called once. -/
def plainRow (walk : Walk) (b : Bench) : Row :=
  match printedCall walk b 0 [] with
  | .ok (v, fingerprint) => { returnType := v.typeName, stable := [fingerprint] }
  | .error r => { returnType := r.tag }

/-- The rows of a suite. -/
def rows (walk : Walk) (profiles : List Profile) : Nat → List Bench → List (Text × Row)
  | _, [] => []
  | used, b :: bs =>
    let (r, used) := row walk profiles used b
    (b.name, r) :: rows walk profiles used bs

/-- A row as JSON. -/
def Row.toJson (r : Row) : Json :=
  let floats (xs : Record Binary64) : Json := .object (xs.map fun (k, x) => (k, .float x))
  .object
    [(lit "ret_type", .str r.returnType),
     (lit "fp_stable", .list (r.stable.map .str)),
     (lit "fp_by_param", .object (r.byParam.map fun (k, t) => (k, .str t))),
     (lit "repo_tt_ms", floats r.ownMilliseconds),
     (lit "repo_frac", floats r.ownPart),
     (lit "ext_frac", floats r.outsidePart),
     (lit "param_fps", .list (r.paramPrints.map .str))]

/-- The report on the benchmarks of a suite, with profiled calls or with plain ones. -/
def report (walk : Walk) (plain : Bool) (profiles : List Profile) (benches : List Bench) : Json :=
  let rs :=
    if plain then benches.map fun b => (b.name, plainRow walk b) else rows walk profiles 0 benches
  .object [(lit "semcheck", .object (rs.map fun (name, r) => (name, r.toJson)))]

end BenchCheck

end ModuleStubs
