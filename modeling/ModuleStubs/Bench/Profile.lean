import ModuleStubs.Bench.Suite
import ModuleStubs.Files
import ModuleStubs.Json.Writer

/-!
# Where the time of a benchmark goes

A profile gives the time spent in each file. `Profile.share` is the part of it that
belongs to the repository, in percent, and `Profile.hot` the two names outside it
that take the most.
-/

set_option autoImplicit false

namespace ModuleStubs

/-- The time spent in each file. -/
abbrev Profile := List (Text × Binary64)

namespace Profile

/-- The time of all entries, added in order. -/
def total (p : Profile) : Binary64 := p.foldl (fun t e => t.add e.2) (Binary64.zero false)

/-- The time of the entries that pass a test. -/
def totalOf (test : Text → Bool) (p : Profile) : Binary64 := total (p.filter fun e => test e.1)

/-- The n-th of profiles that come round again. -/
def cyclic (profiles : List Profile) (n : Nat) : Profile := profiles.getD (n % profiles.length) []

/-- The parts of a path without empty parts, with `.` and `..` resolved. -/
def resolved (path : Text) : List Text :=
  ((Files.parts path).foldl (fun stack part =>
    if part.isEmpty || part == lit "." then stack
    else if part == lit ".." then stack.drop 1
    else part :: stack) []).reverse

/-- Folders of code that is not the repository's own. -/
def foreignFolders : List Text :=
  [lit "vendor", lit "build", lit "_vendor", lit "third_party", lit "site-packages"]

/-- The parts of a path inside a repository belong to its own code. -/
def ownParts (parts : List Text) : Bool :=
  match parts.getLast? with
  | none => false
  | some name =>
    name != lit "microbench.py" && !name.startsWith (lit "_pti_") &&
      !parts.dropLast.any foreignFolders.contains

/-- The folder of the repository. -/
def repository : Text := lit "/repo"

/-- The parts of a file's path below the repository, if it is there. -/
def below? (path : Text) : Option (List Text) :=
  if path.startsWith (lit "/") then
    match resolved path with
    | root :: parts => if root = repository.drop 1 && !parts.isEmpty then some parts else none
    | [] => none
  else none

/-- A file of the repository's own code. -/
def isOwn (path : Text) : Bool := (below? path).any ownParts

/-- The name under which time outside the repository is reported. -/
def outsideName (path : Text) : Text :=
  if path = lit "~" then lit "builtins"
  else if path.startsWith (lit "<") then path
  else if below? path = some [lit "microbench.py"] then lit "<run() body>"
  else
    let name := Text.lastPiece '/' path
    match Text.cutLast '.' name with
    | some (stem, _) => if stem.isEmpty then name else stem
    | none => name

/-- A part of a total in percent, to one place. -/
def percent (part whole : Binary64) : Binary64 :=
  if whole.isZero then Binary64.zero false
  else (((Binary64.ofInt 100).mul part).div whole).round 1

/-- The percentage of the time in the repository's own code. -/
def share (p : Profile) : Binary64 := percent (p.totalOf isOwn) p.total

/-- The time outside the repository by name. -/
def outside (p : Profile) : Record Binary64 :=
  (p.filter fun e => !isOwn e.1).foldl (fun r e =>
    let name := outsideName e.1
    Record.set name (((Record.get? name r).getD (Binary64.zero false)).add e.2) r) []

/-- The two names outside the repository that take the most time. -/
def hot (p : Profile) : List (Binary64 × Text) :=
  if p.total.isZero then []
  else (((outside p).mergeSort fun a b => !a.2.lt b.2).take 2).map fun (name, t) =>
    (percent t p.total, name)

end Profile

namespace RepositoryTime

/-- The two columns of one benchmark. A profile is used up only by a call that succeeds. -/
def rows (profiles : List Profile) : Nat → List Bench →
    List (Text × Binary64 × List (Binary64 × Text))
  | _, [] => []
  | used, b :: bs =>
    match b.call 0 [] with
    | .error r =>
      (b.name, Binary64.ofInt (-1), [(Binary64.zero false, r.tag)]) :: rows profiles used bs
    | .ok _ =>
      let p := Profile.cyclic profiles used
      (b.name, p.share, p.hot) :: rows profiles (used + 1) bs

/-- The report on the benchmarks of a suite. -/
def report (profiles : List Profile) (benches : List Bench) : Json :=
  let rs := rows profiles 0 benches
  .object
    [(lit "repo_time_pct", .object (rs.map fun (name, pct, _) => (name, .float pct))),
     (lit "hot_ext", .object (rs.map fun (name, _, hot) =>
       (name, .list (hot.map fun (t, n) => .list [.float t, .str n]))))]

/-- The report when there is no suite. -/
def missing : Json := .object [(lit "_import_error", .str missingSuite.summary)]

end RepositoryTime

end ModuleStubs
