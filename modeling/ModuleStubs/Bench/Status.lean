import ModuleStubs.Bench.Coverage

/-!
# Verdicts on benchmarks

A row of the self-check gives a verdict: `Status.ofRow` names the first fault that
the row shows. The rows are read from JSON, where any field may be missing.
-/

set_option autoImplicit false

namespace ModuleStubs

/-- A verdict. -/
inductive Status where
  | error | returnsNone | unstable | returnsInput | lowRepositoryTime | tooFast
  | unparametrised | paramInvariant | fine | repositoryModified
deriving DecidableEq

namespace Status

/-- The word for a verdict. -/
def name : Status → Text
  | .error => lit "error"
  | .returnsNone => lit "returns-none"
  | .unstable => lit "unstable"
  | .returnsInput => lit "returns-input"
  | .lowRepositoryTime => lit "low-repo-time"
  | .tooFast => lit "too-fast"
  | .unparametrised => lit "ok-unparam"
  | .paramInvariant => lit "param-invariant"
  | .fine => lit "ok"
  | .repositoryModified => lit "repo-modified"

/-- The verdicts that need no repair. -/
def passes : Status → Bool
  | .fine | .unparametrised => true
  | _ => false

/-- The values of an object, or the items of a list. -/
def valuesOf : Option Json → List Json
  | some (.object fields) => fields.map Prod.snd
  | some (.list items) => items
  | _ => []

/-- The numbers of a field. -/
def numbers (row : Json) (key : Text) : List Binary64 :=
  (valuesOf (row.field? key)).map Json.asNumber

/-- The least of numbers, if there are any. -/
def least? : List Binary64 → Option Binary64
  | [] => none
  | x :: xs => some (xs.foldl (fun m y => if y.lt m then y else m) x)

/-- The middle number, or the mean of the two in the middle. -/
def median? (xs : List Binary64) : Option Binary64 :=
  let sorted := xs.mergeSort fun a b => !b.lt a
  let half := sorted.length / 2
  if sorted.length % 2 = 1 then sorted[half]?
  else match sorted[half - 1]?, sorted[half]? with
    | some a, some b => some ((a.add b).div (Binary64.ofInt 2))
    | _, _ => none

/-- The type in a row, if it has one. -/
def returnType? (row : Json) : Option Text := (row.field? (lit "ret_type")).bind Json.str?

/-- The first fault that a row shows. -/
def ofRow (row : Json) : Status :=
  let prints := (valuesOf (row.field? (lit "fp_stable"))).eraseDups
  let byParam := valuesOf (row.field? (lit "fp_by_param"))
  match returnType? row with
  | none => .error
  | some type =>
    if type.isEmpty || type.startsWith (lit "<") then .error
    else if type = lit "NoneType" then .returnsNone
    else match prints with
      | [p] =>
        if (valuesOf (row.field? (lit "param_fps"))).contains p then .returnsInput
        else if (least? (numbers row (lit "repo_frac"))).any
            (·.lt (Binary64.ofRatio false 1 2)) then .lowRepositoryTime
        else if (median? (numbers row (lit "repo_tt_ms"))).any
            (·.lt (Binary64.ofInt 1)) then .tooFast
        else if byParam.length < 2 then .unparametrised
        else if byParam.eraseDups.length = 1 then .paramInvariant
        else .fine
      | _ => .unstable

end Status

end ModuleStubs
