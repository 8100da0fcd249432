import ModuleStubs.Bench.Round
import ModuleStubs.Bench.SelfCheck

/-!
# What the verdicts say about a benchmark

Three tools call the benchmarks of a suite: the coverage, the repository time and the self-check. A verdict
is read off the row that the self-check leaves. It is `error` exactly if some call or some fingerprint fails,
or the type of the result has no proper name (`verdict_eq_error_iff`), and `unstable` exactly if all went
well and two calls without keywords give different fingerprints (`verdict_eq_unstable_iff`). So what the
coverage counts as an error is one in the other two reports as well (`reported_of_mem_errors`).
-/

set_option autoImplicit false

namespace ModuleStubs

/-- A call fails only if the benchmark always does. -/
theorem Bench.call_eq_error_iff {b : Bench} {earlier : Nat} {keywords : Record Json} {r : Raised} :
    b.call earlier keywords = .error r ↔ b.behaviour = .raises r := by
  rw [Bench.call]
  cases b.behaviour <;> simp

/-! ## Verdicts on rows -/

namespace Status

/-- The name of a type that is not taken for the tag of an error. -/
def IsProper (type : Text) : Prop := (type.isEmpty || type.startsWith (lit "<")) = false

theorem not_isProper_tag (r : Raised) : ¬ IsProper r.tag := by
  have hstart : r.tag.startsWith (lit "<") = true := by
    simp [Raised.tag, Text.startsWith, lit]
  simp [IsProper, hstart]

section Rows

variable (r : BenchCheck.Row)

theorem ofRow_eq_error_iff : ofRow r.toJson = .error ↔ ¬ IsProper r.returnType := by
  have htype : returnType? r.toJson = some r.returnType := rfl
  rw [ofRow, htype, IsProper]
  dsimp only
  cases r.returnType.isEmpty || r.returnType.startsWith (lit "<") with
  | true => simp
  | false =>
      -- no other test gives this verdict
      simp only [Bool.false_eq_true, ↓reduceIte, not_true_eq_false, iff_false]
      repeat' split
      all_goals exact Status.noConfusion

/-- Two prints are one if they are equal. -/
theorem eraseDups_pair (p q : Text) :
    [Json.str p, Json.str q].eraseDups = if p = q then [.str p] else [.str p, .str q] := by
  rw [List.eraseDups_cons]
  by_cases h : p = q
  · simp [h]
  · have hne : (Json.str q == Json.str p) = false := by simp [Ne.symm h]
    simp [h, hne, List.eraseDups_cons]

theorem ofRow_eq_unstable_iff {p q : Text} (hstable : r.stable = [p, q]) :
    ofRow r.toJson = .unstable ↔
      IsProper r.returnType ∧ r.returnType ≠ lit "NoneType" ∧ p ≠ q := by
  have htype : returnType? r.toJson = some r.returnType := rfl
  have hprints : valuesOf (r.toJson.field? (lit "fp_stable")) = [.str p, .str q] := by
    change r.stable.map Json.str = _
    rw [hstable]
    rfl
  rw [ofRow, htype, hprints, eraseDups_pair, IsProper]
  dsimp only
  cases r.returnType.isEmpty || r.returnType.startsWith (lit "<") with
  | true => simp
  | false =>
      by_cases hnone : r.returnType = lit "NoneType"
      · simp [hnone]
      · by_cases heq : p = q
        · simp only [Bool.false_eq_true, ↓reduceIte, hnone, heq, ne_eq, not_true_eq_false, and_false,
            iff_false]
          -- a single print can only lead to one of the later verdicts
          repeat' split
          all_goals exact Status.noConfusion
        · simp [hnone, heq]

end Rows

end Status

/-! ## Calls and their fingerprints -/

namespace BenchCheck

section Calls

variable (walk : Walk) (b : Bench)

/-- All calls for these parameters give a result with a fingerprint, after `done` such calls. -/
def ParamsPrinted : Nat → List (Record Json) → Prop
  | _, [] => True
  | done, ks :: rest => (∃ p, printedCall walk b (done + 2) ks = .ok p) ∧ ParamsPrinted (done + 1) rest

/-- The calls of a benchmark all give results with fingerprints: `v` and `first` at the first call without keywords,
`second` at the second. -/
structure Printed (v : Result) (first second : Text) : Prop where
  first_call : printedCall walk b 0 [] = .ok (v, first)
  second_call : ∃ w, printedCall walk b 1 [] = .ok (w, second)
  param_values : ∃ prints, paramPrints walk b.params = .ok prints
  param_calls : ParamsPrinted walk b 0 b.params

variable {walk b}

theorem stable_timed (row : Row) (key : Text) (p : Profile) : (row.timed key p).stable = row.stable := rfl

theorem returnType_timed (row : Row) (key : Text) (p : Profile) :
    (row.timed key p).returnType = row.returnType := rfl

/-- The calls with parameters leave the two prints alone. -/
theorem stable_withParams (profiles : List Profile) (used : Nat) :
    ∀ (done : Nat) (params : List (Record Json)) (row : Row),
      (withParams walk b profiles used done params row).stable = row.stable
  | _, [], _ => rfl
  | done, ks :: rest, row => by
      rw [withParams]
      split
      · rfl
      · rw [stable_withParams profiles used (done + 1) rest, stable_timed]

/-- The type of a row stays as it is, unless a call with parameters fails. -/
theorem isProper_withParams (profiles : List Profile) (used : Nat) :
    ∀ (done : Nat) (params : List (Record Json)) (row : Row),
      Status.IsProper (withParams walk b profiles used done params row).returnType ↔
        ParamsPrinted walk b done params ∧ Status.IsProper row.returnType
  | _, [], _ => by simp [withParams, ParamsPrinted]
  | done, ks :: rest, row => by
      rw [withParams, ParamsPrinted]
      cases hcall : printedCall walk b (done + 2) ks with
      | error r => simpa using Status.not_isProper_tag r
      | ok p => 
          rw [isProper_withParams profiles used (done + 1) rest, returnType_timed]
          simp

theorem returnType_withParams (profiles : List Profile) (used : Nat) :
    ∀ (done : Nat) (params : List (Record Json)) (row : Row), ParamsPrinted walk b done params →
      (withParams walk b profiles used done params row).returnType = row.returnType
  | _, [], _, _ => rfl
  | done, ks :: rest, row, h => by
      obtain ⟨⟨p, hcall⟩, hrest⟩ := h
      rw [withParams, hcall]
      exact returnType_withParams profiles used (done + 1) rest _ hrest

theorem exists_of_firstRow {row : Row} (h : firstRow walk b = .ok row) :
    ∃ v w first second prints,
      printedCall walk b 0 [] = .ok (v, first) ∧ printedCall walk b 1 [] = .ok (w, second) ∧
        paramPrints walk b.params = .ok prints ∧ row.returnType = v.typeName := by
  simp only [firstRow, bind, Except.bind, pure, Except.pure] at h
  cases hfirst : printedCall walk b 0 [] with
  | error r => simp [hfirst] at h
  | ok p =>
      cases hsecond : printedCall walk b 1 [] with
      | error r => simp [hfirst, hsecond] at h
      | ok q =>
          cases hprints : paramPrints walk b.params with
          | error r => simp [hfirst, hsecond, hprints] at h
          | ok prints =>
              simp only [hfirst, hsecond, hprints, Except.ok.injEq] at h
              exact ⟨p.1, q.1, p.2, q.2, prints, rfl, rfl, rfl, by rw [← h]⟩

/-! ## Rows of benchmarks -/

section Row

variable (profiles : List Profile) (used : Nat)

theorem row_of_printed {v : Result} {first second : Text} (h : Printed walk b v first second) :
    (row walk profiles used b).1.returnType = v.typeName ∧
      (row walk profiles used b).1.stable = [first, second] := by
  obtain ⟨w, hsecond⟩ := h.second_call
  obtain ⟨prints, hprints⟩ := h.param_values
  have hfirst : firstRow walk b =
      .ok { returnType := v.typeName, stable := [first, second], paramPrints := prints } := by
    simp only [firstRow, h.first_call, hsecond, hprints]
    rfl
  rw [row, hfirst]
  exact ⟨returnType_withParams profiles _ 0 _ _ h.param_calls, stable_withParams profiles _ 0 _ _⟩

theorem isProper_row_iff :
    Status.IsProper (row walk profiles used b).1.returnType ↔
      ∃ v first second, Printed walk b v first second ∧ Status.IsProper v.typeName := by
  constructor
  · intro h
    rw [row] at h
    cases hfirst : firstRow walk b with
    | error r =>
        rw [hfirst] at h
        exact absurd h (Status.not_isProper_tag r)
    | ok row =>
        rw [hfirst] at h
        obtain ⟨hcalls, htype⟩ := (isProper_withParams profiles _ 0 _ _).1 h
        obtain ⟨v, w, first, second, prints, hv, hw, hprints, hrow⟩ := exists_of_firstRow hfirst
        rw [returnType_timed, hrow] at htype
        exact ⟨v, first, second, ⟨hv, ⟨w, hw⟩, ⟨prints, hprints⟩, hcalls⟩, htype⟩
  · rintro ⟨v, first, second, hprinted, htype⟩
    rwa [(row_of_printed profiles used hprinted).1]

variable (walk b)

/-- The verdict on a benchmark, with the profiles from `used` on. -/
def verdict : Status := Status.ofRow (row walk profiles used b).1.toJson

variable {walk b}

/-- The verdict is an error unless every call gives a result with a fingerprint and the first result is of a type
with a proper name. -/
theorem verdict_eq_error_iff :
    verdict walk b profiles used = .error ↔
      ¬ ∃ v first second, Printed walk b v first second ∧ Status.IsProper v.typeName := by
  rw [verdict, Status.ofRow_eq_error_iff, isProper_row_iff]

/-- A benchmark is unstable exactly if its calls give results other than none and the first two have different
fingerprints. -/
theorem verdict_eq_unstable_iff :
    verdict walk b profiles used = .unstable ↔
      ∃ v first second, Printed walk b v first second ∧ Status.IsProper v.typeName ∧
        v.typeName ≠ lit "NoneType" ∧ first ≠ second := by
  constructor
  · intro h
    have hproper : verdict walk b profiles used ≠ .error := by
      rw [h]
      exact Status.noConfusion
    rw [Ne, verdict_eq_error_iff, Classical.not_not] at hproper
    obtain ⟨v, first, second, hprinted, -⟩ := hproper
    obtain ⟨htype, hstable⟩ := row_of_printed profiles used hprinted
    have hrow := (Status.ofRow_eq_unstable_iff _ hstable).1 h
    rw [htype] at hrow
    exact ⟨v, first, second, hprinted, hrow⟩
  · rintro ⟨v, first, second, hprinted, hrow⟩
    obtain ⟨htype, hstable⟩ := row_of_printed profiles used hprinted
    rw [← htype] at hrow
    exact (Status.ofRow_eq_unstable_iff _ hstable).2 hrow

/-- Only a benchmark whose successive values differ can be unstable. -/
theorem exists_varying_of_unstable (h : verdict walk b profiles used = .unstable) :
    ∃ values, b.behaviour = .varying values := by
  obtain ⟨v, first, second, hprinted, -, -, hne⟩ := (verdict_eq_unstable_iff profiles used).1 h
  obtain ⟨w, hsecond⟩ := hprinted.second_call
  have hcalls : b.call 0 [] ≠ b.call 1 [] := by
    intro hsame
    have hprints : printedCall walk b 0 [] = printedCall walk b 1 [] := by
      rw [printedCall, printedCall, hsame]
    rw [hprinted.first_call, hsecond] at hprints
    exact hne (congrArg Prod.snd (Except.ok.inj hprints))
  -- any other behaviour forgets how often it was called
  rw [Bench.call, Bench.call] at hcalls
  cases hb : b.behaviour with
  | varying values => exact ⟨values, rfl⟩
  | _ => simp [hb] at hcalls

/-- A benchmark that raises has the verdict of an error. -/
theorem verdict_of_call_eq_error {r : Raised} (h : b.call 0 [] = .error r) :
    verdict walk b profiles used = .error := by
  rw [verdict_eq_error_iff]
  rintro ⟨v, first, second, hprinted, -⟩
  have hcall : printedCall walk b 0 [] = .error r := by
    rw [printedCall, h]
    rfl
  have hok := hprinted.first_call
  rw [hcall] at hok
  exact absurd hok (by simp)

end Row

end Calls

/-! ## Suites -/

/-- Every benchmark of a suite has one row, in the order of the suite. -/
theorem mem_rows_of_mem (walk : Walk) (profiles : List Profile) {b : Bench} :
    ∀ (used : Nat) {benches : List Bench}, b ∈ benches →
      ∃ n, (b.name, (row walk profiles n b).1) ∈ rows walk profiles used benches
  | used, a :: benches, h => by
      rw [rows]
      rcases List.mem_cons.1 h with rfl | h
      · exact ⟨used, List.mem_cons_self⟩
      · obtain ⟨n, hmem⟩ := mem_rows_of_mem walk profiles (row walk profiles used a).2 h
        exact ⟨n, List.mem_cons_of_mem _ hmem⟩

end BenchCheck

theorem RepositoryTime.mem_rows_of_call_eq_error (profiles : List Profile) {b : Bench} {r : Raised}
    (hcall : b.call 0 [] = .error r) :
    ∀ (used : Nat) {benches : List Bench}, b ∈ benches →
      (b.name, Binary64.ofInt (-1), [(Binary64.zero false, r.tag)]) ∈ rows profiles used benches
  | used, a :: benches, h => by
      rw [rows]
      rcases List.mem_cons.1 h with rfl | h
      · rw [hcall]
        exact List.mem_cons_self
      · cases a.call 0 [] with
        | error => exact List.mem_cons_of_mem _ (mem_rows_of_call_eq_error profiles hcall used h)
        | ok => exact List.mem_cons_of_mem _ (mem_rows_of_call_eq_error profiles hcall (used + 1) h)

/-- The coverage names the benchmarks that raise, each with what it raises. -/
theorem Coverage.mem_errors_iff {benches : List Bench} {name : Text} {e : Json} :
    (name, e) ∈ errors benches ↔
      ∃ b ∈ benches, b.name = name ∧ ∃ r, b.behaviour = .raises r ∧ e = .str r.summary := by
  rw [errors, List.mem_filterMap]
  refine exists_congr fun b => and_congr_right fun _ => ?_
  cases hcall : b.call 0 [] with
  | ok v =>
      have hraises : ∀ r, b.behaviour ≠ .raises r := fun r hr => by
        simp [Bench.call_eq_error_iff.2 hr] at hcall
      simp [hraises]
  | error r =>
      rw [Bench.call_eq_error_iff] at hcall
      simp [hcall, eq_comm]

/-- The checked benchmarks of a round are the rows of the self-check. After a change of the repository every verdict
says so. -/
theorem Round.checked_report (walk : Walk) (profiles : List Profile) (benches : List Bench) (modified : Bool) :
    checked (BenchCheck.report walk false profiles benches) modified =
      (BenchCheck.rows walk profiles 0 benches).map fun e =>
        (e.1, if modified then .repositoryModified else Status.ofRow e.2.toJson, e.2.toJson) := by
  have hfields : Coverage.fieldsOf (((BenchCheck.report walk false profiles benches).field?
      (lit "semcheck")).getD .null) =
        (BenchCheck.rows walk profiles 0 benches).map fun e => (e.1, e.2.toJson) := rfl
  rw [checked, hfields, List.filterMap_map, ← List.filterMap_eq_map]
  rfl

/-- What the coverage counts as an error has no repository time, and it does not pass the self-check of a round. -/
theorem reported_of_mem_errors (walk : Walk) (profiles : List Profile) {benches : List Bench} {name : Text}
    {e : Json} (h : (name, e) ∈ Coverage.errors benches) :
    (∃ hot, (name, Binary64.ofInt (-1), hot) ∈ RepositoryTime.rows profiles 0 benches) ∧
      ∃ row, (name, .error, row) ∈ Round.checked (BenchCheck.report walk false profiles benches) false := by
  obtain ⟨b, hb, rfl, r, hraises, -⟩ := Coverage.mem_errors_iff.1 h
  have hcall : b.call 0 [] = .error r := Bench.call_eq_error_iff.2 hraises
  refine ⟨⟨_, RepositoryTime.mem_rows_of_call_eq_error profiles hcall 0 hb⟩, ?_⟩
  obtain ⟨n, hrow⟩ := BenchCheck.mem_rows_of_mem walk profiles 0 hb
  have hverdict : BenchCheck.verdict walk b profiles n = .error :=
    BenchCheck.verdict_of_call_eq_error profiles n hcall
  have hmem := List.mem_map_of_mem (f := fun e => (e.1, Status.ofRow e.2.toJson, e.2.toJson)) hrow
  rw [Round.checked_report]
  rw [BenchCheck.verdict] at hverdict
  rw [hverdict] at hmem
  exact ⟨_, hmem⟩

end ModuleStubs
