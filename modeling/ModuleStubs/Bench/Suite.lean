import ModuleStubs.Bench.Result

/-!
# Suites of benchmarks

A suite has members by name. The benchmarks are the functions among them whose
names start with `bench_`, in the order of their names. What a call gives depends
on the keywords and on how many calls of the same benchmark went before.
-/

set_option autoImplicit false

namespace ModuleStubs

/-- What was raised: the kind and the text. -/
structure Raised where
  kind : Text
  text : Text
deriving Inhabited

/-- Kind and text on one line. The text of a missing key is its literal. -/
def Raised.summary (r : Raised) : Text :=
  r.kind ++ lit ": " ++ (if r.kind = lit "KeyError" then Text.quoted r.text else r.text)

/-- The kind in angle brackets. -/
def Raised.tag (r : Raised) : Text := lit "<" ++ r.kind ++ lit ">"

/-- What a text without bytes raises. -/
def Raised.ofUnencodable (_ : Unencodable) : Raised :=
  ⟨lit "UnicodeEncodeError", lit "surrogates not allowed"⟩

/-- How a function behaves. -/
inductive Behaviour where
  | constant (v : Result)
  | raises (r : Raised)
  /-- The keyword's value if there is one. -/
  | keyword (name : Text) (default : Result)
  /-- Successive values, over and over. -/
  | varying (values : List Result)
deriving Inhabited

/-- A member of a suite. -/
inductive Member where
  | attribute
  | function (behaviour : Behaviour) (params : List (Record Json))
deriving Inhabited

/-- A benchmark. -/
structure Bench where
  name : Text
  behaviour : Behaviour
  params : List (Record Json)
deriving Inhabited

/-- What is raised when there is no suite. -/
def missingSuite : Raised :=
  ⟨lit "ModuleNotFoundError", lit "import of microbench halted; None in sys.modules"⟩

/-- The benchmark that a member is, if it is one. -/
def Bench.ofMember? : Text × Member → Option Bench
  | (_, .attribute) => none
  | (name, .function behaviour params) =>
    if name.startsWith (lit "bench_") then some ⟨name, behaviour, params⟩ else none

/-- The benchmarks among members, by name. -/
def Bench.ofMembers (members : List (Text × Member)) : List Bench :=
  ((Record.ofList members).filterMap ofMember?).mergeSort fun a b => Text.le a.name b.name

/-- The result of a call after some earlier calls. -/
def Bench.call (b : Bench) (earlier : Nat) (keywords : Record Json) : Except Raised Result :=
  match b.behaviour with
  | .constant v => .ok v
  | .raises r => .error r
  | .keyword name default => .ok (((Record.get? name keywords).map Result.ofJson).getD default)
  | .varying values => .ok (values.getD (earlier % values.length) .null)

end ModuleStubs
