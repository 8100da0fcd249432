import ModuleStubs.Number.Decimal
import ModuleStubs.Record
import ModuleStubs.Text.Blank
import ModuleStubs.Text.Word

/-!
# Command line arguments

Arguments are plain ones and options. An option may stand anywhere, its value
follows it or an equals sign, a short option may have its value attached, and a
long one may be cut short as long as it stays clear which one is meant. After two
hyphens all arguments are plain. What looks like a negative number or has a space
in it is plain too, unless it names an option.
-/

set_option autoImplicit false

namespace ModuleStubs

namespace Arguments

/-- Why a command does not start. -/
inductive Refusal where
  /-- The arguments are wrong. -/
  | wrong
  /-- Help was asked for. -/
  | help
deriving DecidableEq

/-- The options: each takes a value, but for the one that asks for help. -/
inductive Setting where
  | help
  | config
  | verbosity
deriving DecidableEq

/-- Option names and what they set. -/
abbrev Names := List (Text × Setting)

/-- What an argument is. -/
inductive Role where
  | plain
  | option (setting : Setting) (value : Option Text)
  | unknown
  /-- The two hyphens. -/
  | divider
deriving DecidableEq

/-- A negative number: digits, with a point among them or not. -/
def isNegativeNumber (t : Text) : Bool :=
  match t with
  | [] => false
  | c :: r =>
    let whole := r.takeWhile Text.isDecimalPoint
    let rest := r.drop whole.length
    c = CodePoint.ofChar '-' &&
      match rest with
      | [] => !whole.isEmpty
      | p :: fraction =>
        p = CodePoint.ofChar '.' && !fraction.isEmpty && fraction.all Text.isDecimalPoint

/-- The options that a long name, which may be cut short, can mean. -/
def longMatches (names : Names) (arg : Text) : List (Setting × Option Text) :=
  let (start, value) : Text × Option Text :=
    match Text.cutFirst '=' arg with
    | some (n, v) => (n, some v)
    | none => (arg, none)
  (names.filter fun (n, _) => Text.startsWith n start).map fun (_, s) => (s, value)

/-- The options that a short name with something attached can mean. -/
def shortMatches (names : Names) (arg : Text) : List (Setting × Option Text) :=
  names.filterMap fun (n, s) =>
    if n = arg.take 2 then some (s, some (arg.drop 2))
    else if Text.startsWith n arg then some (s, none)
    else none

/-- An option named in full, with a value behind an equals sign. -/
def exactMatch? (names : Names) (arg : Text) : Option (Setting × Option Text) := do
  let (n, v) ← Text.cutFirst '=' arg
  let s ← Record.get? n names
  return (s, some v)

/-- The role of an argument that is no option: plain if it looks like a number or
has a space. -/
def roleOfStranger (arg : Text) : Role :=
  if isNegativeNumber arg || arg.contains (CodePoint.ofChar ' ') then .plain else .unknown

/-- The role of an argument that starts with a hyphen and goes on. -/
def roleOfDashed (names : Names) (arg : Text) : Except Refusal Role :=
  match Record.get? arg names with
  | some s => .ok (.option s none)
  | none =>
    match exactMatch? names arg with
    | some (s, v) => .ok (.option s v)
    | none =>
      let found := if Text.startsWith arg (lit "--") then longMatches names arg
        else shortMatches names arg
      match found with
      | [] => .ok (roleOfStranger arg)
      | [(s, v)] => .ok (.option s v)
      | _ => .error .wrong

/-- The role of an argument before the two hyphens. -/
def roleOf (names : Names) (arg : Text) : Except Refusal Role :=
  match arg with
  | c :: _ :: _ => if c = '-' then roleOfDashed names arg else .ok .plain
  | _ => .ok .plain

/-- Arguments with their roles. -/
def roles (names : Names) : List Text → Except Refusal (List (Text × Role))
  | [] => .ok []
  | arg :: args =>
    if arg = lit "--" then .ok ((arg, .divider) :: args.map fun a => (a, .plain))
    else do
      let r ← roleOf names arg
      let rs ← roles names args
      return (arg, r) :: rs

/-- Plain arguments in order, and settings in order. -/
structure Parsed where
  plain : List Text := []
  settings : List (Setting × Text) := []
  /-- An option was not known. -/
  stranger : Bool := false

/-- The arguments taken apart. -/
def collect : List (Text × Role) → Except Refusal Parsed
  | [] => .ok {}
  | (arg, .plain) :: rest => do
    let p ← collect rest
    return { p with plain := arg :: p.plain }
  | (_, .divider) :: rest => collect rest
  | (_, .unknown) :: rest => do
    let p ← collect rest
    return { p with stranger := true }
  | (_, .option .help none) :: _ => .error .help
  | (_, .option .help (some _)) :: _ => .error .wrong
  | (_, .option s (some v)) :: rest => do
    let p ← collect rest
    return { p with settings := (s, v) :: p.settings }
  | (_, .option s none) :: (v, .plain) :: rest => do
    let p ← collect rest
    return { p with settings := (s, v) :: p.settings }
  | (_, .option _ none) :: _ => .error .wrong

/-- The plain arguments and the settings of a command that takes two plain
arguments. -/
def parse (names : Names) (argv : List Text) :
    Except Refusal (Text × Text × List (Setting × Text)) := do
  let p ← collect (← roles names argv)
  match p.plain, p.stranger with
  | [a, b], false => return (a, b, p.settings)
  | _, _ => throw .wrong

/-- The value of a decimal digit of any script. -/
def digitOf? (c : CodePoint) : Option Nat :=
  if c.isDigit then some c.digitValue
  else
    (Text.decimalRanges.find? fun (a, b) => a ≤ c.val && c.val ≤ b).map fun (a, _) =>
      (c.val - a) % 10

/-- The number of digits, which may have single underscores between them. -/
def wholeNumber? : Nat → Bool → Text → Option Nat
  | n, afterDigit, [] => if afterDigit then some n else none
  | n, afterDigit, c :: t =>
    if c = '_' then if afterDigit then wholeNumber? n false t else none
    else
      match digitOf? c with
      | some d => wholeNumber? (n * 10 + d) true t
      | none => none

/-- A whole number with an optional sign and blanks around it. -/
def integer? (t : Text) : Option Int :=
  match Text.strip t with
  | [] => none
  | c :: r =>
    if c = '-' then (wholeNumber? 0 false r).map fun n => -(n : Int)
    else if c = '+' then (wholeNumber? 0 false r).map Int.ofNat
    else (wholeNumber? 0 false (c :: r)).map Int.ofNat

/-- The names that ask for help. -/
def helpNames : Names := [(lit "-h", .help), (lit "--help", .help)]

end Arguments

/-- The arguments of the annotating command. -/
structure AnnotateArguments where
  config : Option Text
  input : Text
  output : Text
  verbosity : Int

/-- The arguments of the writing command. -/
structure StubArguments where
  input : Text
  output : Text

namespace Arguments

/-- The options of the annotating command. -/
def annotateNames : Names :=
  helpNames ++
    [(lit "--config", .config), (lit "-v", .verbosity), (lit "--verbosity", .verbosity)]

/-- The last value of a setting. -/
def lastOf (s : Setting) (settings : List (Setting × Text)) : Option Text :=
  (settings.reverse.find? fun e => e.1 = s).map Prod.snd

/-- A verbosity from 0 to 3. -/
def verbosity? (t : Text) : Option Int := do
  let n ← integer? t
  if 0 ≤ n ∧ n ≤ 3 then some n else none

/-- The arguments of the annotating command. Every verbosity given must be one; an
empty configuration path is none. -/
def parseAnnotate (argv : List Text) : Except Refusal AnnotateArguments := do
  let (input, output, settings) ← parse annotateNames argv
  let levels := (settings.filter fun e => e.1 = .verbosity).map Prod.snd
  if levels.any fun t => (verbosity? t).isNone then throw .wrong
  let config := (lastOf .config settings).filter (· ≠ [])
  let verbosity := (((lastOf .verbosity settings).bind verbosity?)).getD 0
  return ⟨config, input, output, verbosity⟩

/-- The arguments of the writing command. -/
def parseStub (argv : List Text) : Except Refusal StubArguments := do
  let (input, output, _) ← parse helpNames argv
  return ⟨input, output⟩

end Arguments

end ModuleStubs
