import ModuleStubs.CType.Annotated
import ModuleStubs.Signature.Basic
import ModuleStubs.Signature.Rough
import ModuleStubs.Trace

/-!
# Reading signatures

A signature text such as `int getDamage(CyUnit* pUnit, int /*YieldTypes*/)` is
read in a type context. The return type comes before the arguments, the
function's own name may stand behind it, and arguments are separated by commas.
An argument is a type, a type and a name, or a name; which one is guessed from
what the context knows. What stands in the way is said from a verbosity on.
-/

set_option autoImplicit false

namespace ModuleStubs

namespace Signature

/-- Reading that prints messages. -/
abbrev Reading := Trace Text Fault

/-- A message that is printed from a verbosity on. -/
def sayFrom (level verbosity : Int) (message : Text) : Reading Unit :=
  if level ≤ verbosity then Trace.say message else return ()

@[simp] theorem sayFrom_eq (level verbosity : Int) (message : Text) :
    sayFrom level verbosity message = ⟨if level ≤ verbosity then [message] else [], .ok ()⟩ := by
  rw [sayFrom]
  split <;> rfl

/-- A message about something that cannot be read: where it stands, what it is,
its text and the reason. -/
def complaint (path what text reason : Text) : Text :=
  path ++ lit " - Cannot parse " ++ what ++ lit " '" ++ text ++ lit "': " ++ reason

/-- The name of an argument that has types. -/
def argumentName (index : Int) : Text := lit "arg" ++ decimalInt index

/-- An argument with types. -/
def typedArgument (index : Int) (main alternative : Option Text) : Argument :=
  ⟨argumentName index, some ⟨main, alternative⟩⟩

/-- The text without a mark in front of a name. -/
def dropMark (mark : CodePoint) (t : Text) : Text :=
  match t with
  | c :: r => if c = mark then Text.strip r else t
  | [] => []

/-- The types of a text without spaces are surely types: the main type is known
and has no alternative, or the alternative is known. -/
def surelyTypes (ctx : TypeContext) (main alternative : Option Text) : Bool :=
  (main.any ctx.known && alternative.isNone) || alternative.any ctx.known

/-- An argument of one word: a type if that is sure, else a name. -/
def oneWordArgument (verbosity : Int) (ctx : TypeContext) (path doc : Text) (index : Int) :
    Reading (Option Argument) := do
  let (main, alternative) ← ctx.translateType doc
  if surelyTypes ctx main alternative then
    return some (typedArgument index main alternative)
  else if isIdentifier doc then
    return some ⟨doc, none⟩
  else
    sayFrom 2 verbosity (complaint path (lit "argument") doc
      (lit "Neither valid type nor valid identifier"))
    return none

/-- An argument of a type and a name. -/
def namedArgument (verbosity : Int) (ctx : TypeContext) (path doc : Text) (index : Int) :
    Reading (Option Argument) := do
  let (before, after) := (Text.cutLast ' ' doc).getD (doc, [])
  let typePart := Text.strip before
  let namePart := Text.strip after
  let (main, alternative) ← ctx.translateType typePart
  if main.isNone then
    sayFrom 2 verbosity (complaint path (lit "argument") doc
      (lit "assumed type '" ++ typePart ++ lit "' not valid"))
    return none
  else
    let name := dropMark '&' (dropMark '*' namePart)
    if isIdentifier name then
      return some (typedArgument index main alternative)
    else
      sayFrom 2 verbosity (complaint path (lit "argument") doc
        (lit "assumed name '" ++ name ++ lit "' not valid"))
      return none

/-- An argument. A text with a space is a type if it has a main and an alternative
type, and a type with a name otherwise. -/
def readArgument (verbosity : Int) (ctx : TypeContext) (path text : Text) (index : Int) :
    Reading (Option Argument) := do
  let doc := Text.strip text
  if !doc.contains (CodePoint.ofChar ' ') then
    oneWordArgument verbosity ctx path doc index
  else
    let (main, alternative) ← ctx.translateType doc
    if main.isSome && alternative.isSome then
      return some (typedArgument index main alternative)
    else namedArgument verbosity ctx path doc index

/-- The arguments of the texts from an index on, or nothing if one of them cannot
be read. A name that came before is complained of, and kept. -/
def readArguments (verbosity : Int) (ctx : TypeContext) (path shown : Text) :
    Nat → List Text → List Text → Reading (Option (List Argument))
  | _, _, [] => return some []
  | index, seen, t :: ts => do
    let argument ← readArgument verbosity ctx (path ++ lit "/arg" ++ decimal index) t index
    match argument with
    | none => return none
    | some a =>
      if seen.contains a.name then
        sayFrom 1 verbosity (path ++ lit " - Cannot parse signature '" ++ shown ++
          lit "': duplicate arg name '" ++ a.name)
      let rest ← readArguments verbosity ctx path shown (index + 1) (a.name :: seen) ts
      return rest.map (a :: ·)

/-- The text before the arguments without the function's name at its end. With an
empty name nothing is left. -/
def dropFunctionName (name first : Text) : Text :=
  if Text.endsWith first name then
    if name.isEmpty then [] else Text.strip (first.take (first.length - name.length))
  else first

/-- A signature from its rough parts. `shown` is the signature in messages. -/
def readParts (verbosity : Int) (ctx : TypeContext) (path shown first second : Text) :
    Reading (Option Signature) := do
  let returnText := dropFunctionName (Text.lastPiece '.' path) first
  let returned : Option (Option Text × Option Text) ←
    if returnText.isEmpty then pure (some (none, none))
    else do
      let (main, alternative) ← ctx.translateType returnText
      match main with
      | some m => pure (some (some m, alternative))
      | none =>
        sayFrom 3 verbosity (complaint path (lit "signature") shown
          (lit "invalid return type '" ++ returnText ++ lit "'"))
        pure none
  match returned with
  | none => return none
  | some (main, alternative) =>
    let texts := if second.isEmpty then [] else Text.splitOn ',' second
    let arguments ← readArguments verbosity ctx path shown 0 [] texts
    return arguments.map fun as => ⟨main, alternative, as⟩

/-- A signature from its rough split, if it has one. -/
def readSplit (verbosity : Int) (ctx : TypeContext) (path shown : Text)
    (split : Option (Text × Text)) : Reading (Option Signature) :=
  match split with
  | none => do
    sayFrom 3 verbosity (complaint path (lit "signature") shown
      (lit "missing or non-matching parentheses"))
    return none
  | some (first, second) => readParts verbosity ctx path shown first second

/-- The signature of a text. -/
def read (verbosity : Int) (ctx : TypeContext) (path text : Text) : Reading (Option Signature) :=
  readSplit verbosity ctx path text (roughSplit text)

/-- The signature of a JSON value, which is a text in well-formed skeletons. -/
def readJson (verbosity : Int) (ctx : TypeContext) (path : Text) (v : Json) :
    Reading (Option Signature) := do
  let split ← roughSplitJson v
  readSplit verbosity ctx path v.display split

end Signature

end ModuleStubs
