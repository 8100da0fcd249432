import ModuleStubs.Json.Basic

/-!
# Event entry points

The entry points by which a game calls its event manager. Each one checks how many
arguments it is given and passes them on; the one for finished popups takes a
sequence of four values.
-/

set_option autoImplicit false

namespace ModuleStubs

namespace Events

/-- The entry points. -/
inductive Entry where
  | manager
  | handle
  | apply
  | begin

/-- What the event manager is called with. -/
inductive Call where
  /-- No call: the manager itself is asked for. -/
  | manager
  | handle (arguments : Json)
  | apply (arguments : Json)
  | begin (context arguments : Json)
deriving DecidableEq

/-- Why an entry point does not call the manager. -/
inductive Failure where
  | tooMany (entry : Entry) (given : Nat)
  | missing (entry : Entry)
  | tooManyValues
  | notEnoughValues (given : Nat)
  | notSequence (kind : Kind)

namespace Entry

/-- The name of an entry point. -/
def name : Entry → Text
  | .manager => lit "getEventManager"
  | .handle => lit "onEvent"
  | .apply => lit "applyEvent"
  | .begin => lit "beginEvent"

/-- The entry point of a name. -/
def named? (t : Text) : Option Entry := [.manager, .handle, .apply, .begin].find? (·.name = t)

/-- The name of the first argument. -/
def firstArgument : Entry → Text
  | .begin => lit "context"
  | _ => lit "argsList"

/-- How many arguments an entry point takes, in words. -/
def arity : Entry → Text
  | .manager => lit "0 positional arguments"
  | .begin => lit "from 1 to 2 positional arguments"
  | _ => lit "1 positional argument"

end Entry

/-- The wording of a failure. -/
def Failure.message : Failure → Text
  | .tooMany entry given =>
    entry.name ++ lit "() takes " ++ entry.arity ++ lit " but " ++ decimal given ++
      (if given = 1 then lit " was given" else lit " were given")
  | .missing entry =>
    entry.name ++ lit "() missing 1 required positional argument: '" ++ entry.firstArgument ++
      lit "'"
  | .tooManyValues => lit "too many values to unpack (expected 4)"
  | .notEnoughValues given =>
    lit "not enough values to unpack (expected 4, got " ++ decimal given ++ lit ")"
  | .notSequence kind => lit "cannot unpack non-iterable " ++ kind.name ++ lit " object"

/-- The number of values in a sequence. -/
def count? : Json → Option Nat
  | .list items => some items.length
  | .str s => some s.length
  | .object fields => some fields.length
  | _ => none

/-- Four values. -/
def checkFour (v : Json) : Except Failure Unit :=
  match count? v with
  | none => .error (.notSequence v.kind)
  | some n =>
    if n < 4 then .error (.notEnoughValues n)
    else if 4 < n then .error .tooManyValues
    else .ok ()

/-- The call that an entry point makes with its arguments. Without arguments for
the event, minus one stands for them. -/
def call (entry : Entry) (arguments : List Json) : Except Failure Call :=
  match entry, arguments with
  | .manager, [] => .ok .manager
  | .handle, [a] => .ok (.handle a)
  | .apply, [a] => (checkFour a).map fun _ => .apply a
  | .begin, [c] => .ok (.begin c (.int (-1)))
  | .begin, [c, a] => .ok (.begin c a)
  | entry, [] => .error (.missing entry)
  | entry, given => .error (.tooMany entry given.length)

end Events

end ModuleStubs
