import ModuleStubs.Progress
import ModuleStubs.Signature.Override
import ModuleStubs.Signature.Parser

/-!
# Annotated functions

A function node of a skeleton has a doc, and the doc may start with a signature.
Annotating the node first looks for a signature in the doc, which loses it then,
and after that tries the signature overrides in order; each one that gives a
signature replaces the one before. A change is complete or not made at all, so a
fault leaves the node as the change before it left it.
-/

set_option autoImplicit false

namespace ModuleStubs

namespace Json

/-- The object with a field set; any other value as it is. -/
def withField (v : Json) (key : Text) (w : Json) : Json :=
  match v with
  | .object fields => .object (Record.set key w fields)
  | _ => v

end Json

/-- What an annotation logs. -/
inductive Note where
  /-- A message that was printed. -/
  | message (text : Text)
  /-- The override with this index was used. -/
  | used (index : Nat)
deriving DecidableEq

namespace Note

/-- The messages of a log. -/
def messages (notes : List Note) : List Text :=
  notes.filterMap fun
    | .message t => some t
    | .used _ => none

/-- The indices of the overrides that were used. -/
def usedIndices (notes : List Note) : List Nat :=
  notes.filterMap fun
    | .message _ => none
    | .used i => some i

end Note

/-- What annotations read: the types that are known, the overrides, and how much is
to be said. -/
structure Annotator where
  context : TypeContext
  overrides : List SignatureOverride
  verbosity : Int

namespace Annotator

/-- A change of a node with notes. -/
abbrev Change := Json → Progress Note Fault Json

/-- Reading a signature, with its messages as notes. -/
def readSignature (a : Annotator) (path : Text) (v : Json) :
    Trace Note Fault (Option Signature) :=
  (Signature.readJson a.verbosity a.context path v).mapLog .message

/-- The node with a signature. -/
def withSignature (s : Signature) (node : Json) : Json :=
  node.withField (lit "signature") s.toJson

/-- The path of a node inside a parent. -/
def childPath (parent node : Json) : Except Fault Text := do
  let p ← parent.leftText
  let name ← (← node.index (lit "name")).rightText
  return p ++ lit "." ++ name

/-- A doc cut at its first hyphen: what may be a signature, and the rest. A doc
that is no text has neither. -/
def cutDoc (doc : Json) : Except Fault (Text × Text) :=
  match doc with
  | .str t =>
    let (before, after) := (Text.cutFirst '-' t).getD (t, [])
    .ok (Text.strip before, Text.strip after)
  | .list _ => .error (.noMethod .list (lit "strip"))
  | v => .error (.noMethod v.kind (lit "index"))

/-- The signature of the doc, if there is one, and the doc without it. -/
def readDoc (a : Annotator) (path : Text) (doc : Json) :
    Trace Note Fault (Option (Signature × Text)) := do
  if ← (doc.mentions (lit "-") : Except Fault Bool) then
    let (before, after) ← (cutDoc doc : Except Fault (Text × Text))
    let signature ← a.readSignature path (.str before)
    return signature.map fun s => (s, after)
  else
    let signature ← a.readSignature path doc
    return signature.map fun s => (s, [])

/-- The signature moved from the doc to a field of its own. -/
def annotateFromDoc (a : Annotator) (path : Text) (node : Json) : Trace Note Fault Json := do
  match node.field? (lit "doc") with
  | none => return node
  | some doc =>
    match ← a.readDoc path doc with
    | none => return node
    | some (s, rest) => return (withSignature s node).withField (lit "doc") (.str rest)

/-- The message about an override that gives no signature, which is printed at every
verbosity. -/
def invalidSignature (o : SignatureOverride) (candidate : Json) : Text :=
  lit "ERROR: sig override " ++ o.literal ++ lit " produced invalid signature '" ++
    candidate.display ++ lit "'"

/-- The signature replaced by that of an override, if it gives one. -/
def annotateFromOverride (a : Annotator) (path : Text) (o : SignatureOverride) (index : Nat)
    (node : Json) : Trace Note Fault Json := do
  match ← (o.candidate? path : Except Fault (Option Json)) with
  | none => return node
  | some candidate =>
    (o.hashable : Except Fault Unit)
    Trace.say (.used index)
    match ← a.readSignature path candidate with
    | some s => return withSignature s node
    | none =>
      Trace.say (.message (invalidSignature o candidate))
      return node

/-- The changes of a function node at a path, in order. -/
def functionChanges (a : Annotator) (path : Text) : List Change :=
  Progress.step (a.annotateFromDoc path) ::
    a.overrides.mapIdx fun i o => Progress.step (a.annotateFromOverride path o i)

/-- A function node annotated. -/
def annotateFunction (a : Annotator) (parent : Json) : Change := fun node =>
  match childPath parent node with
  | .error e => .stopped node e
  | .ok path => Progress.run (a.functionChanges path) node

end Annotator

end ModuleStubs
