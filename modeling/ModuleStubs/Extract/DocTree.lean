import ModuleStubs.Extract.Docstring
import ModuleStubs.Extract.Object
import ModuleStubs.Record
import ModuleStubs.Trace

/-!
# Doc trees

The skeleton of an object: its name, the name of its type, its value if it has one, its
doc, and the skeletons of its members, down to a greatest depth. Members are sorted by
name, and names that start with an underscore are left out, but for the initialiser.
What stands in the way is printed. `DocTree.make` is the skeleton of the object at a
place and `DocTree.toDatum` its form on the wire.

Objects may contain themselves, so calls may be nested without end. The room that there
is for nested calls is a parameter of the walk, and a walk that needs more of it fails.
-/

set_option autoImplicit false

namespace ModuleStubs

mutual

/-- The skeleton of an object. -/
inductive DocTree where
  | node (name type : Text) (content : Content) (doc : Option Text)
      (members : Option (List DocTree))

/-- What a skeleton shows of an object beside its members. -/
inductive Content where
  | nothing
  | plain (v : Plain)
  | entries (items : List (Wire.Key × DocTree))
  | access (getter setter deleter : Bool)

end

namespace DocTree

/-- An object where a walk meets it: under a name, at a depth, and as the item of an
enumeration or not. -/
structure Place (ρ : Type) where
  object : ρ
  name : Text
  depth : Int
  isItem : Bool

/-- Why a walk ends early. -/
inductive Stop where
  /-- The item of an enumeration is no number, with the text of the error. -/
  | noNumber (text : Text)
  /-- There is no room for one more nested call. -/
  | noRoom
deriving DecidableEq

/-- Making skeletons, with what is printed. -/
abbrev Making := Trace Text Stop

/-- The doc as it is shown: cleaned, and none if nothing is left. -/
def shownDoc (doc : Option Text) : Option Text := (doc.map Docstring.clean).filter (· ≠ [])

/-- The members that are shown. -/
def isShown (name : Text) : Bool :=
  name = lit "__init__" || !Text.startsWith name (lit "_")

/-- The first of the entries of each name. -/
def firstOfEach {α : Type} : List (Text × α) → List (Text × α)
  | [] => []
  | (k, v) :: r => (k, v) :: (firstOfEach r).filter fun e => e.1 ≠ k

/-- Attributes as they are listed: the nearest one of each name, in ascending order of
the names. -/
def listing {α : Type} (attributes : List (Text × α)) : List (Text × α) :=
  (firstOfEach attributes).mergeSort fun a b => Text.le a.1 b.1

/-- The message about an object at the greatest depth; no line end follows it. -/
def depthReached (name : Text) : Text := lit "WARNING: Maximum search depth reached at " ++ name

/-- The message about an object whose members cannot be listed, with the text of the
error. -/
def noMembers (text : Text) : Text :=
  lit "Could not get members, error: " ++ text ++ lit "\n"

section Walk

variable {ρ : Type} [DecidableEq ρ] (memory : Memory ρ) (greatest : Int)

/-- Where the value of an entry of a dictionary is met. It is named after the
dictionary and its key. -/
def entryPlace (p : Place ρ) (e : Wire.Key × ρ) : Place ρ :=
  ⟨e.2, p.name ++ lit "[" ++ e.1.literal ++ lit "]", p.depth + 1, false⟩

/-- Where a member of a container is met. The instances of an enumeration among its
members are its items. -/
def memberPlace (p : Place ρ) (c : Object.Container ρ) (e : Text × ρ) : Place ρ :=
  ⟨e.2, e.1, p.depth + 1, c.isEnumeration && decide ((memory e.2).type? = some p.object)⟩

/-- What is shown of the object at a place beside its members, where the values of
dictionaries are walked over by a nested call. An item is shown as a number. -/
def makeContent (again : Place ρ → Making DocTree) (p : Place ρ) : Making Content :=
  match (memory p.object).form with
  | .value v => return .plain v
  | form =>
    if p.isItem then
      match (memory p.object).number with
      | .ok n => return .plain (.int n)
      | .error text => Trace.fail (.noNumber text)
    else
      match form with
      | .dictionary entries => do
        let items ← entries.mapM fun e => do
          let t ← again (entryPlace p e)
          return (e.1, t)
        return .entries items
      | .property getter setter deleter => return .access getter setter deleter
      | _ => return .nothing

/-- The skeletons of the members of the object at a place, unless the depth is reached,
by a nested call for each of them that is shown. -/
def makeMembers (again : Place ρ → Making DocTree) (p : Place ρ) :
    Making (Option (List DocTree)) :=
  match (memory p.object).form with
  | .container c =>
    if greatest ≤ p.depth then do
      Trace.say (depthReached p.name)
      return none
    else
      match c.attributes with
      | .error text => do
        Trace.say (noMembers text)
        return none
      | .ok attributes =>
        if attributes.isEmpty then return none
        else do
          let members ← ((listing attributes).filter fun e => isShown e.1).mapM fun e =>
            again (memberPlace memory p c e)
          return some members
  | _ => return none

/-- The skeleton of the object at a place, with room for so many nested calls. -/
def make : Nat → Place ρ → Making DocTree
  | 0, _ => Trace.fail .noRoom
  | room + 1, p => do
    let content ← makeContent memory (make room) p
    let members ← makeMembers memory greatest (make room) p
    return .node p.name (memory p.object).typeName content (shownDoc (memory p.object).doc) members

end Walk

/-! ## On the wire -/

/-- A plain value on the wire. -/
def plainDatum : Plain → Wire.Datum
  | .bool b => .atom (.bool b)
  | .int n => .atom (.int n)
  | .float x => .atom (.float x false)
  | .str s => .atom (.str s)

mutual

/-- A key on the wire. -/
def keyDatum : Wire.Key → Wire.Datum
  | .atom a => .atom a
  | .tuple items => .list (keyData items)

/-- Keys on the wire. -/
def keyData : List Wire.Key → List Wire.Datum
  | [] => []
  | k :: ks => keyDatum k :: keyData ks

end

mutual

/-- A skeleton on the wire. -/
def toDatum : DocTree → Wire.Datum
  | .node name type content doc members =>
    .record ([(lit "name", .str name), (lit "type", .str type)] ++ contentFields content ++
      (match doc with
        | some d => [(lit "doc", .str d)]
        | none => []) ++
      (match members with
        | some ms => [(lit "members", .list (toData ms))]
        | none => []))

/-- Skeletons on the wire. -/
def toData : List DocTree → List Wire.Datum
  | [] => []
  | t :: ts => toDatum t :: toData ts

/-- The fields that show an object beside its members. -/
def contentFields : Content → List (Text × Wire.Datum)
  | .nothing => []
  | .plain v => [(lit "value", plainDatum v)]
  | .entries items => [(lit "value", .list (entryData items))]
  | .access getter setter deleter =>
    [(lit "getter", .atom (.bool getter)), (lit "setter", .atom (.bool setter)),
     (lit "deleter", .atom (.bool deleter))]

/-- The entries of a dictionary on the wire: pairs of a key and a skeleton. -/
def entryData : List (Wire.Key × DocTree) → List Wire.Datum
  | [] => []
  | (k, t) :: es => .list [keyDatum k, toDatum t] :: entryData es

end

end DocTree

end ModuleStubs
