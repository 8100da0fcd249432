import ModuleStubs.Json.Access
import ModuleStubs.Text.Blank

/-!
# The rough shape of a signature

`roughSplit` cuts a signature text at its last opening parenthesis on the top
level. The first part is what stands before it; the second part is what follows,
without its first and its last code point. A text whose parentheses do not match,
or that has none, is not cut.
-/

set_option autoImplicit false

namespace ModuleStubs

/-- How far a walk over a signature has come: the part before the last opening
parenthesis on the top level, the part from there on, if there was such a parenthesis,
and the number of parentheses that are open. -/
structure RoughScan where
  first : Text
  second : Option Text
  depth : Nat

namespace RoughScan

/-- A text at the end of the latest part. -/
def add (s : RoughScan) (t : Text) : RoughScan :=
  match s.second with
  | none => ⟨s.first ++ t, none, s.depth⟩
  | some second => ⟨s.first, some (second ++ t), s.depth⟩

/-- One piece of the text. An opening parenthesis on the top level begins the second part
anew, and what was taken for it before goes to the first one. Nothing if a closing
parenthesis has none to close. -/
def step (s : RoughScan) (p : Text) : Option RoughScan :=
  if p = lit "(" then
    if s.depth = 0 then some (add ⟨s.first ++ s.second.getD [], some [], 1⟩ p)
    else some (add ⟨s.first, s.second, s.depth + 1⟩ p)
  else if p = lit ")" then
    match s.depth with
    | 0 => none
    | depth + 1 => some (add ⟨s.first, s.second, depth⟩ p)
  else some (s.add p)

/-- The walk over the pieces of a text. -/
def scan (pieces : List Text) : Option RoughScan := pieces.foldlM step ⟨[], none, 0⟩

end RoughScan

/-- The two parts of a signature given in pieces. -/
def roughSplitPieces (pieces : List Text) : Option (Text × Text) :=
  match RoughScan.scan pieces with
  | some ⟨first, some second, 0⟩ => some (Text.strip first, Text.strip (Text.trimEnds second))
  | _ => none

/-- The two parts of a signature text. -/
def roughSplit (t : Text) : Option (Text × Text) := roughSplitPieces (t.map fun c => [c])

/-- The texts before the first value that is no string, and that value. -/
def leadingTexts : List Json → List Text × Option Json
  | [] => ([], none)
  | .str s :: vs =>
    let (ts, v) := leadingTexts vs
    (s :: ts, v)
  | v :: _ => ([], some v)

/-- The two parts of a signature given as JSON: a text by its code points, any
other value by its elements, which must be texts as far as they are needed. -/
def roughSplitJson (v : Json) : Except Fault (Option (Text × Text)) :=
  match v with
  | .str s => .ok (roughSplit s)
  | _ => do
    let (pieces, odd) := leadingTexts (← v.elements)
    match odd with
    | none => return roughSplitPieces pieces
    | some w =>
      -- a parenthesis that closes none ends the walk before it comes to this value
      if (RoughScan.scan pieces).isNone then return none else .error (.notAppendable w.kind)

end ModuleStubs
