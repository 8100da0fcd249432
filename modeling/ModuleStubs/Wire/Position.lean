import ModuleStubs.Number.Decimal

/-!
# Positions in wire texts

The line and the column of a position in a text, as messages of the wire format
name them. Lines count from one. On the first line the column is the position
itself; on the others it is the distance from the line feed before the line. A
position past the end counts on from the last line, and a negative one takes only
that part of the text into account that lies before it when counted from the end.
-/

set_option autoImplicit false

namespace ModuleStubs

namespace Wire

/-- The part of a text before a position; a negative position counts from the
end. -/
def before (doc : Text) (position : Int) : Text :=
  doc.take (if position < 0 then position + doc.length else position).toNat

/-- The index just past the last line feed of a text. -/
def lineStart (t : Text) : Nat := t.length - (Text.lastPiece '\n' t).length

/-- The line and the column of a position. -/
def lineColumn (doc : Text) (position : Int) : Int × Int :=
  let t := before doc position
  let feeds := Text.countOf '\n' t
  if feeds = 0 then (1, position)
  else (feeds + 1, position - (lineStart t : Int) + 1)

/-- The words that locate a position. -/
def located (doc : Text) (position : Int) : Text :=
  let (line, column) := lineColumn doc position
  lit "line " ++ decimalInt line ++ lit " column " ++ decimalInt column

/-- A message about a position. -/
def messageAt (what doc : Text) (position : Int) : Text :=
  what ++ lit ": " ++ located doc position ++ lit " (char " ++ decimalInt position ++ lit ")"

/-- A message about a stretch of text. -/
def messageBetween (what doc : Text) (start stop : Int) : Text :=
  what ++ lit ": " ++ located doc start ++ lit " - " ++ located doc stop ++ lit " (char " ++
    decimalInt start ++ lit " - " ++ decimalInt stop ++ lit ")"

end Wire

end ModuleStubs
