import ModuleStubs.Text.Basic

/-!
# Lines of text files

Text files are read with one kind of line end: a carriage return, alone or before
a line feed, is read as a line feed. Lines keep their ends, so that the lines of a
text make up the text (`concat_lines`).
-/

set_option autoImplicit false

namespace ModuleStubs

namespace Text

/-- The text with line feeds in place of all line ends. -/
def unifyLineEnds : Text → Text
  | [] => []
  | c :: t =>
    if c = '\r' then
      match t with
      | [] => [CodePoint.ofChar '\n']
      | d :: r =>
        if d = '\n' then CodePoint.ofChar '\n' :: unifyLineEnds r
        else CodePoint.ofChar '\n' :: unifyLineEnds (d :: r)
    else c :: unifyLineEnds t

/-- The lines of a text, each with its line feed. -/
def lines : Text → List Text
  | [] => []
  | c :: t =>
    if c = '\n' then [c] :: lines t
    else
      match lines t with
      | [] => [[c]]
      | l :: ls => (c :: l) :: ls

/-- The lines of a text make up the text. -/
theorem concat_lines (t : Text) : concat (lines t) = t := by
  induction t with
  | nil => rfl
  | cons c t ih =>
    simp only [lines]
    split
    · simpa [concat] using ih
    · cases h : lines t with
      | nil =>
        rw [h] at ih
        simp only [concat, List.flatten_nil] at ih
        simp [concat, ← ih]
      | cons l ls =>
        rw [h] at ih
        simpa [concat] using ih

end Text

end ModuleStubs
