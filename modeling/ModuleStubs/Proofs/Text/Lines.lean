import ModuleStubs.Proofs.Text.Cut
import ModuleStubs.Text.Lines

/-!
# Lines of a text file

A text file is made of lines, each with the same kind of end, and a last piece that may lack one
(`Text.ofLines`). Reading it gives every line with a line feed behind it, whatever ended it in the file
(`lines_unifyLineEnds`).
-/

set_option autoImplicit false

namespace ModuleStubs

/-- What ends a line in a file. -/
inductive LineEnd where
  | lineFeed
  | carriageReturn
  | both
deriving DecidableEq

/-- The code points of a line end. -/
def LineEnd.text : LineEnd → Text
  | .lineFeed => lit "\n"
  | .carriageReturn => lit "\r"
  | .both => lit "\r\n"

namespace Text

/-- The text lies on one line. -/
def IsLine (t : Text) : Prop := CodePoint.ofChar '\n' ∉ t ∧ CodePoint.ofChar '\r' ∉ t

instance decidableIsLine (t : Text) : Decidable t.IsLine := inferInstanceAs (Decidable (_ ∧ _))

/-- The line with a line feed behind it. -/
def withFeed (l : Text) : Text := l ++ [CodePoint.ofChar '\n']

/-- The lines one after the other, each with its end. -/
def ofLines (e : LineEnd) (ls : List Text) : Text := ls.flatMap (· ++ e.text)

theorem ofLines_cons (e : LineEnd) (l : Text) (ls : List Text) (t : Text) :
    ofLines e (l :: ls) ++ t = l ++ (e.text ++ (ofLines e ls ++ t)) := by
  simp [ofLines]

theorem ofLines_lineFeed (ls : List Text) :
    ofLines .lineFeed ls = concat (ls.map withFeed) := by
  rw [ofLines, List.flatMap_def]
  rfl

/-! ## Line ends -/

/-- What has no carriage return in it stays as it is. -/
theorem unifyLineEnds_append {l : Text} (hl : CodePoint.ofChar '\r' ∉ l) (t : Text) :
    unifyLineEnds (l ++ t) = l ++ unifyLineEnds t := by
  induction l with
  | nil => rfl
  | cons c l ih =>
      obtain ⟨hc, hl⟩ := not_or.1 (mt List.mem_cons.2 hl)
      rw [List.cons_append, unifyLineEnds.eq_def]
      simp only [if_neg (Ne.symm hc)]
      rw [ih hl]
      rfl

/-- A line end becomes a line feed. One of a carriage return only must not stand before a line feed,
which would belong to it. -/
theorem unifyLineEnds_lineEnd (e : LineEnd) {t : Text}
    (ht : e = .carriageReturn → ∀ c ∈ t.head?, c ≠ '\n') :
    unifyLineEnds (e.text ++ t) = CodePoint.ofChar '\n' :: unifyLineEnds t := by
  cases e with
  | lineFeed => exact unifyLineEnds_append (l := lit "\n") (by decide) t
  | both => rw [LineEnd.text, unifyLineEnds.eq_def]; rfl
  | carriageReturn =>
      rw [LineEnd.text, unifyLineEnds.eq_def]
      cases t with
      | nil => rfl
      | cons c t =>
          have hc : c ≠ '\n' := ht rfl c rfl
          change (if c = '\n' then _ else CodePoint.ofChar '\n' :: unifyLineEnds (c :: t)) = _
          rw [if_neg hc]

/-- Lines with ends of one carriage return start with no line feed. -/
theorem head?_ofLines_carriageReturn {ls : List Text} {tail : Text} (hls : ∀ l ∈ ls, l.IsLine)
    (htail : tail.IsLine) :
    ∀ c ∈ (ofLines .carriageReturn ls ++ tail).head?, c ≠ '\n' := by
  have hline : ∀ {l : Text}, l.IsLine → ∀ c ∈ l.head?, c ≠ '\n' := by
    rintro l hl c hc rfl
    exact hl.1 (List.mem_of_mem_head? hc)
  cases ls with
  | nil => exact hline htail
  | cons l ls =>
      have hl := hls l List.mem_cons_self
      cases l with
      | nil =>
          intro c hc
          obtain rfl := Option.some.inj hc
          decide
      | cons d l =>
          intro c hc
          exact hline hl c hc

/-- All line ends become line feeds. -/
theorem unifyLineEnds_ofLines (e : LineEnd) {ls : List Text} {tail : Text}
    (hls : ∀ l ∈ ls, l.IsLine) (htail : tail.IsLine) :
    unifyLineEnds (ofLines e ls ++ tail) = ofLines .lineFeed ls ++ tail := by
  induction ls with
  | nil =>
      have h := unifyLineEnds_append htail.2 []
      rw [List.append_nil] at h
      exact h.trans (List.append_nil tail)
  | cons l ls ih =>
      have hl := hls l List.mem_cons_self
      have hrest : ∀ l ∈ ls, l.IsLine := fun m hm => hls m (List.mem_cons_of_mem l hm)
      have hhead : e = .carriageReturn → ∀ c ∈ (ofLines e ls ++ tail).head?, c ≠ '\n' := by
        rintro rfl
        exact head?_ofLines_carriageReturn hrest htail
      rw [ofLines_cons, unifyLineEnds_append hl.2, unifyLineEnds_lineEnd e hhead, ih hrest,
        ofLines_cons]
      rfl

/-! ## Lines -/

theorem lines_append {l : Text} (hl : CodePoint.ofChar '\n' ∉ l) (t : Text) :
    lines (l ++ CodePoint.ofChar '\n' :: t) = withFeed l :: lines t := by
  induction l with
  | nil => rfl
  | cons c l ih =>
      obtain ⟨hc, hl⟩ := not_or.1 (mt List.mem_cons.2 hl)
      rw [List.cons_append, lines, if_neg (Ne.symm hc), ih hl]
      rfl

/-- The lines of a file are those it was made of, with line feeds, and what is left behind them. -/
theorem lines_ofLines {ls : List Text} (hls : ∀ l ∈ ls, CodePoint.ofChar '\n' ∉ l) (tail : Text) :
    lines (ofLines .lineFeed ls ++ tail) = ls.map withFeed ++ lines tail := by
  induction ls with
  | nil => rfl
  | cons l ls ih =>
      have hl := hls l List.mem_cons_self
      have hrest := ih fun m hm => hls m (List.mem_cons_of_mem l hm)
      rw [ofLines_cons, List.map_cons, List.cons_append, ← hrest]
      exact lines_append hl _

theorem lines_of_isLine {t : Text} (ht : CodePoint.ofChar '\n' ∉ t) (hne : t ≠ []) :
    lines t = [t] := by
  induction t with
  | nil => contradiction
  | cons c t ih =>
      obtain ⟨hc, ht⟩ := not_or.1 (mt List.mem_cons.2 ht)
      rw [lines, if_neg (Ne.symm hc)]
      cases t with
      | nil => rfl
      | cons d r => rw [ih ht (List.cons_ne_nil d r)]

/-- What is left behind the last line end is a line, unless nothing is left. -/
theorem mem_lines_of_isLine {t l : Text} (ht : t.IsLine) (hl : l ∈ lines t) : l = t := by
  by_cases hne : t = []
  · subst hne
    contradiction
  · rw [lines_of_isLine ht.1 hne] at hl
    exact List.mem_singleton.1 hl

/-- Reading a file gives its lines with line feeds behind them. -/
theorem lines_unifyLineEnds (e : LineEnd) {ls : List Text} {tail : Text}
    (hls : ∀ l ∈ ls, l.IsLine) (htail : tail.IsLine) :
    lines (unifyLineEnds (ofLines e ls ++ tail)) = ls.map withFeed ++ lines tail := by
  rw [unifyLineEnds_ofLines e hls htail, lines_ofLines fun l hl => (hls l hl).1]

end Text

end ModuleStubs
