import ModuleStubs.Text.Basic

/-!
# Blanks

Two sets of blank code points are in use. Signatures, types and log lines count
every Unicode space as blank (`isBlank`); the wire dialect knows the six ASCII
ones only (`isSpace`). `strip` removes blanks at both ends; it is idempotent
(`strip_strip`) and its result has no blank at either end.
-/

set_option autoImplicit false

namespace ModuleStubs

/-- The six ASCII blanks: tab, line feed, vertical tab, form feed, carriage
return and space. -/
def isSpace (c : CodePoint) : Bool := (9 ≤ c.val && c.val ≤ 13) || c.val == 32

/-- The Unicode blanks. -/
def isBlank (c : CodePoint) : Bool :=
  (9 ≤ c.val && c.val ≤ 13) || (0x1C ≤ c.val && c.val ≤ 0x20) || c.val == 0x85 || c.val == 0xA0 ||
    c.val == 0x1680 || (0x2000 ≤ c.val && c.val ≤ 0x200A) || c.val == 0x2028 || c.val == 0x2029 ||
    c.val == 0x202F || c.val == 0x205F || c.val == 0x3000

namespace Text

/-- The text without the blanks at its start. -/
def stripStart (t : Text) : Text := t.dropWhile isBlank

/-- The text without the blanks at its end. -/
def stripEnd (t : Text) : Text := (t.reverse.dropWhile isBlank).reverse

/-- The text without the blanks at both ends. -/
def strip (t : Text) : Text := stripEnd (stripStart t)

/-- Only blanks. -/
def allBlank (t : Text) : Bool := t.all isBlank

/-! ## Laws -/

@[simp] theorem strip_nil : strip [] = [] := rfl

theorem stripStart_eq_self {t : Text} (h : ∀ c ∈ t.head?, isBlank c = false) :
    stripStart t = t := by
  cases t with
  | nil => rfl
  | cons c t => simp [stripStart, h c (by simp)]

theorem stripEnd_eq_self {t : Text} (h : ∀ c ∈ t.getLast?, isBlank c = false) :
    stripEnd t = t := by
  have hr : ∀ c ∈ t.reverse.head?, isBlank c = false := by simpa using h
  have := stripStart_eq_self hr
  simp only [stripStart] at this
  simp [stripEnd, this]

theorem head?_dropWhile_isBlank (t : Text) :
    ∀ c ∈ (t.dropWhile isBlank).head?, isBlank c = false := by
  intro c hc
  have := List.head?_dropWhile_not isBlank t
  rw [Option.mem_def] at hc
  simpa [hc] using this

/-- A stripped text does not end in a blank. -/
theorem getLast?_stripEnd (t : Text) : ∀ c ∈ (stripEnd t).getLast?, isBlank c = false := by
  intro c hc
  rw [stripEnd, List.getLast?_reverse] at hc
  exact head?_dropWhile_isBlank _ c hc

theorem stripEnd_isPrefix (t : Text) : stripEnd t <+: t := by
  have h : (t.reverse.dropWhile isBlank) <:+ t.reverse := List.dropWhile_suffix _
  have := List.reverse_prefix.2 h
  simpa [stripEnd] using this

/-- A stripped text does not start with a blank. -/
theorem head?_strip (t : Text) : ∀ c ∈ (strip t).head?, isBlank c = false := by
  intro c hc
  obtain ⟨s, hs⟩ := stripEnd_isPrefix (stripStart t)
  refine head?_dropWhile_isBlank t c ?_
  change c ∈ (stripStart t).head?
  rw [← hs]
  rw [strip] at hc
  cases h : stripEnd (stripStart t) with
  | nil => simp [h] at hc
  | cons d r => rw [h] at hc; simpa using hc

/-- Stripping twice changes nothing more. -/
@[simp] theorem strip_strip (t : Text) : strip (strip t) = strip t := by
  rw [strip, stripStart_eq_self (head?_strip t)]
  exact stripEnd_eq_self (getLast?_stripEnd _)

end Text

end ModuleStubs
