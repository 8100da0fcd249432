/-!
# Code points and texts

A text is a list of code points. Surrogates are code points too: an escape in a
JSON string may name one half of a pair, and such a string is carried along
unchanged. Delivered here:

* `CodePoint`, with the ASCII classes the readers need;
* `Text`, literals (`lit`), order by code point, prefixes, suffixes and cuts at
  a separator;
* the small laws that say what a cut keeps (`join_splitOn`, `cutFirst_append`).
-/

set_option autoImplicit false

namespace ModuleStubs

/-- A Unicode code point, surrogates included. -/
structure CodePoint where
  val : Nat
  isLt : val < 0x110000
deriving DecidableEq

namespace CodePoint

@[ext] theorem ext {a b : CodePoint} (h : a.val = b.val) : a = b := by
  cases a; cases b; cases h; rfl

/-- Every character is a code point. -/
def ofChar (c : Char) : CodePoint :=
  ⟨c.toNat, by
    have h : c.toNat.isValidChar := c.valid
    rcases h with h | h <;> omega⟩

instance : Coe Char CodePoint := ⟨ofChar⟩

instance : Inhabited CodePoint := ⟨ofChar ' '⟩

/-- The code point of a number; numbers beyond the range become U+FFFD. -/
def ofNat (n : Nat) : CodePoint :=
  if h : n < 0x110000 then ⟨n, h⟩ else ⟨0xFFFD, by decide⟩

/-- Halves of UTF-16 pairs. -/
def isSurrogate (c : CodePoint) : Bool := 0xD800 ≤ c.val && c.val ≤ 0xDFFF

/-- The character of a code point that is not a surrogate. -/
def toChar? (c : CodePoint) : Option Char :=
  if c.isSurrogate then none else some (Char.ofNat c.val)

/-- The ASCII digits. -/
def isDigit (c : CodePoint) : Bool := 48 ≤ c.val && c.val ≤ 57

/-- The ASCII letters. -/
def isLetter (c : CodePoint) : Bool :=
  (65 ≤ c.val && c.val ≤ 90) || (97 ≤ c.val && c.val ≤ 122)

/-- The value of an ASCII digit. -/
def digitValue (c : CodePoint) : Nat := c.val - 48

/-- The value of a hexadecimal digit of either case. -/
def hexValue? (c : CodePoint) : Option Nat :=
  if c.isDigit then some (c.val - 48)
  else if 65 ≤ c.val && c.val ≤ 70 then some (c.val - 55)
  else if 97 ≤ c.val && c.val ≤ 102 then some (c.val - 87)
  else none

end CodePoint

/-- A sequence of code points. -/
abbrev Text := List CodePoint

/-- The text of a literal. -/
def lit (s : String) : Text := s.toList.map CodePoint.ofChar

namespace Text

/-- The text as a string; a lone surrogate, which no string can hold, becomes
U+FFFD. -/
def toString (t : Text) : String :=
  String.ofList (t.map fun c => c.toChar?.getD (Char.ofNat 0xFFFD))

/-- No code point of the text is half of a surrogate pair. -/
def isScalar (t : Text) : Bool := t.all fun c => !c.isSurrogate

/-- Lexicographic order by code point. -/
def le : Text → Text → Bool
  | [], _ => true
  | _ :: _, [] => false
  | a :: s, b :: t => a.val < b.val || (a.val == b.val && le s t)

/-- Texts in ascending order, equal ones in their given order. -/
def sort (ts : List Text) : List Text := ts.mergeSort le

/-- The text is an initial piece of the other. -/
def startsWith (t p : Text) : Bool := p.isPrefixOf t

/-- The text is a final piece of the other. -/
def endsWith (t p : Text) : Bool := p.isSuffixOf t

/-- What follows an initial piece. -/
def afterPrefix? : Text → Text → Option Text
  | [], t => some t
  | _ :: _, [] => none
  | a :: p, b :: t => if a = b then afterPrefix? p t else none

/-- The pieces with a separator between each two. -/
def join (sep : Text) : List Text → Text
  | [] => []
  | [t] => t
  | t :: u :: ts => t ++ sep ++ join sep (u :: ts)

/-- The pieces between the separators: one more than there are separators. -/
def splitOn (sep : CodePoint) : Text → List Text
  | [] => [[]]
  | c :: t =>
    if c = sep then [] :: splitOn sep t
    else
      match splitOn sep t with
      | [] => [[c]]
      | p :: ps => (c :: p) :: ps

/-- The part before the first separator and the part after it. -/
def cutFirst (sep : CodePoint) : Text → Option (Text × Text)
  | [] => none
  | c :: t =>
    if c = sep then some ([], t)
    else (cutFirst sep t).map fun (a, b) => (c :: a, b)

/-- The part before the last separator and the part after it. -/
def cutLast (sep : CodePoint) (t : Text) : Option (Text × Text) :=
  (cutFirst sep t.reverse).map fun (a, b) => (b.reverse, a.reverse)

/-- The last of the pieces between the separators. -/
def lastPiece (sep : CodePoint) (t : Text) : Text :=
  match cutLast sep t with
  | some (_, b) => b
  | none => t

/-- The text without its first and its last code point. -/
def trimEnds (t : Text) : Text := (t.drop 1).dropLast

/-- How often a code point occurs. -/
def countOf (c : CodePoint) (t : Text) : Nat := (t.filter (· == c)).length

/-- The texts one after the other. -/
def concat (ts : List Text) : Text := ts.flatten

/-! ## Laws -/

theorem splitOn_ne_nil (sep : CodePoint) (t : Text) : splitOn sep t ≠ [] := by
  cases t with
  | nil => simp [splitOn]
  | cons c t =>
    rw [splitOn]
    split
    · simp
    · split <;> simp

/-- Joining the pieces restores the text. -/
theorem join_splitOn (sep : CodePoint) (t : Text) : join [sep] (splitOn sep t) = t := by
  induction t with
  | nil => rfl
  | cons c t ih =>
    rw [splitOn]
    split
    · rename_i h
      subst h
      cases hs : splitOn c t with
      | nil => exact absurd hs (splitOn_ne_nil c t)
      | cons p ps => simp [join, ← hs, ih]
    · cases hs : splitOn sep t with
      | nil => exact absurd hs (splitOn_ne_nil sep t)
      | cons p ps =>
        rw [hs] at ih
        cases ps with
        | nil => simpa [join] using ih
        | cons q qs => simpa [join] using ih

/-- A first cut loses only the separator, which the part before lacks. -/
theorem cutFirst_append {sep : CodePoint} {t a b : Text} (h : cutFirst sep t = some (a, b)) :
    t = a ++ sep :: b ∧ sep ∉ a := by
  induction t generalizing a with
  | nil => simp [cutFirst] at h
  | cons c t ih =>
    rw [cutFirst] at h
    split at h
    · rename_i hc
      simp only [Option.some.injEq, Prod.mk.injEq] at h
      obtain ⟨rfl, rfl⟩ := h
      simp [hc]
    · rename_i hc
      obtain ⟨⟨a', b'⟩, hab, heq⟩ := Option.map_eq_some_iff.1 h
      simp only [Prod.mk.injEq] at heq
      obtain ⟨rfl, rfl⟩ := heq
      obtain ⟨ht, hn⟩ := ih hab
      exact ⟨by simp [ht], by simp [hn, Ne.symm hc]⟩

end Text

end ModuleStubs
