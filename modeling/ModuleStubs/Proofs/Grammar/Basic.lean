import Mathlib.Algebra.Group.Nat.Defs
import Mathlib.Data.List.Basic
import Mathlib.Data.List.Induction
import ModuleStubs.Json.Reader
import ModuleStubs.Text.Blank

/-!
# The grammar of JSON texts

Which texts are JSON, and which value each of them denotes, said without a reader. The readers in use
accept two dialects, which differ in the blanks between tokens, in the code points that stand for
themselves in strings and in the escapes by number (`Grammar.Dialect`). Delivered here:

* the tokens: runs of blanks (`Gap`), the inside of a string (`Body`), numerals (`Numeral`);
* `Value`, the derivations of values, and `Document`, a value with blanks around it;
* `Record.lastValues`: what the fields of an object denote where keys are repeated. It is the record of
  all writes one after the other (`Record.ofList_eq_lastValues`).

A list of items, and one of fields, is a first one and later ones with a comma before each, so that
there is neither a comma behind the last one nor two in a row.
-/

set_option autoImplicit false

namespace ModuleStubs

/-! ## Repeated keys -/

namespace Record

variable {α : Type}

/-- The last value of each key, in the order in which the keys first come. -/
def lastValues (writes : List (Text × α)) : Record α :=
  (keys writes).eraseDups.filterMap fun k => (get? k writes.reverse).map fun v => (k, v)

theorem ofList_append (writes : List (Text × α)) (key : Text) (value : α) :
    ofList (writes ++ [(key, value)]) = set key value (ofList writes) := by
  simp [ofList]

theorem keys_append (r s : Record α) : keys (r ++ s) = keys r ++ keys s := List.map_append

/-- The keys of a record of writes, in the order in which they first come. -/
theorem keys_ofList (writes : List (Text × α)) :
    keys (ofList writes) = (keys writes).eraseDups := by
  induction writes using List.reverseRecOn with
  | nil => rfl
  | append_singleton writes w ih =>
      obtain ⟨key, value⟩ := w
      rw [ofList_append, keys_append, List.eraseDups_append, ← ih]
      have hmem : key ∈ keys (ofList writes) ↔ key ∈ keys writes := by
        rw [ih, List.mem_eraseDups]
      -- a key that came before keeps its place, a new one goes to the end
      by_cases hkey : key ∈ keys writes
      · have hnone : (keys [(key, value)]).removeAll (keys writes) = [] := by
          simp [keys, List.removeAll] at hkey ⊢
          exact hkey
        rw [keys_set_of_mem (hmem.2 hkey), hnone]
        simp
      · have hsome : (keys [(key, value)]).removeAll (keys writes) = [key] := by
          simp [keys, List.removeAll] at hkey ⊢
          exact hkey
        rw [keys_set_of_not_mem (mt hmem.1 hkey), hsome]
        rfl

/-- No key of a record of writes is repeated. -/
theorem nodup_keys_ofList (writes : List (Text × α)) : (keys (ofList writes)).Nodup := by
  induction writes using List.reverseRecOn with
  | nil => exact List.nodup_nil
  | append_singleton writes w ih =>
      obtain ⟨key, value⟩ := w
      rw [ofList_append]
      by_cases hkey : key ∈ keys (ofList writes)
      · rwa [keys_set_of_mem hkey]
      · rw [keys_set_of_not_mem hkey]
        refine List.nodup_append.2 ⟨ih, by simp, ?_⟩
        rintro l hl m hm rfl
        exact hkey (List.mem_singleton.1 hm ▸ hl)

/-- The value under a key is the one that was written last. -/
theorem get?_ofList (key : Text) (writes : List (Text × α)) :
    get? key (ofList writes) = get? key writes.reverse := by
  induction writes using List.reverseRecOn with
  | nil => rfl
  | append_singleton writes w ih =>
      obtain ⟨k, value⟩ := w
      rw [ofList_append, get?_set, List.reverse_append, List.reverse_singleton,
        List.singleton_append, get?, ih]

/-- A record without repeated keys is the list of its values by key. -/
theorem eq_filterMap_keys {r : Record α} (h : (keys r).Nodup) :
    r = (keys r).filterMap fun k => (get? k r).map fun v => (k, v) := by
  induction r with
  | nil => rfl
  | cons e r ih =>
      obtain ⟨k, v⟩ := e
      obtain ⟨hk, hr⟩ := List.nodup_cons.1 h
      have hlater : ∀ l ∈ keys r, (get? l ((k, v) :: r)).map (fun v => (l, v)) =
          (get? l r).map fun v => (l, v) := by
        intro l hl
        have hne : k ≠ l := fun heq => hk (heq ▸ hl)
        rw [get?, if_neg hne]
      have hfirst : get? k ((k, v) :: r) = some v := by rw [get?, if_pos rfl]
      change (k, v) :: r = (k :: keys r).filterMap _
      rw [List.filterMap_cons, hfirst, List.filterMap_congr hlater, ← ih hr]
      rfl

/-- Writing one value after the other leaves the last value of each key in the key's first place. -/
theorem ofList_eq_lastValues (writes : List (Text × α)) : ofList writes = lastValues writes := by
  rw [eq_filterMap_keys (nodup_keys_ofList writes), keys_ofList, lastValues]
  refine List.filterMap_congr fun k _ => ?_
  rw [get?_ofList]

end Record

/-! ## Dialects -/

namespace Grammar

/-- What the dialects of JSON differ in. -/
structure Dialect where
  /-- The blanks between tokens. -/
  isGap : CodePoint → Bool
  /-- The code points that may stand for themselves in a string. -/
  isRaw : CodePoint → Bool
  /-- The numbers that an escape may give. -/
  isUnit : Nat → Bool
  /-- Blanks are among the six of ASCII. -/
  isSpace_of_isGap : ∀ c, isGap c = true → isSpace c = true

/-- The dialect of the wire: all six blanks of ASCII, and no restriction on strings. -/
def Dialect.wire : Dialect where
  isGap := isSpace
  isRaw _ := true
  isUnit _ := true
  isSpace_of_isGap _ h := h

/-- Standard JSON: four blanks, no control points in strings, and an escape by number is one code
point, so it gives no half of a surrogate pair. -/
def Dialect.standard : Dialect where
  isGap := Json.isGap
  isRaw c := decide (0x20 ≤ c.val)
  isUnit n := decide (n < 0xD800 ∨ 0xDFFF < n)
  isSpace_of_isGap c h := by
    simp [Json.isGap, isSpace] at h ⊢
    omega

variable (D : Dialect)

/-! ## Tokens -/

/-- A run of blanks. -/
def Gap (t : Text) : Prop := ∀ c ∈ t, D.isGap c = true

theorem gap_nil : Gap D [] := List.forall_mem_nil _

/-- The escapes of one letter, each with the number of the code point it stands for. -/
def letters : List (Char × Nat) :=
  [('"', 34), ('\\', 92), ('/', 47), ('b', 8), ('f', 12), ('n', 10), ('r', 13), ('t', 9)]

/-- The names of values. -/
inductive Name : Text → Json → Prop
  | null : Name (lit "null") .null
  | true : Name (lit "true") (.bool .true)
  | false : Name (lit "false") (.bool .false)
  | nan : Name (lit "NaN") (.float Binary64.nan)
  | infinity : Name (lit "Infinity") (.float (Binary64.infinity .false))
  | negativeInfinity : Name (lit "-Infinity") (.float (Binary64.infinity .true))

/-- What stands between the quotes of a string, and the text that it denotes. -/
inductive Body : Text → Text → Prop
  | nil : Body [] []
  | raw {c : CodePoint} {t s : Text} (hquote : c ≠ '"') (hslash : c ≠ '\\')
      (hraw : D.isRaw c = true) (h : Body t s) : Body (c :: t) (c :: s)
  | letter {e : Char} {n : Nat} {t s : Text} (he : (e, n) ∈ letters) (h : Body t s) :
      Body (CodePoint.ofChar '\\' :: CodePoint.ofChar e :: t) (CodePoint.ofNat n :: s)
  | number {x y z w : CodePoint} {i j k l : Nat} {t s : Text} (hx : x.hexValue? = some i)
      (hy : y.hexValue? = some j) (hz : z.hexValue? = some k) (hw : w.hexValue? = some l)
      (hunit : D.isUnit (((i * 16 + j) * 16 + k) * 16 + l) = true) (h : Body t s) :
      Body (CodePoint.ofChar '\\' :: CodePoint.ofChar 'u' :: x :: y :: z :: w :: t)
        (CodePoint.ofNat (((i * 16 + j) * 16 + k) * 16 + l) :: s)

/-- A string between its quotes. -/
def inQuotes (t : Text) : Text := CodePoint.ofChar '"' :: (t ++ [CodePoint.ofChar '"'])

/-- One or more digits. -/
def Digits (t : Text) : Prop := t ≠ [] ∧ ∀ c ∈ t, c.isDigit = true

/-- The whole part of a numeral: a zero alone, or digits that do not start with a zero. -/
inductive Whole : Text → Prop
  | zero : Whole [CodePoint.ofChar '0']
  | digits {c : CodePoint} {ds : Text} (hc : c ≠ '0') (h : Digits (c :: ds)) : Whole (c :: ds)

/-- A fraction, or nothing, and its digits. -/
inductive Fraction : Text → Option Text → Prop
  | absent : Fraction [] none
  | present {ds : Text} (h : Digits ds) : Fraction (CodePoint.ofChar '.' :: ds) (some ds)

/-- The mark of an exponent. -/
def IsExponentMark (c : CodePoint) : Prop := c = 'e' ∨ c = 'E'

/-- An exponent, or nothing, and its number. -/
inductive Exponent : Text → Option Int → Prop
  | absent : Exponent [] none
  | unsigned {c : CodePoint} {ds : Text} (hc : IsExponentMark c) (h : Digits ds) :
      Exponent (c :: ds) (some (digitsValue ds))
  | plus {c : CodePoint} {ds : Text} (hc : IsExponentMark c) (h : Digits ds) :
      Exponent (c :: CodePoint.ofChar '+' :: ds) (some (digitsValue ds))
  | minus {c : CodePoint} {ds : Text} (hc : IsExponentMark c) (h : Digits ds) :
      Exponent (c :: CodePoint.ofChar '-' :: ds) (some (-(digitsValue ds : Int)))

/-- The sign in front of a numeral. -/
def sign (negative : Bool) : Text := if negative then [CodePoint.ofChar '-'] else []

/-- The number nearest to `n * 10 ^ e`, with a sign. -/
def nearest (negative : Bool) (n : Nat) (e : Int) : Binary64 :=
  Binary64.ofRatio negative (n * 10 ^ e.toNat) (10 ^ (-e).toNat)

/-- Numerals and their numbers: an integer without fraction and exponent, otherwise the binary64 number
nearest to what is written. -/
inductive Numeral : Text → Json → Prop
  | integer {negative : Bool} {w : Text} (hw : Whole w) :
      Numeral (sign negative ++ w)
        (.int (if negative then -(digitsValue w : Int) else digitsValue w))
  | decimal {negative : Bool} {w f e : Text} {fraction : Option Text} {exponent : Option Int}
      (hw : Whole w) (hf : Fraction f fraction) (he : Exponent e exponent)
      (hsome : fraction.isSome ∨ exponent.isSome) :
      Numeral (sign negative ++ (w ++ (f ++ e)))
        (.float (nearest negative (digitsValue (w ++ fraction.getD []))
          (exponent.getD 0 - (fraction.getD []).length)))

/-! ## Values -/

/-- A value inside a list, or behind the colon of a field: its text and the blanks around it. -/
structure Item where
  before : Text
  text : Text
  value : Json
  after : Text

/-- The text of an item with the blanks around it. -/
def Item.padded (i : Item) : Text := i.before ++ (i.text ++ i.after)

/-- There is nothing but blanks around the item. -/
def Item.HasGaps (i : Item) : Prop := Gap D i.before ∧ Gap D i.after

/-- A field of an object: the inside of its name, the name itself, the blanks around it, and the value
behind the colon. -/
structure Field where
  before : Text
  body : Text
  name : Text
  after : Text
  item : Item

/-- The text of a field with the blanks around it. -/
def Field.padded (f : Field) : Text :=
  f.before ++ (inQuotes f.body ++ (f.after ++ CodePoint.ofChar ':' :: f.item.padded))

/-- The field has a name, and nothing but blanks around its parts. -/
def Field.IsNamed (f : Field) : Prop :=
  Gap D f.before ∧ Body D f.body f.name ∧ Gap D f.after ∧ f.item.HasGaps D

/-- The name and the value of a field. -/
def Field.entry (f : Field) : Text × Json := (f.name, f.item.value)

/-- The items behind the first one, with a comma before each. -/
def laterItems (items : List Item) : Text :=
  items.flatMap fun i => CodePoint.ofChar ',' :: i.padded

/-- The fields behind the first one, with a comma before each. -/
def laterFields (fields : List Field) : Text :=
  fields.flatMap fun f => CodePoint.ofChar ',' :: f.padded

/-- The text is a value, and denotes it. -/
inductive Value : Text → Json → Prop
  | name {t : Text} {v : Json} (h : Name t v) : Value t v
  | numeral {t : Text} {v : Json} (h : Numeral t v) : Value t v
  | string {t s : Text} (h : Body D t s) : Value (inQuotes t) (.str s)
  | emptyList {g : Text} (h : Gap D g) :
      Value (CodePoint.ofChar '[' :: (g ++ [CodePoint.ofChar ']'])) (.list [])
  | list {i : Item} {is : List Item} (hgaps : ∀ j ∈ i :: is, j.HasGaps D)
      (h : ∀ j ∈ i :: is, Value j.text j.value) :
      Value (CodePoint.ofChar '[' :: (i.padded ++ (laterItems is ++ [CodePoint.ofChar ']'])))
        (.list ((i :: is).map Item.value))
  | emptyObject {g : Text} (h : Gap D g) :
      Value (CodePoint.ofChar '\x7b' :: (g ++ [CodePoint.ofChar '\x7d'])) (.object [])
  | object {f : Field} {fs : List Field} (hnamed : ∀ g ∈ f :: fs, g.IsNamed D)
      (h : ∀ g ∈ f :: fs, Value g.item.text g.item.value) :
      Value (CodePoint.ofChar '\x7b' :: (f.padded ++ (laterFields fs ++ [CodePoint.ofChar '\x7d'])))
        (.object (Record.lastValues ((f :: fs).map Field.entry)))

/-- The text is a value with blanks around it, and denotes the value. -/
def Document (t : Text) (v : Json) : Prop :=
  ∃ before text after, Gap D before ∧ Value D text v ∧ Gap D after ∧
    t = before ++ (text ++ after)

end Grammar

end ModuleStubs
