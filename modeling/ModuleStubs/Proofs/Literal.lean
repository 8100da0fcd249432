import ModuleStubs.Proofs.Json.Canonical
import ModuleStubs.Proofs.Json.Documents
import ModuleStubs.Proofs.Number.Layout
import ModuleStubs.Proofs.Wire.ChunkLines

/-!
# Literals read back

A reader of Python literals (`read?`): the three names, numerals, strings between quotes of either kind
with the escapes of the language, lists, and dictionaries whose keys are strings. The literal of a value
is read as the value, and nothing behind it is touched (`read?_literal`), unless a number in it is not
finite: the texts of those are names of the language, not literals, and nothing is read. A string is read
from more code points than it has (`length_read?_str`), so that no text is a literal of itself.
-/

set_option autoImplicit false

namespace ModuleStubs

namespace Json

/-- The value is no number, or a finite one. -/
def isFiniteNumber : Json → Bool
  | .float x => x.isFinite
  | _ => true

/-- All numbers in the value are finite. -/
def hasFiniteNumbers (v : Json) : Bool := v.every isFiniteNumber

theorem hasFiniteNumbers_list (items : List Json) :
    (Json.list items).hasFiniteNumbers = items.all hasFiniteNumbers := by
  rw [Bool.eq_iff_iff, hasFiniteNumbers, every_list, List.all_eq_true]
  exact and_iff_right rfl

theorem hasFiniteNumbers_object (fields : Record Json) :
    (Json.object fields).hasFiniteNumbers = fields.all fun f => f.2.hasFiniteNumbers := by
  rw [Bool.eq_iff_iff, hasFiniteNumbers, every_object, List.all_eq_true]
  exact and_iff_right rfl

end Json

namespace Literal

open Json (skipGap numeral? endsNumeral)
open Grammar (Numeral Solid)

/-! ## The reader -/

/-- The number that starts with the digits of `value` and goes on with `width` hexadecimal digits. -/
def hexDigits? : (width value : Nat) → Text → Option Nat
  | 0, value, _ => some value
  | _ + 1, _, [] => none
  | width + 1, value, c :: t =>
    match c.hexValue? with
    | none => none
    | some d => hexDigits? width (value * 16 + d) t

/-- The escapes that are one letter, with the numbers of their code points. -/
def letters : List (CodePoint × Nat) :=
  [('\\', 92), ('\'', 39), ('"', 34), ('n', 10), ('r', 13), ('t', 9), ('a', 7), ('b', 8), ('f', 12),
    ('v', 11)]

/-- The letters that stand before a number, with the counts of its digits. -/
def numberWidths : List (CodePoint × Nat) := [('x', 2), ('u', 4), ('U', 8)]

/-- The code point of an escape after its backslash, by its letter and the text behind it, and how many
code points of that text it takes. -/
def escape? (e : CodePoint) (t : Text) : Option (CodePoint × Nat) :=
  match letters.lookup e with
  | some n => some (CodePoint.ofNat n, 0)
  | none =>
    match numberWidths.lookup e with
    | none => none
    | some width =>
      match hexDigits? width 0 t with
      | none => none
      | some n => if n < 0x110000 then some (CodePoint.ofNat n, width) else none

/-- Quotes of either kind. -/
def isQuote (c : CodePoint) : Bool := c = '\'' || c = '"'

/-- The string after its opening quote, and the rest after the closing one. The first `known` code points
belong to an escape that was read already. -/
def stringBody (quote : CodePoint) : (known : Nat) → Text → Option (Text × Text)
  | _, [] => none
  | known + 1, _ :: t => stringBody quote known t
  | 0, c :: t =>
    if c = quote then some ([], t)
    else if c = '\\' then
      match t with
      | [] => none
      | e :: r =>
        match escape? e r with
        | none => none
        | some (p, width) => (stringBody quote width r).map fun (s, rest) => (p :: s, rest)
    else if c = '\n' ∨ c = '\r' then none
    else (stringBody quote 0 t).map fun (s, rest) => (c :: s, rest)

/-- The names that are values. -/
def names : List (Text × Json) :=
  [(lit "None", .null), (lit "True", .bool true), (lit "False", .bool false)]

/-- The value of a name at the start of a text, and the rest. -/
def named? (t : Text) : Option (Json × Text) :=
  names.findSome? fun (name, v) => (Text.afterPrefix? name t).map fun rest => (v, rest)

/-- The parts of a container after its opening bracket: none where the closing one follows, otherwise what
is read from the first of them on. -/
def parts {α : Type} (close : CodePoint) (read : Text → Option (List α × Text)) (t : Text) :
    Option (List α × Text) :=
  match skipGap t with
  | [] => none
  | c :: r => if c = close then some ([], r) else read (c :: r)

/-- What follows a part of a container: the closing bracket, and then the part was the last one, or a comma
and what is read behind it. -/
def further {α : Type} (close : CodePoint) (last : α) (next : Text → Option (α × Text)) (t : Text) :
    Option (α × Text) :=
  match skipGap t with
  | [] => none
  | c :: r => if c = close then some (last, r) else if c = ',' then next (skipGap r) else none

mutual

/-- The value at the start of a text, and the rest. -/
def readValue : (fuel : Nat) → Text → Option (Json × Text)
  | 0, _ => none
  | fuel + 1, t =>
    match numeral? t with
    | some r => some r
    | none =>
      match t with
      | [] => none
      | c :: r =>
        if isQuote c then (stringBody c 0 r).map fun (s, rest) => (.str s, rest)
        else if c = '[' then
          (parts ']' (readItems fuel) r).map fun (vs, rest) => (.list vs, rest)
        else if c = '\x7b' then
          (parts '\x7d' (readFields fuel []) r).map fun (fs, rest) => (.object fs, rest)
        else named? t

/-- The items of a list from one item on, and the rest after the closing bracket. -/
def readItems : (fuel : Nat) → Text → Option (List Json × Text)
  | 0, _ => none
  | fuel + 1, t =>
    (readValue fuel t).bind fun (v, rest) =>
      further ']' [v] (fun u => (readItems fuel u).map fun (vs, rest) => (v :: vs, rest)) rest

/-- The fields of a dictionary from one field on, added to those before, and the rest after the closing
brace. -/
def readFields : (fuel : Nat) → Record Json → Text → Option (Record Json × Text)
  | 0, _, _ => none
  | _ + 1, _, [] => none
  | fuel + 1, fields, c :: t =>
    if isQuote c then
      (stringBody c 0 t).bind fun (key, rest) =>
        match skipGap rest with
        | [] => none
        | d :: r =>
          if d = ':' then
            (readValue fuel (skipGap r)).bind fun (v, rest) =>
              further '\x7d' (Record.set key v fields) (readFields fuel (Record.set key v fields)) rest
          else none
    else none

end

/-- The value of the literal at the start of a text, and the rest. -/
def read? (t : Text) : Option (Json × Text) := readValue (2 * t.length) t

/-! ## Strings -/

theorem length_hexFixed (width n : Nat) : (Text.hexFixed width n).length = width := by
  induction width generalizing n with
  | zero => rfl
  | succ width ih => simp [Text.hexFixed, ih]

/-- Digits that were written first are read first. -/
theorem hexDigits?_hexFixed (width more value n : Nat) (t : Text) :
    hexDigits? (width + more) value (Text.hexFixed width n ++ t) =
      hexDigits? more (value * 16 ^ width + n % 16 ^ width) t := by
  induction width generalizing more n t with
  | zero => simp [Text.hexFixed, Nat.mod_one]
  | succ width ih =>
      have hvalue : (value * 16 ^ width + n / 16 % 16 ^ width) * 16 + n % 16 =
          value * 16 ^ (width + 1) + n % 16 ^ (width + 1) := by
        rw [Nat.pow_succ, Nat.mul_comm (16 ^ width) 16, Nat.mod_mul, ← Nat.mul_assoc,
          Nat.mul_right_comm]
        omega
      rw [Text.hexFixed, List.append_assoc, Nat.add_assoc, Nat.add_comm 1 more, ih]
      change hexDigits? (more + 1) _ (Text.hexDigit (n % 16) :: t) = _
      rw [hexDigits?, Text.hexValue?_hexDigit (Nat.mod_lt n (by decide))]
      exact congrArg (hexDigits? more · t) hvalue

/-- The number of an escape is the one that was written. -/
theorem escape?_hexFixed {e : CodePoint} {width : Nat} (hletter : letters.lookup e = none)
    (hwidth : numberWidths.lookup e = some width) {c : CodePoint} (hc : c.val < 16 ^ width) (t : Text) :
    escape? e (Text.hexFixed width c.val ++ t) = some (c, width) := by
  have hdigits : hexDigits? width 0 (Text.hexFixed width c.val ++ t) = some c.val := by
    have h := hexDigits?_hexFixed width 0 0 c.val t
    rwa [Nat.zero_mul, Nat.zero_add, Nat.mod_eq_of_lt hc] at h
  rw [escape?, hletter, hwidth]
  simp only [hdigits, c.isLt, if_true, CodePoint.ofNat_val]

section Body

variable {quote : CodePoint}

/-- The digits of an escape are passed over. -/
theorem stringBody_known (digits t : Text) :
    stringBody quote digits.length (digits ++ t) = stringBody quote 0 t := by
  induction digits with
  | nil => rfl
  | cons c digits ih =>
      rw [List.length_cons, List.cons_append, stringBody.eq_def]
      exact ih

/-- An escape is one code point. -/
theorem stringBody_escape {e p : CodePoint} {digits t : Text} (hquote : quote ≠ '\\')
    (h : escape? e (digits ++ t) = some (p, digits.length)) :
    stringBody quote 0 (CodePoint.ofChar '\\' :: e :: (digits ++ t)) =
      (stringBody quote 0 t).map fun (s, rest) => (p :: s, rest) := by
  rw [stringBody.eq_def]
  simp only [if_neg hquote.symm, if_true, h, stringBody_known]

theorem stringBody_letter {e c : CodePoint} {n : Nat} (hquote : quote ≠ '\\')
    (h : letters.lookup e = some n) (hc : CodePoint.ofNat n = c) (t : Text) :
    stringBody quote 0 (CodePoint.ofChar '\\' :: e :: t) =
      (stringBody quote 0 t).map fun (s, rest) => (c :: s, rest) := by
  have hescape : escape? e ([] ++ t) = some (c, 0) := by
    rw [← hc, escape?, h]
  exact stringBody_escape hquote hescape

theorem stringBody_hexEscape (hquote : quote ≠ '\\') (c : CodePoint) (t : Text) :
    stringBody quote 0 (Text.hexEscape c ++ t) =
      (stringBody quote 0 t).map fun (s, rest) => (c :: s, rest) := by
  -- one escape by the letter and the count of digits that go with it
  have hescape : ∀ (e : CodePoint) (width : Nat), letters.lookup e = none →
      numberWidths.lookup e = some width → c.val < 16 ^ width →
      stringBody quote 0 (CodePoint.ofChar '\\' :: e :: (Text.hexFixed width c.val ++ t)) =
        (stringBody quote 0 t).map fun (s, rest) => (c :: s, rest) := by
    intro e width hletter hwidth hc
    refine stringBody_escape hquote ?_
    rw [length_hexFixed]
    exact escape?_hexFixed hletter hwidth hc t
  have hlt := c.isLt
  rw [Text.hexEscape]
  split
  · exact hescape 'x' 2 rfl rfl (by omega)
  · split
    · exact hescape 'u' 4 rfl rfl (by omega)
    · exact hescape 'U' 8 rfl rfl (by omega)

theorem stringBody_raw {c : CodePoint} (hquote : c ≠ quote) (hslash : c ≠ '\\') (hfeed : c ≠ '\n')
    (hreturn : c ≠ '\r') (t : Text) :
    stringBody quote 0 (c :: t) = (stringBody quote 0 t).map fun (s, rest) => (c :: s, rest) := by
  rw [stringBody.eq_def]
  simp only [if_neg hquote, if_neg hslash, if_neg (not_or.2 ⟨hfeed, hreturn⟩)]

/-- A code point that was written between quotes is read back. -/
theorem stringBody_quotedPoint (hquote : isQuote quote = true) (c : CodePoint) (t : Text) :
    stringBody quote 0 (Text.quotedPoint quote c ++ t) =
      (stringBody quote 0 t).map fun (s, rest) => (c :: s, rest) := by
  have hquotes : quote = '\'' ∨ quote = '"' := by simpa [isQuote] using hquote
  have hslash : quote ≠ '\\' := by rcases hquotes with rfl | rfl <;> decide
  rw [Text.quotedPoint]
  split
  · rename_i hc
    -- the quote and the backslash stand for themselves behind a backslash
    rcases hc with rfl | rfl
    · rcases hquotes with rfl | rfl
      · exact stringBody_letter (n := 39) hslash rfl rfl t
      · exact stringBody_letter (n := 34) hslash rfl rfl t
    · exact stringBody_letter (n := 92) hslash rfl rfl t
  · rename_i hplain
    obtain ⟨hne, hback⟩ := not_or.1 hplain
    split
    · rename_i hfeed
      rw [hfeed]
      exact stringBody_letter (n := 10) hslash rfl rfl t
    · rename_i hfeed
      split
      · rename_i hreturn
        rw [hreturn]
        exact stringBody_letter (n := 13) hslash rfl rfl t
      · rename_i hreturn
        split
        · rename_i htab
          rw [htab]
          exact stringBody_letter (n := 9) hslash rfl rfl t
        · split
          · exact stringBody_raw hne hback hfeed hreturn t
          · exact stringBody_hexEscape hslash c t

theorem stringBody_flatMap (hquote : isQuote quote = true) (s rest : Text) :
    stringBody quote 0 (s.flatMap (Text.quotedPoint quote) ++ quote :: rest) = some (s, rest) := by
  induction s with
  | nil =>
      rw [List.flatMap_nil, List.nil_append, stringBody.eq_def]
      exact if_pos rfl
  | cons c s ih =>
      rw [List.flatMap_cons, List.append_assoc, stringBody_quotedPoint hquote, ih]
      rfl

end Body

theorem isQuote_quoteFor (s : Text) : isQuote (Text.quoteFor s) = true := by
  rw [Text.quoteFor]
  split
  · rfl
  · rfl

theorem quoted_append (s rest : Text) :
    Text.quoted s ++ rest =
      Text.quoteFor s ::
        (s.flatMap (Text.quotedPoint (Text.quoteFor s)) ++ Text.quoteFor s :: rest) := by
  simp [Text.quoted]

/-- A string has fewer code points than the text from its opening quote to the rest. -/
theorem length_stringBody {quote : CodePoint} {known : Nat} {t s rest : Text}
    (h : stringBody quote known t = some (s, rest)) : s.length + rest.length < t.length := by
  fun_induction stringBody quote known t generalizing s with
  | case1 | case4 | case5 | case7 => contradiction
  | case2 known c t ih => exact Nat.lt_succ_of_lt (ih h)
  | case3 t =>
      cases h
      simp
  | case6 e r p width _ _ ih =>
      obtain ⟨⟨s', rest'⟩, hbody, heq⟩ := Option.map_eq_some_iff.1 h
      cases heq
      have hlt := ih hbody
      simp only [List.length_cons]
      omega
  | case8 c t _ _ _ ih =>
      obtain ⟨⟨s', rest'⟩, hbody, heq⟩ := Option.map_eq_some_iff.1 h
      cases heq
      have hlt := ih hbody
      simp only [List.length_cons]
      omega

/-- A string is read from two code points more than it has, at the least. -/
theorem length_readValue_str {fuel : Nat} {t s rest : Text}
    (h : readValue fuel t = some (.str s, rest)) : s.length + rest.length + 2 ≤ t.length := by
  cases fuel with
  | zero => simp [readValue] at h
  | succ fuel =>
      rw [readValue.eq_def] at h
      simp only at h
      split at h
      · rename_i hnumeral
        cases h
        obtain ⟨p, -, hp⟩ := Grammar.numeral_of_numeral? hnumeral
        cases hp
      · split at h
        · contradiction
        · split at h
          · obtain ⟨⟨s', rest'⟩, hbody, heq⟩ := Option.map_eq_some_iff.1 h
            obtain ⟨heq, rfl⟩ := Prod.mk.inj heq
            cases heq
            exact Nat.succ_le_succ (length_stringBody hbody)
          · -- lists, dictionaries and names are no strings
            split at h
            · obtain ⟨_, _, heq⟩ := Option.map_eq_some_iff.1 h
              cases heq
            · split at h
              · obtain ⟨_, _, heq⟩ := Option.map_eq_some_iff.1 h
                cases heq
              · obtain ⟨⟨name, v⟩, hmem, hsome⟩ := List.exists_of_findSome?_eq_some h
                obtain ⟨r', -, heq⟩ := Option.map_eq_some_iff.1 hsome
                obtain ⟨rfl, rfl⟩ := Prod.mk.inj heq
                simp [names] at hmem

/-! ## Texts of containers -/

/-- The items behind the first one, with a comma before each. -/
def laterItems : List Json → Text
  | [] => []
  | v :: vs => lit ", " ++ (v.literal ++ laterItems vs)

/-- The fields behind the first one, with a comma before each. -/
def laterFields : List (Text × Json) → Text
  | [] => []
  | (k, v) :: fs => lit ", " ++ (Text.quoted k ++ (lit ": " ++ (v.literal ++ laterFields fs)))

theorem join_itemLiterals (v : Json) (vs : List Json) :
    Text.join (lit ", ") (Json.itemLiterals (v :: vs)) = v.literal ++ laterItems vs := by
  induction vs generalizing v with
  | nil => simp [Json.itemLiterals, Text.join, laterItems]
  | cons w ws ih =>
      rw [Json.itemLiterals, Json.itemLiterals, Text.join_cons_cons, ← Json.itemLiterals, ih,
        laterItems, List.append_assoc]

theorem join_fieldLiterals (k : Text) (v : Json) (fs : List (Text × Json)) :
    Text.join (lit ", ") (Json.fieldLiterals ((k, v) :: fs)) =
      Text.quoted k ++ (lit ": " ++ (v.literal ++ laterFields fs)) := by
  induction fs generalizing k v with
  | nil => simp [Json.fieldLiterals, Text.join, laterFields]
  | cons f fs ih =>
      obtain ⟨l, w⟩ := f
      rw [Json.fieldLiterals, Json.fieldLiterals, Text.join_cons_cons, ← Json.fieldLiterals, ih,
        laterFields]
      simp only [List.append_assoc]

theorem literal_list_append (v : Json) (vs : List Json) (rest : Text) :
    (Json.list (v :: vs)).literal ++ rest =
      CodePoint.ofChar '[' :: (v.literal ++ (laterItems vs ++ CodePoint.ofChar ']' :: rest)) := by
  rw [Json.literal, join_itemLiterals]
  simp [lit]

theorem literal_object_append (k : Text) (v : Json) (fs : List (Text × Json)) (rest : Text) :
    (Json.object ((k, v) :: fs)).literal ++ rest =
      CodePoint.ofChar '\x7b' :: (Text.quoted k ++ (lit ": " ++
        (v.literal ++ (laterFields fs ++ CodePoint.ofChar '\x7d' :: rest)))) := by
  rw [Json.literal, join_fieldLiterals]
  simp [lit]

theorem endsNumeral_laterItems (vs : List Json) (rest : Text) :
    endsNumeral (laterItems vs ++ CodePoint.ofChar ']' :: rest) = true := by
  cases vs <;> rfl

theorem endsNumeral_laterFields (fs : List (Text × Json)) (rest : Text) :
    endsNumeral (laterFields fs ++ CodePoint.ofChar '\x7d' :: rest) = true := by
  cases fs <;> rfl

/-- A literal starts neither with a blank nor with the end of a list. -/
theorem solid_literal (v : Json) (rest : Text) : Solid .standard (v.literal ++ rest) := by
  cases v with
  | null => exact ⟨_, _, rfl, by decide, by decide, by decide⟩
  | bool b => cases b <;> exact ⟨_, _, rfl, by decide, by decide, by decide⟩
  | int n => exact (Grammar.Value.numeral (Wire.numeral_decimalInt n)).solid rest
  | float x =>
      rw [Json.literal]
      cases hparts : x.parts with
      | nan =>
          rw [Binary64.text, hparts]
          exact ⟨_, _, rfl, by decide, by decide, by decide⟩
      | infinite negative =>
          rw [Binary64.text, hparts]
          cases negative <;> exact ⟨_, _, rfl, by decide, by decide, by decide⟩
      | finite negative m e => exact (Grammar.Value.numeral (Binary64.numeral_text hparts)).solid rest
  | str s =>
      have hquotes : Text.quoteFor s = '\'' ∨ Text.quoteFor s = '"' := by
        simpa [isQuote] using isQuote_quoteFor s
      rw [Json.literal, quoted_append]
      refine ⟨_, _, rfl, ?_⟩
      rcases hquotes with h | h <;> rw [h] <;> decide
  | list items => cases items <;> exact ⟨_, _, rfl, by decide, by decide, by decide⟩
  | object fields => cases fields <;> exact ⟨_, _, rfl, by decide, by decide, by decide⟩

/-! ## Steps of the reader -/

theorem readValue_numeral {p rest : Text} {v : Json} (h : Numeral p v) (hrest : endsNumeral rest = true)
    (fuel : Nat) : readValue (fuel + 1) (p ++ rest) = some (v, rest) := by
  rw [readValue.eq_def]
  simp only [Grammar.numeral?_of_numeral h hrest]

theorem readValue_quoted (s rest : Text) (fuel : Nat) :
    readValue (fuel + 1) (Text.quoted s ++ rest) = some (.str s, rest) := by
  have hquote := isQuote_quoteFor s
  have hnumeral : ∀ t, numeral? (Text.quoteFor s :: t) = none := by
    intro t
    have hquotes : Text.quoteFor s = '\'' ∨ Text.quoteFor s = '"' := by simpa [isQuote] using hquote
    rcases hquotes with h | h <;> rw [h] <;> rfl
  rw [quoted_append, readValue.eq_def]
  simp only [hnumeral, hquote, if_true, stringBody_flatMap hquote]
  rfl

theorem parts_of_ne {α : Type} {close c : CodePoint} {t r : Text}
    {read : Text → Option (List α × Text)} (ht : skipGap t = c :: r) (hc : c ≠ close) :
    parts close read t = read (c :: r) := by
  rw [parts, ht]
  exact if_neg hc

theorem readValue_items {t : Text} (ht : Solid .standard t) (fuel : Nat) :
    readValue (fuel + 1) (CodePoint.ofChar '[' :: t) =
      (readItems fuel t).map fun (vs, rest) => (.list vs, rest) := by
  have hskip : skipGap t = t := Json.skipGap_solid ht (Grammar.gap_nil _)
  obtain ⟨c, r, rfl, -, hend, -⟩ := ht
  rw [readValue.eq_def]
  change (parts ']' (readItems fuel) (c :: r)).map _ = _
  rw [parts_of_ne hskip hend]

theorem readValue_fields (k t : Text) (fuel : Nat) :
    readValue (fuel + 1) (CodePoint.ofChar '\x7b' :: (Text.quoted k ++ t)) =
      (readFields fuel [] (Text.quoted k ++ t)).map fun (fs, rest) => (.object fs, rest) := by
  have hsolid : Solid .standard (Text.quoted k ++ t) := solid_literal (.str k) t
  have hskip : skipGap (Text.quoted k ++ t) = Text.quoted k ++ t :=
    Json.skipGap_solid hsolid (Grammar.gap_nil _)
  have hend : Text.quoteFor k ≠ '\x7d' := by
    intro h
    have hquote := isQuote_quoteFor k
    rw [h] at hquote
    contradiction
  rw [quoted_append] at hskip ⊢
  rw [readValue.eq_def]
  change (parts '\x7d' (readFields fuel []) _).map _ = _
  rw [parts_of_ne hskip hend]

theorem skipGap_blank {t : Text} (ht : Solid .standard t) :
    skipGap ([CodePoint.ofChar ' '] ++ t) = t :=
  Json.skipGap_solid ht (Json.gap_blank (Grammar.gap_nil _))

theorem further_comma {α : Type} {close : CodePoint} {last : α} {next : Text → Option (α × Text)}
    {t : Text} (hclose : close ≠ ',') (ht : Solid .standard t) :
    further close last next (lit ", " ++ t) = next t := by
  have hcomma : skipGap (lit ", " ++ t) = CodePoint.ofChar ',' :: ([CodePoint.ofChar ' '] ++ t) := rfl
  rw [further, hcomma]
  simp only [if_neg hclose.symm, if_true, skipGap_blank ht]

/-- A key that is new is added with its value behind the fields before. -/
theorem readFields_quoted {fields : Record Json} {k t : Text} (hnew : k ∉ Record.keys fields)
    (ht : Solid .standard t) (fuel : Nat) :
    readFields (fuel + 1) fields (Text.quoted k ++ (lit ": " ++ t)) =
      (readValue fuel t).bind fun (v, rest) =>
        further '\x7d' (fields ++ [(k, v)]) (readFields fuel (fields ++ [(k, v)])) rest := by
  rw [quoted_append, readFields]
  simp only [isQuote_quoteFor, if_true, stringBody_flatMap (isQuote_quoteFor k), Option.bind_some]
  change (readValue fuel (skipGap ([CodePoint.ofChar ' '] ++ t))).bind _ = _
  simp only [skipGap_blank ht, Record.set_of_not_mem hnew]

/-! ## Values -/

mutual

/-- The literal of a value is read as the value where no more of a numeral follows, unless a number in it
is not finite. -/
theorem readValue_literal :
    ∀ (v : Json) (fuel : Nat) (rest : Text), v.every Json.isCanonical = true →
      endsNumeral rest = true → 2 * v.literal.length ≤ fuel →
      readValue fuel (v.literal ++ rest) = if v.hasFiniteNumbers then some (v, rest) else none
  | .null, _ + 1, _, _, _, _ => rfl
  | .bool true, _ + 1, _, _, _, _ => rfl
  | .bool false, _ + 1, _, _, _, _ => rfl
  | .int n, fuel + 1, _, _, hrest, _ => readValue_numeral (Wire.numeral_decimalInt n) hrest fuel
  | .float x, fuel + 1, rest, _, hrest, _ => by
      have hfinite : (Json.float x).hasFiniteNumbers = x.isFinite := rfl
      rw [hfinite, Json.literal, Binary64.isFinite]
      cases hparts : x.parts with
      | nan =>
          rw [Binary64.text, hparts]
          rfl
      | infinite negative =>
          rw [Binary64.text, hparts]
          cases negative <;> rfl
      | finite negative m e => exact readValue_numeral (Binary64.numeral_text hparts) hrest fuel
  | .str s, fuel + 1, rest, _, _, _ => readValue_quoted s rest fuel
  | .list [], _ + 1, _, _, _, _ => rfl
  | .list (v :: vs), fuel, rest, hv, _, hfuel => by
      obtain ⟨hv, hvs⟩ := List.forall_mem_cons.1 (Json.every_list.1 hv).2
      have hlength := congrArg List.length (literal_list_append v vs [])
      simp only [List.length_append, List.length_cons, List.length_nil] at hlength
      obtain ⟨fuel, rfl⟩ : ∃ f, fuel = f + 2 := ⟨fuel - 2, by omega⟩
      -- one step of fuel for the bracket, one for the first item
      have hfirst := readValue_literal v fuel _ hv (endsNumeral_laterItems vs rest) (by omega)
      have hitems := readItems_laterItems vs v _ fuel _ rest hvs (by omega) hfirst
      rw [literal_list_append, readValue_items (solid_literal v _), hitems, Json.hasFiniteNumbers_list,
        List.all_cons]
      cases v.hasFiniteNumbers && vs.all Json.hasFiniteNumbers <;> rfl
  | .object [], _ + 1, _, _, _, _ => rfl
  | .object ((k, v) :: fs), fuel, rest, hv, _, hfuel => by
      obtain ⟨hkeys, hvalues⟩ := Json.every_object.1 hv
      obtain ⟨hv, hfs⟩ := List.forall_mem_cons.1 hvalues
      have hlength := congrArg List.length (literal_object_append k v fs [])
      simp only [List.length_append, List.length_cons, List.length_nil] at hlength
      obtain ⟨fuel, rfl⟩ : ∃ f, fuel = f + 2 := ⟨fuel - 2, by omega⟩
      have hfirst := readValue_literal v fuel _ hv (endsNumeral_laterFields fs rest) (by omega)
      have hfields := readFields_laterFields fs [] k v _ fuel _ rest (of_decide_eq_true hkeys) hfs
        (by omega) (solid_literal v _) hfirst
      rw [literal_object_append, readValue_fields, hfields, Json.hasFiniteNumbers_object, List.all_cons]
      cases v.hasFiniteNumbers && fs.all fun f => f.2.hasFiniteNumbers <;> rfl
  | v, 0, rest, _, _, hfuel => by
      obtain ⟨c, r, hsolid, -⟩ := solid_literal v []
      have hlength := congrArg List.length hsolid
      simp only [List.append_nil, List.length_cons] at hlength
      omega

/-- An item and those behind it are read, if the item is read where it stands. -/
theorem readItems_laterItems :
    ∀ (vs : List Json) (v : Json) (finite : Bool) (fuel : Nat) (t rest : Text),
      (∀ w ∈ vs, w.every Json.isCanonical = true) → 2 * (laterItems vs).length ≤ fuel →
      readValue fuel t =
        (if finite then some (v, laterItems vs ++ CodePoint.ofChar ']' :: rest) else none) →
      readItems (fuel + 1) t =
        if finite && vs.all Json.hasFiniteNumbers then some (v :: vs, rest) else none
  | vs, v, false, fuel, t, rest, _, _, h => by
      rw [readItems, h]
      rfl
  | [], v, true, fuel, t, rest, _, _, h => by
      rw [readItems, h]
      rfl
  | w :: ws, v, true, fuel, t, rest, hvs, hfuel, h => by
      obtain ⟨hw, hws⟩ := List.forall_mem_cons.1 hvs
      have hcomma : (lit ", ").length = 2 := rfl
      simp only [laterItems, List.length_append] at hfuel
      obtain ⟨fuel, rfl⟩ : ∃ f, fuel = f + 1 := ⟨fuel - 1, by omega⟩
      have hfirst := readValue_literal w fuel _ hw (endsNumeral_laterItems ws rest) (by omega)
      have hitems := readItems_laterItems ws w _ fuel _ rest hws (by omega) hfirst
      rw [readItems, h, if_pos rfl, Option.bind_some, laterItems, List.append_assoc, List.append_assoc]
      change further ']' [v] _ (lit ", " ++ _) = _
      rw [further_comma (by decide) (solid_literal w _), hitems, Bool.true_and, List.all_cons]
      cases w.hasFiniteNumbers && ws.all Json.hasFiniteNumbers <;> rfl

/-- A field and those behind it are read, if its value is read where it stands. -/
theorem readFields_laterFields :
    ∀ (fs : List (Text × Json)) (fields : Record Json) (k : Text) (v : Json) (finite : Bool)
      (fuel : Nat) (t rest : Text), (Record.keys (fields ++ (k, v) :: fs)).Nodup →
      (∀ f ∈ fs, f.2.every Json.isCanonical = true) → 2 * (laterFields fs).length ≤ fuel →
      Solid .standard t →
      readValue fuel t =
        (if finite then some (v, laterFields fs ++ CodePoint.ofChar '\x7d' :: rest) else none) →
      readFields (fuel + 1) fields (Text.quoted k ++ (lit ": " ++ t)) =
        if finite && fs.all fun f => f.2.hasFiniteNumbers then some (fields ++ (k, v) :: fs, rest)
        else none
  | fs, fields, k, v, false, fuel, t, rest, hkeys, _, _, ht, h => by
      rw [readFields_quoted (Record.not_mem_keys_of_nodup hkeys) ht, h]
      rfl
  | [], fields, k, v, true, fuel, t, rest, hkeys, _, _, ht, h => by
      rw [readFields_quoted (Record.not_mem_keys_of_nodup hkeys) ht, h]
      rfl
  | (l, w) :: fs, fields, k, v, true, fuel, t, rest, hkeys, hfs, hfuel, ht, h => by
      obtain ⟨hw, hfs⟩ := List.forall_mem_cons.1 hfs
      have hcomma : (lit ", ").length = 2 := rfl
      simp only [laterFields, List.length_append] at hfuel
      obtain ⟨fuel, rfl⟩ : ∃ f, fuel = f + 1 := ⟨fuel - 1, by omega⟩
      -- the field just read is now the last one of those before
      have hkeys' : (Record.keys ((fields ++ [(k, v)]) ++ (l, w) :: fs)).Nodup := by
        rwa [List.append_assoc]
      have hfirst := readValue_literal w fuel _ hw (endsNumeral_laterFields fs rest) (by omega)
      have hfields := readFields_laterFields fs (fields ++ [(k, v)]) l w _ fuel _ rest hkeys' hfs
        (by omega) (solid_literal w _) hfirst
      have htext : laterFields ((l, w) :: fs) ++ CodePoint.ofChar '\x7d' :: rest =
          lit ", " ++ (Text.quoted l ++ (lit ": " ++
            (w.literal ++ (laterFields fs ++ CodePoint.ofChar '\x7d' :: rest)))) := by
        simp only [laterFields, List.append_assoc]
      have hsolid : Solid .standard (Text.quoted l ++ (lit ": " ++
          (w.literal ++ (laterFields fs ++ CodePoint.ofChar '\x7d' :: rest)))) := solid_literal (.str l) _
      rw [readFields_quoted (Record.not_mem_keys_of_nodup hkeys) ht, h, if_pos rfl, Option.bind_some, htext]
      change further '\x7d' (fields ++ [(k, v)]) _ (lit ", " ++ _) = _
      rw [further_comma (by decide) hsolid, hfields, Bool.true_and, List.all_cons, List.append_assoc]
      rfl

end

/-- The literal of a value is read as the value, unless a number in it is not finite, and nothing behind
it is touched. -/
theorem read?_literal {v : Json} (hv : v.every Json.isCanonical = true) {rest : Text}
    (hrest : endsNumeral rest = true) :
    read? (v.literal ++ rest) = if v.hasFiniteNumbers then some (v, rest) else none := by
  refine readValue_literal v _ rest hv hrest ?_
  rw [List.length_append]
  omega

/-- What is read as a string is longer than the string. -/
theorem length_read?_str {t s rest : Text} (h : read? t = some (.str s, rest)) :
    s.length + rest.length + 2 ≤ t.length :=
  length_readValue_str h

end Literal

end ModuleStubs
