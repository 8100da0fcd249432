import ModuleStubs.Proofs.Wire.Nesting
import ModuleStubs.Proofs.Wire.RawStrings

/-!
# Keys that are no texts

A dictionary may have null, truth values and numbers as keys. The writer has two lists of cases, one for keys and
one for values, and they agree but for truth values, which count as integers in the first one and are written
there with a capital letter (`keyText_eq_writtenAtom`, `keyText_bool`). The text of such a key has nothing in it that
a string would have to escape (`isSafe_of_writtenAtom`), so that the key stands in the document between quotes.
Delivered here: in which cases key and value are written alike, that this holds for the keys of each dictionary in
a document, however deep it lies, and which keys are found again when the text of the key is read
(`key_alike_iff`).
-/

set_option autoImplicit false

namespace ModuleStubs

open Grammar (Digits Exponent Fraction Numeral Whole sign)
open Relation (ReflTransGen)

/-! ## Texts without anything to escape -/

/-- Printable ASCII without the quote and the backslash. -/
def CodePoint.IsSafe (c : CodePoint) : Prop := c.IsPrintable ∧ c ≠ '"' ∧ c ≠ '\\'

instance CodePoint.decidableIsSafe (c : CodePoint) : Decidable c.IsSafe :=
  inferInstanceAs (Decidable (_ ∧ _ ∧ _))

/-- All code points are safe. -/
def Text.IsSafe (t : Text) : Prop := ∀ c ∈ t, c.IsSafe

instance Text.decidableIsSafe (t : Text) : Decidable t.IsSafe :=
  inferInstanceAs (Decidable (∀ c ∈ t, c.IsSafe))

theorem Text.IsSafe.append {s t : Text} (hs : s.IsSafe) (ht : t.IsSafe) : (s ++ t).IsSafe :=
  List.forall_mem_append.2 ⟨hs, ht⟩

theorem Text.IsSafe.cons {c : CodePoint} {t : Text} (hc : c.IsSafe) (ht : t.IsSafe) :
    Text.IsSafe (c :: t) :=
  List.forall_mem_cons.2 ⟨hc, ht⟩

theorem CodePoint.isSafe_of_isDigit {c : CodePoint} (hc : c.isDigit = true) : c.IsSafe := by
  have hquote := CodePoint.ne_of_isDigit hc (d := '"') (by decide)
  have hslash := CodePoint.ne_of_isDigit hc (d := '\\') (by decide)
  simp only [CodePoint.isDigit, Bool.and_eq_true, decide_eq_true_eq] at hc
  exact ⟨⟨by omega, by omega⟩, hquote, hslash⟩

namespace Grammar

theorem isSafe_of_digits {t : Text} (h : Digits t) : t.IsSafe :=
  fun c hc => CodePoint.isSafe_of_isDigit (h.2 c hc)

theorem isSafe_of_whole {t : Text} (h : Whole t) : t.IsSafe := by
  cases h with
  | zero => decide
  | digits _ hdigits => exact isSafe_of_digits hdigits

theorem isSafe_of_fraction {t : Text} {ds : Option Text} (h : Fraction t ds) : t.IsSafe := by
  cases h with
  | absent => decide
  | present hdigits => exact .cons (by decide) (isSafe_of_digits hdigits)

theorem isSafe_of_exponent {t : Text} {e : Option Int} (h : Exponent t e) : t.IsSafe := by
  have hmark : ∀ c, IsExponentMark c → c.IsSafe := by
    rintro c (rfl | rfl) <;> decide
  cases h with
  | absent => decide
  | unsigned hc hdigits => exact .cons (hmark _ hc) (isSafe_of_digits hdigits)
  | plus hc hdigits => exact .cons (hmark _ hc) (.cons (by decide) (isSafe_of_digits hdigits))
  | minus hc hdigits => exact .cons (hmark _ hc) (.cons (by decide) (isSafe_of_digits hdigits))

theorem isSafe_of_numeral {t : Text} {v : Json} (h : Numeral t v) : t.IsSafe := by
  have hsign : ∀ negative, (sign negative).IsSafe := by decide
  cases h with
  | integer hw => exact (hsign _).append (isSafe_of_whole hw)
  | decimal hw hf he _ =>
      exact (hsign _).append
        ((isSafe_of_whole hw).append ((isSafe_of_fraction hf).append (isSafe_of_exponent he)))

end Grammar

namespace Wire

open Binary64 (infinity nan zero)

theorem letterEscape?_of_isSafe {c : CodePoint} (hc : c.IsSafe) : letterEscape? c = none := by
  obtain ⟨⟨hlow, -⟩, hquote, hslash⟩ := hc
  rw [letterEscape?, if_neg hslash, if_neg hquote, if_neg (by omega), if_neg (by omega),
    if_neg (by omega), if_neg (by omega), if_neg (by omega)]

theorem asciiPoint_of_isSafe {c : CodePoint} (hc : c.IsSafe) : asciiPoint c = [c] := by
  rw [asciiPoint, letterEscape?_of_isSafe hc]
  exact if_pos hc.1

theorem rawPoint_of_isSafe {c : CodePoint} (hc : c.IsSafe) : rawPoint c = .ok [c] := by
  have hlow := hc.1.1
  rcases rawPoint_cases c with ⟨heq, -⟩ | ⟨-, hlacks⟩ | ⟨heq, -⟩
  · rw [heq, asciiPoint_of_isSafe hc]
  · have hbetween := of_decide_eq_true hlacks
    omega
  · exact heq

theorem mapM_rawPoint_of_isSafe {t : Text} (ht : t.IsSafe) :
    t.mapM rawPoint = .ok (t.map fun c => [c]) := by
  induction t with
  | nil => rfl
  | cons c t ih =>
      obtain ⟨hc, ht⟩ := List.forall_mem_cons.1 ht
      rw [List.mapM_cons, rawPoint_of_isSafe hc, ih ht]
      rfl

/-- A safe text is a string with quotes around it, whatever the options. -/
theorem writtenString_of_isSafe (o : Options) {t : Text} (ht : t.IsSafe) :
    writtenString o t = .ok (inQuotes t) := by
  rw [writtenString]
  split
  · rw [asciiString, List.flatMap_congr fun c hc => asciiPoint_of_isSafe (ht c hc),
      List.flatMap_singleton']
  · rw [rawString, mapM_rawPoint_of_isSafe ht]
    exact congrArg (fun s => Except.ok (inQuotes s)) (List.flatMap_singleton' t)

/-- The string of a safe text is read as the text. -/
theorem stringAt_inQuotes {t : Text} (ht : t.IsSafe) :
    stringAt (inQuotes t) 1 = .ok (t, (inQuotes t).length) := by
  have hlacks : ∀ c ∈ t, c.lacksEscape = false := by
    intro c hc
    have hlow := (ht c hc).1.1
    exact decide_eq_false (by omega)
  obtain ⟨u, hu, hread, -⟩ := exists_rawString hlacks
  have hraw := writtenString_of_isSafe { ascii := false } ht
  obtain rfl := Except.ok.inj (hu.symm.trans hraw)
  exact hread

/-! ## Two lists of cases -/

/-- Null, truth values and numbers: the keys that are no texts and have one all the same. -/
def Atom.isScalar : Atom → Bool
  | .null => true
  | .bool _ => true
  | .int _ => true
  | .float _ _ => true
  | .str _ => false
  | .foreign _ => false

/-- Truth values. -/
def Atom.isBool : Atom → Bool
  | .bool _ => true
  | _ => false

variable {o : Options} {a : Atom}

/-- An atom is written as its text. -/
theorem written_atom (ha : a.isScalar = true) : (Datum.atom a).written o = writtenAtom o a := by
  have hrun : (Datum.atom a).chunks o = (do
      Trace.say (← (writtenAtom o a : Except WriteFault Text))
      return [] : Writing Open) := by
    cases a with
    | foreign name => contradiction
    | _ => rfl
  rw [Datum.written, hrun]
  cases writtenAtom o a with
  | error e => rfl
  | ok t => exact congrArg Except.ok (List.append_nil t)

/-- But for truth values a key has the text of the value, or its fault. -/
theorem keyText_eq_writtenAtom (ha : a.isScalar = true) (hbool : a.isBool = false) :
    keyText o (.atom a) = (writtenAtom o a).map some := by
  cases a with
  | null => rfl
  | int n => rfl
  | float x odd => rfl
  | bool b => contradiction
  | str s => contradiction
  | foreign name => contradiction

/-- A truth value has another text as a key. -/
theorem keyText_bool (o : Options) (b : Bool) :
    keyText o (.atom (.bool b)) = .ok (some (if b then lit "True" else lit "False")) := rfl

theorem isSafe_of_writtenFloat {allowNaN odd : Bool} {x : Binary64} {t : Text}
    (h : writtenFloat allowNaN x odd = .ok t) : t.IsSafe := by
  rcases writtenFloat_cases h with ⟨rfl, -, hfinite, -⟩ | ⟨rfl, -⟩
  · obtain ⟨negative, m, e, hparts⟩ := Binary64.exists_parts_of_isFinite hfinite
    exact Grammar.isSafe_of_numeral (Binary64.numeral_text hparts)
  · rw [specialFloat]
    split
    · decide
    · split <;> decide

/-- The text of null, a truth value or a number is safe. -/
theorem isSafe_of_writtenAtom (ha : a.isScalar = true) {t : Text} (h : writtenAtom o a = .ok t) :
    t.IsSafe := by
  cases a with
  | null =>
      obtain rfl := Except.ok.inj h
      decide
  | bool b =>
      obtain rfl := Except.ok.inj h
      cases b <;> decide
  | int n =>
      obtain rfl := Except.ok.inj h
      exact Grammar.isSafe_of_numeral (numeral_decimalInt n)
  | float x odd => exact isSafe_of_writtenFloat h
  | str s => contradiction
  | foreign name => contradiction

/-- The text of such a key is safe too. -/
theorem isSafe_of_keyText (ha : a.isScalar = true) {t : Text} (h : keyText o (.atom a) = .ok (some t)) :
    t.IsSafe := by
  cases hbool : a.isBool with
  | false =>
      rw [keyText_eq_writtenAtom ha hbool] at h
      obtain ⟨u, hu, heq⟩ := except_map_eq_ok.1 h
      obtain rfl := Option.some.inj heq
      exact isSafe_of_writtenAtom ha hu
  | true =>
      cases a with
      | bool b =>
          obtain rfl := Option.some.inj (Except.ok.inj h)
          cases b <;> decide
      | _ => contradiction

/-! ## Keys as they stand in a document -/

/-- What is written for a key, if it is not left out. -/
def quotedKey (o : Options) (k : Key) : Except WriteFault (Option Text) := do
  match ← keyText o k with
  | none => return none
  | some t => return some (← writtenString o t)

theorem quotedKey_eq (ha : a.isScalar = true) :
    quotedKey o (.atom a) = (keyText o (.atom a)).map (Option.map inQuotes) := by
  rw [quotedKey]
  cases hkey : keyText o (.atom a) with
  | error e => rfl
  | ok key? =>
      cases key? with
      | none => rfl
      | some t =>
          have hwritten := writtenString_of_isSafe o (isSafe_of_keyText ha hkey)
          simp only [bind, Except.bind, hwritten]
          rfl

/-- Keys and values are written alike, with quotes around the key, unless they are truth values. -/
theorem quotedKey_eq_written_iff (ha : a.isScalar = true) :
    quotedKey o (.atom a) = ((Datum.atom a).written o).map (fun t => some (inQuotes t)) ↔
      a.isBool = false := by
  rw [quotedKey_eq ha, written_atom ha]
  constructor
  · intro h
    cases a with
    | bool b =>
        have hne : ∀ b : Bool, inQuotes (if b then lit "True" else lit "False") ≠
            inQuotes (if b then lit "true" else lit "false") := by decide
        exact absurd (Option.some.inj (Except.ok.inj h)) (hne b)
    | _ => rfl
  · intro hbool
    rw [keyText_eq_writtenAtom ha hbool]
    cases writtenAtom o a <;> rfl

/-- The text of a key is that of the value just if they are written alike. -/
theorem written_eq_ok_iff (ha : a.isScalar = true) {t : Text} (hkey : keyText o (.atom a) = .ok (some t)) :
    (Datum.atom a).written o = .ok t ↔ a.isBool = false := by
  have hquoted : quotedKey o (.atom a) = .ok (some (inQuotes t)) := by
    rw [quotedKey_eq ha, hkey]
    rfl
  rw [← quotedKey_eq_written_iff (o := o) ha, hquoted]
  constructor
  · intro hwritten
    rw [hwritten]
    rfl
  · intro halike
    obtain ⟨u, hwritten, heq⟩ := except_map_eq_ok.1 halike.symm
    have hquotes : inQuotes u = inQuotes t := Option.some.inj heq
    simp only [inQuotes, List.append_assoc] at hquotes
    rw [hwritten, List.append_cancel_right (List.append_cancel_left hquotes)]

/-- A key of a dictionary that is reached stands in the document between quotes, with a colon and its value
behind it. -/
theorem exists_key_of_reaches {ρ : Type} {s : Store ρ} {fuel : Nat} {u v w : ρ} {marks : Open}
    {fields : List (Key × ρ)} (ha : a.isScalar = true) (h : (writeValue s o fuel v marks).Completes)
    (hreach : ReflTransGen s.HasPart v u) (hs : s.shape u = .fields fields) (hw : (.atom a, w) ∈ fields) :
    ∃ t fuel' marks', keyText o (.atom a) = .ok (some t) ∧
      IsBlock [inQuotes t, lit ":"] (writeValue s o fuel' w marks') (writeValue s o fuel v marks) := by
  have htext : Key.hasText (.atom a) = true := by
    cases a with
    | foreign name => contradiction
    | _ => rfl
  obtain ⟨fuel', marks', hblock⟩ := exists_block_of_reaches h hreach
  obtain ⟨key, t, fuel'', marks'', hkey, ht, hentry⟩ :=
    exists_entry_of_fields hblock.completes hs hw htext
  obtain rfl := Except.ok.inj ((writtenString_of_isSafe o (isSafe_of_keyText ha hkey)).symm.trans ht)
  exact ⟨key, fuel'', marks'', hkey, hentry.trans hblock⟩

/-! ## Keys read back -/

/-- The value is the atom. Numbers that are none count as one. -/
def Atom.isReadAs : Atom → Json → Prop
  | .null, .null => True
  | .bool b, .bool c => b = c
  | .int n, .int m => n = m
  | .float x _, .float y => x = y ∨ (x.isNaN = true ∧ y.isNaN = true)
  | _, _ => False

/-- The keys that are found again when their text is read: not truth values, not zero with a minus sign, and no finite
number whose text is odd. -/
def Atom.isRecoverable : Atom → Bool
  | .null => true
  | .int _ => true
  | .float x odd => !x.isFinite || (!odd && x != zero true)
  | _ => false

/-- The name of a special number is never read as a finite one. -/
theorem exists_parse_specialFloat (x : Binary64) :
    ∃ y, parse (specialFloat x) = .ok (.float y) ∧ y.isFinite = false := by
  rw [specialFloat]
  split
  · have hnan : nan.isNaN = true := beq_iff_eq.2 Binary64.parts_nan
    exact ⟨_, parse_of_value (.name .nan), Binary64.isFinite_of_isNaN hnan⟩
  · split
    · exact ⟨_, parse_of_value (.name .negativeInfinity), Binary64.isFinite_infinity true⟩
    · exact ⟨_, parse_of_value (.name .infinity), Binary64.isFinite_infinity false⟩

/-- The name of a number that is not finite is read as that number. -/
theorem parse_specialFloat {x : Binary64} (odd : Bool) (h : x.isFinite = false) :
    ∃ v, parse (specialFloat x) = .ok v ∧ (Atom.float x odd).isReadAs v := by
  rcases Binary64.parts_of_isFinite_eq_false h with hparts | ⟨negative, hparts⟩
  · have hx : x.isNaN = true := beq_iff_eq.2 hparts
    rw [specialFloat_of_isNaN hx]
    exact ⟨_, parse_of_value (.name .nan), Or.inr ⟨hx, beq_iff_eq.2 Binary64.parts_nan⟩⟩
  · rw [specialFloat_of_parts_infinite hparts, Binary64.eq_infinity_of_parts hparts]
    cases negative with
    | true => exact ⟨_, parse_of_value (.name .negativeInfinity), Or.inl rfl⟩
    | false => exact ⟨_, parse_of_value (.name .infinity), Or.inl rfl⟩

/-- Which numbers are found again when what is written for them is read. -/
theorem readAs_of_writtenFloat {allowNaN odd : Bool} {x : Binary64} {t : Text}
    (h : writtenFloat allowNaN x odd = .ok t) :
    (∃ v, parse t = .ok v ∧ (Atom.float x odd).isReadAs v) ↔ (Atom.float x odd).isRecoverable = true := by
  rcases writtenFloat_cases h with ⟨rfl, rfl, hfinite, hne⟩ | ⟨rfl, hspecial⟩
  · exact iff_of_true ⟨_, parse_text hfinite, Or.inl rfl⟩ (by simp [Atom.isRecoverable, hne])
  cases hfinite : x.isFinite with
  | false => exact iff_of_true (parse_specialFloat odd hfinite) (by simp [Atom.isRecoverable, hfinite])
  | true =>
      refine iff_of_false ?_ ?_
      · rintro ⟨v, hv, hread⟩
        obtain ⟨y, hparse, hy⟩ := exists_parse_specialFloat x
        obtain rfl := Except.ok.inj (hparse.symm.trans hv)
        rcases hread with rfl | ⟨hnan, -⟩
        · rw [hfinite] at hy
          contradiction
        · rw [Binary64.isFinite_of_isNaN hnan] at hfinite
          contradiction
      -- a finite number has a name only if its text is odd or it is zero with a minus sign
      · rw [hfinite] at hspecial
        rcases hspecial with rfl | hfalse | rfl
        · simp [Atom.isRecoverable, hfinite]
        · contradiction
        · simp [Atom.isRecoverable, hfinite]

/-- Which keys are found again when their text is read. -/
theorem readAs_of_keyText (ha : a.isScalar = true) {t : Text} (h : keyText o (.atom a) = .ok (some t)) :
    (∃ v, parse t = .ok v ∧ a.isReadAs v) ↔ a.isRecoverable = true := by
  cases a with
  | null =>
      obtain rfl := Option.some.inj (Except.ok.inj h)
      exact iff_of_true ⟨_, parse_of_value (.name .null), trivial⟩ rfl
  | int n =>
      obtain rfl := Option.some.inj (Except.ok.inj h)
      exact iff_of_true ⟨_, parse_of_value (.numeral (numeral_decimalInt n)), rfl⟩ rfl
  | float x odd =>
      obtain ⟨u, hu, heq⟩ := except_map_eq_ok.1 h
      obtain rfl := Option.some.inj heq
      exact readAs_of_writtenFloat hu
  | bool b =>
      obtain rfl := Option.some.inj (Except.ok.inj h)
      refine iff_of_false ?_ Bool.false_ne_true
      rintro ⟨v, hv, -⟩
      have hnothing : ∀ b : Bool, parse (Json.boolLiteral b) = .error .nothing := by
        intro b
        rw [parse_eq]
        cases b <;> rfl
      rw [hnothing b] at hv
      contradiction
  | str s => contradiction
  | foreign name => contradiction

/-- **Keys and values are written alike, but for truth values.** As a key, null, a truth value or a number is
written between quotes with the text that it has as a value, or fails with the same fault, just if it is no truth
value; these have a capital letter as keys. Each key of a dictionary that is reached in a document that is
written stands there so, with a colon and its value behind it, however deep the dictionary lies. The string is read
as the text of the key, and this text as the key itself, just if the key is no truth value, no zero with a minus
sign and no finite number with an odd text. -/
theorem key_alike_iff {ρ : Type} (s : Store ρ) (o : Options) {a : Atom} (ha : a.isScalar = true) :
    (quotedKey o (.atom a) = ((Datum.atom a).written o).map (fun t => some (inQuotes t)) ↔
      a.isBool = false) ∧
    (∀ b, a = .bool b →
      quotedKey o (.atom a) = .ok (some (inQuotes (if b then lit "True" else lit "False")))) ∧
    (∀ (fuel : Nat) (v u w : ρ) (marks : Open) (fields : List (Key × ρ)),
      (writeValue s o fuel v marks).Completes → ReflTransGen s.HasPart v u →
      s.shape u = .fields fields → (.atom a, w) ∈ fields →
      ∃ t fuel' marks', quotedKey o (.atom a) = .ok (some (inQuotes t)) ∧
        IsBlock [inQuotes t, lit ":"] (writeValue s o fuel' w marks') (writeValue s o fuel v marks) ∧
        ((Datum.atom a).written o = .ok t ↔ a.isBool = false)) ∧
    (∀ t, keyText o (.atom a) = .ok (some t) →
      stringAt (inQuotes t) 1 = .ok (t, (inQuotes t).length) ∧
      ((∃ v, parse t = .ok v ∧ a.isReadAs v) ↔ a.isRecoverable = true)) := by
  refine ⟨quotedKey_eq_written_iff ha, ?_, ?_, ?_⟩
  · rintro b rfl
    rw [quotedKey_eq ha, keyText_bool]
    rfl
  · intro fuel v u w marks fields hcompletes hreach hs hw
    obtain ⟨t, fuel', marks', hkey, hblock⟩ := exists_key_of_reaches ha hcompletes hreach hs hw
    refine ⟨t, fuel', marks', ?_, hblock, written_eq_ok_iff ha hkey⟩
    rw [quotedKey_eq ha, hkey]
    rfl
  · intro t ht
    exact ⟨stringAt_inQuotes (isSafe_of_keyText ha ht), readAs_of_keyText ha ht⟩

/-- A list with a dictionary in it, which has another one in it, with a number as its key. -/
def costTable : Datum :=
  .list [.dict [(.atom (.str (lit "costs")), .dict [(.atom (.int 7), .atom .null)])]]

theorem key_alike_iff_costTable :
    (Atom.int 7).isScalar = true ∧ (costTable.chunks {}).Completes ∧
    ∃ t fuel marks, quotedKey {} (.atom (.int 7)) = .ok (some (inQuotes t)) ∧
      IsBlock [inQuotes t, lit ":"] (writeValue Datum.store {} fuel (.atom .null) marks)
        (costTable.chunks {}) ∧
      ((Datum.atom (.int 7)).written {} = .ok t ↔ (Atom.int 7).isBool = false) := by
  have hcompletes : (costTable.chunks {}).Completes := ⟨[], rfl⟩
  have hreach : ReflTransGen Datum.store.HasPart costTable (.dict [(.atom (.int 7), .atom .null)]) := by
    refine .tail (.single (.item rfl List.mem_cons_self)) ?_
    exact .field rfl List.mem_cons_self rfl
  obtain ⟨-, -, hkeys, -⟩ := key_alike_iff Datum.store {} (a := .int 7) rfl
  exact ⟨rfl, hcompletes, hkeys _ _ _ _ _ _ hcompletes hreach rfl List.mem_cons_self⟩

/-- As a key a truth value has a capital letter, which makes its text one that cannot be read. -/
theorem truthValue_differs :
    (Datum.dict [(.atom (.bool true), .atom .null)]).written {} = .ok (lit "\x7b\"True\":null\x7d") ∧
    (Datum.atom (.bool true)).written {} = .ok (lit "true") ∧
    parse (lit "True") = .error .nothing :=
  ⟨rfl, rfl, by decide +kernel⟩

end Wire

end ModuleStubs
