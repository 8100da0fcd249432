import ModuleStubs.Proofs.Grammar.Reading

/-!
# The reader of standard JSON reads its grammar

Every document that the standard dialect derives is read as the value that it denotes
(`parse_of_document`). Escaped halves of surrogate pairs are left out of the dialect, since the reader
joins them; every other escape by number is one code point (`unicodeEscape_of_isUnit`).
-/

set_option autoImplicit false

namespace ModuleStubs

namespace Json

open Grammar

/-! ## Strings -/

/-- An escape by number that is no half of a surrogate pair takes its four digits. -/
theorem unicodeEscape_of_isUnit {x y z w : CodePoint} {n : Nat} (hquad : hexQuad? x y z w = some n)
    (hunit : Dialect.standard.isUnit n = true) {t : Text} (ht : t ≠ []) :
    unicodeEscape (x :: y :: z :: w :: t) = .ok (CodePoint.ofNat n, 4) := by
  have hfour : fourHex? (x :: y :: z :: w :: t) = some (n, t) := by
    rw [fourHex?, hquad]
    rfl
  have hrest : ¬ t.isEmpty = true := by rwa [List.isEmpty_iff]
  have hhigh : ¬ (0xD800 ≤ n ∧ n ≤ 0xDBFF) := by
    have h := of_decide_eq_true hunit
    omega
  simp only [unicodeEscape, hfour, if_neg hrest, if_neg hhigh]

/-- An escape by number takes the code points of the number. -/
theorem stringBody_numbered (t : Text) :
    stringBody 0 (CodePoint.ofChar '\\' :: CodePoint.ofChar 'u' :: t) =
      match unicodeEscape t with
      | .error s => .error (some s)
      | .ok (p, width) => (stringBody width t).map fun (s, rest) => (p :: s, rest) := by
  rw [stringBody.eq_def]
  rfl

/-- The inside of a string is read up to its closing quote. -/
theorem stringBody_of_body {p s : Text} (h : Body .standard p s) (rest : Text) :
    stringBody 0 (p ++ CodePoint.ofChar '"' :: rest) = .ok (s, rest) := by
  induction h with
  | nil =>
      rw [List.nil_append, stringBody.eq_def]
      rfl
  | raw hquote hslash hraw _ ih =>
      have hcontrol := Nat.not_lt.2 (of_decide_eq_true hraw)
      rw [List.cons_append, stringBody.eq_def]
      simp only [if_neg hquote, if_neg hslash, if_neg hcontrol]
      rw [ih]
      rfl
  | letter he _ ih =>
      obtain ⟨hu, hletter⟩ := shortEscape?_of_mem_letters he
      rw [List.cons_append, List.cons_append, stringBody.eq_def]
      simp only [if_neg hu, hletter]
      rw [ih]
      rfl
  | number hx hy hz hw hunit _ ih =>
      have hquad := hexQuad?_eq_some.2 ⟨_, _, _, _, hx, hy, hz, hw, rfl⟩
      simp only [List.cons_append]
      -- the four digits are passed over behind the escape
      rw [stringBody_numbered, unicodeEscape_of_isUnit hquad hunit (by simp)]
      change (stringBody 0 _).map _ = _
      rw [ih]
      rfl

theorem readString_inQuotes {p s : Text} (h : Body .standard p s) (rest : Text) :
    readString (inQuotes p ++ rest) = .ok (s, rest) := by
  rw [inQuotes_append, readString, List.drop_one, List.tail_cons, stringBody_of_body h]

/-! ## Steps of the reader -/

/-- The standard reader, by the results that it gives. -/
def reader : Reader where
  value fuel t v rest := readValue fuel t = .ok (v, rest)
  items fuel t vs rest := readItems fuel t = .ok (vs, rest)
  fields fields fuel t all rest := readFields fuel fields t = .ok (all, rest)

theorem skipGap_gap {g : Text} {c : CodePoint} (hg : Gap .standard g) (hc : isGap c = false)
    (r : Text) : skipGap (g ++ c :: r) = c :: r :=
  dropWhile_gap (D := .standard) hg hc r

theorem skipGap_solid {g t : Text} (ht : Solid .standard t) (hg : Gap .standard g) :
    skipGap (g ++ t) = t :=
  ht.dropWhile_gap hg

/-- Where no string, object or list starts, a name is looked for, and then a number. -/
theorem readValue_other {c : CodePoint} (hquote : c ≠ '"') (hbrace : c ≠ '\x7b') (hbracket : c ≠ '[')
    (t : Text) (fuel : Nat) :
    readValue (fuel + 1) (c :: t) =
      match named? (c :: t) with
      | some r => .ok r
      | none =>
        match numeral? (c :: t) with
        | some r => .ok r
        | none => .error (.value, (c :: t).length) := by
  rw [readValue.eq_def]
  exact (if_neg hquote).trans ((if_neg hbrace).trans (if_neg hbracket))

/-- A list has no items if it is closed at once. -/
theorem readValue_bracket (t : Text) (fuel : Nat) :
    readValue (fuel + 1) (CodePoint.ofChar '[' :: t) =
      match skipGap t with
      | [] => .error (.value, 0)
      | d :: r =>
        if d = ']' then .ok (.list [], r)
        else (readItems fuel (d :: r)).map fun (items, rest) => (.list items, rest) := by
  rw [readValue.eq_def]
  rfl

/-- An object has no fields if it is closed at once. -/
theorem readValue_brace (t : Text) (fuel : Nat) :
    readValue (fuel + 1) (CodePoint.ofChar '\x7b' :: t) =
      match skipGap t with
      | [] => .error (.propertyName, 0)
      | d :: r =>
        if d = '\x7d' then .ok (.object [], r)
        else (readFields fuel [] (d :: r)).map fun (fs, rest) => (.object fs, rest) := by
  rw [readValue.eq_def]
  rfl

/-- A numeral is read where no string, object, list or name starts. -/
theorem readValue_numeral {p rest : Text} {v : Json} (h : Numeral p v)
    (hrest : endsNumeral rest = true) (fuel : Nat) :
    readValue (fuel + 1) (p ++ rest) = .ok (v, rest) := by
  have hname := named?_of_numeral h rest
  have hnumeral := numeral?_of_numeral h hrest
  obtain ⟨negative, w, f, e, fraction, exponent, rfl, hw, -, -, -⟩ := h.exists_parts
  obtain ⟨c, ds, rfl, hc⟩ := hw.exists_cons
  cases negative with
  | true =>
      refine (readValue_other (by decide) (by decide) (by decide) _ fuel).trans ?_
      change named? (CodePoint.ofChar '-' :: _) = _ at hname
      change numeral? (CodePoint.ofChar '-' :: _) = _ at hnumeral
      simp only [hname, hnumeral]
  | false =>
      have hquote : c ≠ '"' := CodePoint.ne_of_isDigit hc (by decide)
      have hbrace : c ≠ '\x7b' := CodePoint.ne_of_isDigit hc (by decide)
      have hbracket : c ≠ '[' := CodePoint.ne_of_isDigit hc (by decide)
      refine (readValue_other hquote hbrace hbracket _ fuel).trans ?_
      change named? (c :: _) = _ at hname
      change numeral? (c :: _) = _ at hnumeral
      simp only [hname, hnumeral]

theorem readValue_of_items {fuel : Nat} {g t rest : Text} {vs : List Json} (hg : Gap .standard g)
    (ht : Solid .standard t) (h : readItems fuel t = .ok (vs, rest)) :
    readValue (fuel + 1) (CodePoint.ofChar '[' :: (g ++ t)) = .ok (.list vs, rest) := by
  rw [readValue_bracket, skipGap_solid ht hg]
  obtain ⟨c, r, rfl, -, hend, -⟩ := ht
  simp only [if_neg hend]
  rw [h]
  rfl

theorem readValue_of_fields {fuel : Nat} {g t rest : Text} {fs : Record Json} (hg : Gap .standard g)
    (h : readFields fuel [] (CodePoint.ofChar '"' :: t) = .ok (fs, rest)) :
    readValue (fuel + 1) (CodePoint.ofChar '\x7b' :: (g ++ CodePoint.ofChar '"' :: t)) =
      .ok (.object fs, rest) := by
  rw [readValue_brace, skipGap_gap hg (by decide)]
  change (readFields fuel [] _).map _ = _
  rw [h]
  rfl

/-- Behind a value in a list its end or a comma is looked for. -/
theorem readItems_of_value {fuel : Nat} {t r : Text} {v : Json}
    (h : readValue fuel t = .ok (v, r)) :
    readItems (fuel + 1) t =
      match skipGap r with
      | [] => .error (.comma, 0)
      | c :: u =>
        if c = ']' then .ok ([v], u)
        else if c = ',' then (readItems fuel (skipGap u)).map fun (vs, rest) => (v :: vs, rest)
        else .error (.comma, u.length + 1) := by
  rw [readItems, h]
  rfl

/-- Behind a field of an object, whose name is read already, its end or a comma is looked for. -/
theorem readFields_of_name {fuel : Nat} {fields : Record Json} {u name g g' t r : Text} {v : Json}
    (hname : readString (CodePoint.ofChar '"' :: u) =
      .ok (name, g ++ CodePoint.ofChar ':' :: (g' ++ t)))
    (hg : Gap .standard g) (hg' : Gap .standard g') (ht : Solid .standard t)
    (h : readValue fuel t = .ok (v, r)) :
    readFields (fuel + 1) fields (CodePoint.ofChar '"' :: u) =
      match skipGap r with
      | [] => .error (.comma, 0)
      | c :: u =>
        if c = '\x7d' then .ok (Record.set name v fields, u)
        else if c = ',' then readFields fuel (Record.set name v fields) (skipGap u)
        else .error (.comma, u.length + 1) := by
  have hcolon : isGap ':' = false := by decide
  rw [readFields.eq_def]
  -- both sides look at what follows the value
  cases hr : skipGap r <;>
    simp only [ne_eq, not_true_eq_false, if_false, hname, bind, Except.bind, skipGap_gap hg hcolon,
      skipGap_solid ht hg', h, hr]

theorem readFields_of_value {fuel : Nat} {fields : Record Json} {body name g g' t r : Text} {v : Json}
    (hbody : Body .standard body name) (hg : Gap .standard g) (hg' : Gap .standard g')
    (ht : Solid .standard t) (h : readValue fuel t = .ok (v, r)) :
    readFields (fuel + 1) fields (inQuotes body ++ (g ++ CodePoint.ofChar ':' :: (g' ++ t))) =
      match skipGap r with
      | [] => .error (.comma, 0)
      | c :: u =>
        if c = '\x7d' then .ok (Record.set name v fields, u)
        else if c = ',' then readFields fuel (Record.set name v fields) (skipGap u)
        else .error (.comma, u.length + 1) := by
  have hname := readString_inQuotes hbody (g ++ CodePoint.ofChar ':' :: (g' ++ t))
  rw [inQuotes_append] at hname ⊢
  exact readFields_of_name hname hg hg' ht h

/-- The standard reader follows the grammar. -/
theorem reader_follows : reader.Follows .standard where
  name rest h := by
    intro fuel hfuel
    obtain ⟨f, rfl⟩ := Nat.exists_eq_add_of_le' hfuel
    cases h <;> rfl
  numeral h hrest := by
    intro fuel hfuel
    obtain ⟨f, rfl⟩ := Nat.exists_eq_add_of_le' hfuel
    exact readValue_numeral h hrest f
  string rest h := by
    intro fuel hfuel
    obtain ⟨f, rfl⟩ := Nat.exists_eq_add_of_le' hfuel
    have hread := readString_inQuotes h rest
    change readValue (f + 1) _ = _
    rw [inQuotes_append] at hread ⊢
    rw [readValue.eq_def]
    change (readString _).map _ = _
    rw [hread]
    rfl
  emptyList rest hg := by
    intro fuel hfuel
    obtain ⟨f, rfl⟩ := Nat.exists_eq_add_of_le' hfuel
    refine (readValue_bracket _ _).trans ?_
    rw [skipGap_gap hg (by decide)]
    rfl
  list hg ht h := by
    intro fuel hfuel
    obtain ⟨f, rfl⟩ : ∃ f, fuel = f + 1 := ⟨fuel - 1, by omega⟩
    exact readValue_of_items hg ht (h f (by omega))
  lastItem hg h := by
    intro fuel hfuel
    obtain ⟨f, rfl⟩ := Nat.exists_eq_add_of_le' hfuel
    have hvalue := h _ (Nat.le_add_left _ f)
    change readItems (f + _ + 1) _ = _
    rw [readItems_of_value hvalue, skipGap_gap hg (by decide)]
    rfl
  nextItem hg hg' hu h hlater := by
    intro fuel hfuel
    obtain ⟨f, rfl⟩ := Nat.exists_eq_add_of_le' hfuel
    have hvalue := h _ (Nat.le_add_left _ f)
    have hitems := hlater _ (Nat.le_add_left _ f)
    change readItems (f + _ + 1) _ = _
    rw [readItems_of_value hvalue, skipGap_gap hg (by decide)]
    change (readItems _ (skipGap _)).map _ = _
    rw [skipGap_solid hu hg', show readItems _ _ = _ from hitems]
    rfl
  emptyObject rest hg := by
    intro fuel hfuel
    obtain ⟨f, rfl⟩ := Nat.exists_eq_add_of_le' hfuel
    refine (readValue_brace _ _).trans ?_
    rw [skipGap_gap hg (by decide)]
    rfl
  object hg h := by
    intro fuel hfuel
    obtain ⟨f, rfl⟩ : ∃ f, fuel = f + 1 := ⟨fuel - 1, by omega⟩
    exact readValue_of_fields hg (h f (by omega))
  lastField hbody hg hg' ht hg'' h := by
    intro fuel hfuel
    obtain ⟨f, rfl⟩ := Nat.exists_eq_add_of_le' hfuel
    have hvalue := h _ (Nat.le_add_left _ f)
    change readFields (f + _ + 1) _ _ = _
    rw [readFields_of_value hbody hg hg' ht hvalue, skipGap_gap hg'' (by decide)]
    rfl
  nextField hbody hg hg' ht hg'' hg₃ h hlater := by
    intro fuel hfuel
    obtain ⟨f, rfl⟩ := Nat.exists_eq_add_of_le' hfuel
    have hvalue := h _ (Nat.le_add_left _ f)
    have hfields := hlater _ (Nat.le_add_left _ f)
    change readFields (f + _ + 1) _ _ = _
    rw [readFields_of_value hbody hg hg' ht hvalue, skipGap_gap hg'' (by decide)]
    change readFields _ _ (skipGap _) = _
    rw [skipGap_gap hg₃ (by decide)]
    exact hfields

/-! ## Documents -/

/-- No document starts with a byte order mark. -/
theorem head?_document {t : Text} {v : Json} (h : Document .standard t v) :
    t.head? ≠ some (CodePoint.ofNat 0xFEFF) := by
  obtain ⟨before, text, after, hbefore, hvalue, -, rfl⟩ := h
  cases before with
  | nil =>
      obtain ⟨c, r, heq, -, -, hascii⟩ := hvalue.solid after
      rw [List.nil_append, heq]
      rintro ⟨⟩
      exact absurd hascii (by decide)
  | cons c before =>
      have hgap := hbefore c List.mem_cons_self
      rintro ⟨⟩
      exact absurd hgap (by decide)

/-- A document of the grammar is read as the value that it denotes. -/
theorem parse_of_document {t : Text} {v : Json} (h : Document .standard t v) :
    parse t = .ok v := by
  have hhead := head?_document h
  obtain ⟨before, text, after, hbefore, hvalue, hafter, rfl⟩ := h
  have hread : readValue (2 * (text ++ after).length + 2) (text ++ after) = .ok (v, after) := by
    have hends := endsNumeral_gap hafter (t := []) rfl
    rw [List.append_nil] at hends
    refine hvalue.reads reader_follows after hends _ ?_
    rw [List.length_append]
    omega
  have hskip : skipGap after = [] := dropWhile_gap_nil (D := .standard) hafter
  simp only [parse, if_neg hhead, skipGap_solid (hvalue.solid after) hbefore, hread, hskip]

end Json

end ModuleStubs
