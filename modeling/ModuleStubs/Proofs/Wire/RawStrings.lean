import ModuleStubs.Proofs.Wire.ChunkLines

/-!
# Strings of any code points

Without the restriction to ASCII only quotes, backslashes and control points are escaped, and not all of
the control points: those from 20 to 25 are looked up in a table that has no row for them, and those from 26 to
31 are not looked up at all. The ways in which a code point is written are said once (`rawPoint_cases`). A
string without a code point of the first kind is written and read back up to its end; the control points that
stand in its text are those of the second kind, in their order (`rawString_restored_iff`).
-/

set_option autoImplicit false

namespace ModuleStubs

/-- The control points, which have to be escaped in a string. -/
def CodePoint.isControl (c : CodePoint) : Bool := decide (c.val < 32)

/-- The control points that the table of escapes lacks. -/
def CodePoint.lacksEscape (c : CodePoint) : Bool := decide (20 ≤ c.val ∧ c.val < 26)

/-- The control points that are written as they are. -/
def CodePoint.staysRaw (c : CodePoint) : Bool := decide (26 ≤ c.val ∧ c.val < 32)

namespace Wire

/-! ## One code point -/

/-- A code point is written as in ASCII, or it has no escape, or it stands for itself. -/
theorem rawPoint_cases (c : CodePoint) :
    (rawPoint c = .ok (asciiPoint c) ∧ c.val < 0x10000 ∧ c.lacksEscape = false ∧ c.staysRaw = false) ∨
    (rawPoint c = .error (.unescapable c) ∧ c.lacksEscape = true) ∨
    (rawPoint c = .ok [c] ∧ c ≠ '"' ∧ c ≠ '\\' ∧ c.lacksEscape = false ∧ c.isControl = c.staysRaw) := by
  rw [rawPoint, asciiPoint]
  cases hletter : letterEscape? c with
  | some e =>
      -- of the letters of the reader, the writer uses those for seven code points, none from 20 to 31
      have hval : c.val = 92 ∨ c.val = 34 ∨ c.val < 20 := by
        obtain ⟨l, -, -, hl⟩ := letterEscape?_eq_some hletter
        obtain ⟨l, n, hmem, -, rfl⟩ := Grammar.mem_letters_of_shortEscape? hl
        have hall : ∀ p ∈ Grammar.letters, letterEscape? (CodePoint.ofNat p.2) ≠ none →
            (CodePoint.ofNat p.2).val = 92 ∨ (CodePoint.ofNat p.2).val = 34 ∨
              (CodePoint.ofNat p.2).val < 20 := by decide
        exact hall (l, n) hmem (by rw [hletter]; exact Option.some_ne_none e)
      refine Or.inl ⟨rfl, by omega, ?_, ?_⟩
      · exact decide_eq_false (by omega)
      · exact decide_eq_false (by omega)
  | none =>
      obtain ⟨hquote, hslash⟩ := ne_of_letterEscape?_eq_none hletter
      simp only
      by_cases hlow : c.val < 20
      · refine Or.inl ⟨?_, by omega, decide_eq_false (by omega), decide_eq_false (by omega)⟩
        rw [if_pos hlow, if_neg (by omega)]
      by_cases hmiddle : c.val < 26
      · refine Or.inr (Or.inl ⟨?_, decide_eq_true (by omega)⟩)
        rw [if_neg hlow, if_pos hmiddle]
      · refine Or.inr (Or.inr ⟨?_, hquote, hslash, decide_eq_false (by omega), ?_⟩)
        · rw [if_neg hlow, if_neg hmiddle]
        · exact decide_eq_decide.2 (by omega)

/-- The text of a code point is read back, and a control point stands in it only if it stays raw. -/
theorem exists_rawPoint {c : CodePoint} (hc : c.lacksEscape = false) :
    ∃ e, rawPoint c = .ok e ∧ (∀ t, stringBody (e ++ t) = withPoint c (stringBody t)) ∧
      e.filter CodePoint.isControl = [c].filter CodePoint.staysRaw := by
  rcases rawPoint_cases c with ⟨heq, hunit, -, hstays⟩ | ⟨-, hlacks⟩ | ⟨heq, hquote, hslash, -, hcontrol⟩
  · refine ⟨asciiPoint c, heq, stringBody_asciiPoint hunit, ?_⟩
    have hprintable : ∀ d ∈ asciiPoint c, ¬ d.isControl = true := by
      intro d hd hcontrol
      have hlow := (isPrintable_of_mem_asciiPoint hunit hd).1
      have hhigh := of_decide_eq_true hcontrol
      omega
    rw [List.filter_eq_nil_iff.2 hprintable, List.filter_singleton, hstays]
    rfl
  · rw [hc] at hlacks
    contradiction
  · refine ⟨[c], heq, stringBody_plain hquote hslash, ?_⟩
    rw [List.filter_singleton, List.filter_singleton, hcontrol]

/-! ## Strings -/

/-- The first code point that has no escape is the fault of the string. -/
theorem mapM_rawPoint_eq_error {s : Text} {c : CodePoint}
    (h : s.find? CodePoint.lacksEscape = some c) : s.mapM rawPoint = .error (.unescapable c) := by
  induction s with
  | nil => contradiction
  | cons d s ih =>
      rw [List.mapM_cons]
      cases hd : d.lacksEscape with
      | true =>
          rw [List.find?_cons_of_pos hd] at h
          obtain rfl := Option.some.inj h
          rcases rawPoint_cases d with ⟨-, -, hlacks, -⟩ | ⟨heq, -⟩ | ⟨-, -, -, hlacks, -⟩
          · rw [hd] at hlacks
            contradiction
          · rw [heq]
            rfl
          · rw [hd] at hlacks
            contradiction
      | false =>
          rw [List.find?_cons_of_neg (by rw [hd]; decide)] at h
          obtain ⟨e, he, -⟩ := exists_rawPoint hd
          rw [he, ih h]
          rfl

/-- Without such a code point all are written, and read back up to the closing quote. -/
theorem exists_mapM_rawPoint {s : Text} (h : ∀ c ∈ s, c.lacksEscape = false) :
    ∃ pieces, s.mapM rawPoint = .ok pieces ∧
      (∀ rest, stringBody (Text.concat pieces ++ CodePoint.ofChar '"' :: rest) = .ok (s, rest)) ∧
      (Text.concat pieces).filter CodePoint.isControl = s.filter CodePoint.staysRaw := by
  induction s with
  | nil => exact ⟨[], rfl, stringBody_quote, rfl⟩
  | cons c s ih =>
      obtain ⟨e, he, hread, hfilter⟩ := exists_rawPoint (h c List.mem_cons_self)
      obtain ⟨pieces, hpieces, hreads, hfilters⟩ := ih fun d hd => h d (List.mem_cons_of_mem c hd)
      refine ⟨e :: pieces, ?_, fun rest => ?_, ?_⟩
      · rw [List.mapM_cons, he, hpieces]
        rfl
      · rw [Text.concat, List.flatten_cons, List.append_assoc, hread, ← Text.concat, hreads]
        rfl
      · rw [Text.concat, List.flatten_cons, List.filter_append, hfilter, ← Text.concat, hfilters,
          ← List.filter_append, List.singleton_append]

/-- A string without a code point that lacks an escape is written and read back. -/
theorem exists_rawString {s : Text} (h : ∀ c ∈ s, c.lacksEscape = false) :
    ∃ t, rawString s = .ok t ∧ stringAt t 1 = .ok (s, t.length) ∧
      t.filter CodePoint.isControl = s.filter CodePoint.staysRaw := by
  obtain ⟨pieces, hpieces, hread, hfilter⟩ := exists_mapM_rawPoint h
  refine ⟨inQuotes (Text.concat pieces), ?_, ?_, ?_⟩
  · rw [rawString, hpieces]
    rfl
  · have hbody : dropTo (inQuotes (Text.concat pieces)) 1 =
        Text.concat pieces ++ [CodePoint.ofChar '"'] := rfl
    rw [stringAt_eq, hbody, hread]
    rfl
  · have hquote : (lit "\"").filter CodePoint.isControl = [] := by decide
    rw [inQuotes, List.filter_append, List.filter_append, hquote, hfilter, List.nil_append,
      List.append_nil]

/-- **Which strings are written without ASCII, and what is read back.** The first control point from 20 to 25, if
there is one, is the fault of a string. Otherwise the string is written and read back up to the end of its
text, and the control points in the text are those of the string from 26 to 31. So just the strings without a
control point from 20 to 31 are written with all control points escaped. -/
theorem rawString_restored_iff (s : Text) :
    (∀ c, s.find? CodePoint.lacksEscape = some c → rawString s = .error (.unescapable c)) ∧
    (s.find? CodePoint.lacksEscape = none → ∃ t, rawString s = .ok t ∧
      stringAt t 1 = .ok (s, t.length) ∧
      t.filter CodePoint.isControl = s.filter CodePoint.staysRaw) ∧
    ((∃ t, rawString s = .ok t ∧ stringAt t 1 = .ok (s, t.length) ∧ ∀ c ∈ t, c.isControl = false) ↔
      ∀ c ∈ s, c.val < 20 ∨ 32 ≤ c.val) := by
  have herror : ∀ c, s.find? CodePoint.lacksEscape = some c → rawString s = .error (.unescapable c) := by
    intro c hc
    rw [rawString, mapM_rawPoint_eq_error hc]
    rfl
  have hwritten : s.find? CodePoint.lacksEscape = none → ∃ t, rawString s = .ok t ∧
      stringAt t 1 = .ok (s, t.length) ∧
      t.filter CodePoint.isControl = s.filter CodePoint.staysRaw := fun hnone =>
    exists_rawString fun c hc => Bool.eq_false_iff.2 (List.find?_eq_none.1 hnone c hc)
  refine ⟨herror, hwritten, ?_, ?_⟩
  · rintro ⟨t, ht, -, hcontrols⟩ c hc
    cases hfind : s.find? CodePoint.lacksEscape with
    | some d =>
        rw [herror d hfind] at ht
        contradiction
    | none =>
        obtain ⟨u, hu, -, hfilter⟩ := hwritten hfind
        obtain rfl := Except.ok.inj (ht.symm.trans hu)
        have hnone : t.filter CodePoint.isControl = [] :=
          List.filter_eq_nil_iff.2 fun d hd => Bool.eq_false_iff.1 (hcontrols d hd)
        have hstays := List.filter_eq_nil_iff.1 (hfilter.symm.trans hnone) c hc
        have hlacks := List.find?_eq_none.1 hfind c hc
        simp only [CodePoint.staysRaw, CodePoint.lacksEscape, decide_eq_true_eq] at hstays hlacks
        omega
  · intro h
    have hlacks : ∀ c ∈ s, c.lacksEscape = false := by
      intro c hc
      have hval := h c hc
      exact decide_eq_false (by omega)
    have hstays : ∀ c ∈ s, ¬ c.staysRaw = true := by
      intro c hc hraw
      have hval := h c hc
      have hbetween := of_decide_eq_true hraw
      omega
    obtain ⟨t, ht, hread, hfilter⟩ := exists_rawString hlacks
    rw [List.filter_eq_nil_iff.2 hstays] at hfilter
    exact ⟨t, ht, hread, fun c hc => Bool.eq_false_iff.2 (List.filter_eq_nil_iff.1 hfilter c hc)⟩

/-- The control point 20 stops the writing, and the control point 26 is written as it is. -/
theorem controls_not_escaped :
    rawString [CodePoint.ofNat 20] = .error (.unescapable (CodePoint.ofNat 20)) ∧
    rawString [CodePoint.ofNat 26] = .ok [CodePoint.ofChar '"', CodePoint.ofNat 26, CodePoint.ofChar '"'] :=
  ⟨rfl, rfl⟩

end Wire

end ModuleStubs
