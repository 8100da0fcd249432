import ModuleStubs.Proofs.Grammar.Tokens
import ModuleStubs.Wire.Cursor

/-!
# Reading at a position and reading what is left

Documents are read by positions in the whole text, and most of what is proved about the reader is proved of a
reader that is given only what is left of the text. The two agree: an answer at a position and an answer for
the rest of the text from that position on name the same value, and the end or the fault that the one names by
its position the other names by what is left there (`Twin`). This is shown for each part of the reader, and
for all of them together by induction on the fuel (`twin_readers`), with the positions that one part hands to
the next compared at each step. `readAt_eq`, `parse_eq` and `stringAt_eq` say it of documents.
-/

set_option autoImplicit false

namespace ModuleStubs

namespace Wire

namespace Page

/-! ## What is left from a position on -/

/-- What is left of the text from a position on. -/
def rest (s : Page) (i : Nat) : Text := s.toList.drop i

variable {s : Page} {i : Nat} {c : CodePoint}

theorem length_rest (s : Page) (i : Nat) : (s.rest i).length = s.size - i := by simp [rest]

theorem rest_add (s : Page) (i n : Nat) : s.rest (i + n) = (s.rest i).drop n := by
  rw [rest, rest, List.drop_drop]

theorem slice_eq (s : Page) (i j : Nat) : s.slice i j = (s.rest i).take (j - i) := by
  rw [slice, Array.toList_extract, List.extract_eq_take_drop, rest]

theorem lt_size (h : s[i]? = some c) : i < s.size := (Array.getElem?_eq_some_iff.mp h).1

theorem rest_of_some (h : s[i]? = some c) : s.rest i = c :: s.rest (i + 1) := by
  obtain ⟨hi, hc⟩ := Array.getElem?_eq_some_iff.mp h
  rw [rest, List.drop_eq_getElem_cons (by simpa using hi), Array.getElem_toList, hc, rest]

theorem rest_of_none (h : s[i]? = none) : s.rest i = [] := by
  rw [rest, List.drop_eq_nil_iff, Array.length_toList]
  exact Array.getElem?_eq_none_iff.mp h

/-! ## Runs of code points -/

theorem spanAtMost_eq (p : CodePoint → Bool) : ∀ {n i : Nat}, s.size - i ≤ n →
    s.spanAtMost p n i = i + ((s.rest i).takeWhile p).length := by
  intro n
  induction n with
  | zero =>
      intro i h
      have hnone : s[i]? = none := Array.getElem?_eq_none_iff.mpr (by omega)
      rw [spanAtMost, rest_of_none hnone]
      rfl
  | succ n ih =>
      intro i h
      cases hc : s[i]? with
      | none => simp [spanAtMost, hc, rest_of_none hc]
      | some c =>
          cases hp : p c with
          | false => simp [spanAtMost, hc, rest_of_some hc, hp]
          | true =>
              simp only [spanAtMost, hc, rest_of_some hc, hp, if_true, List.takeWhile_cons,
                List.length_cons]
              rw [ih (by omega)]
              omega

theorem span_eq (s : Page) (p : CodePoint → Bool) (i : Nat) :
    s.span p i = i + ((s.rest i).takeWhile p).length := spanAtMost_eq p (Nat.le_refl _)

theorem rest_span (s : Page) (p : CodePoint → Bool) (i : Nat) :
    s.rest (s.span p i) = (s.rest i).dropWhile p := by
  have hsplit := List.takeWhile_append_dropWhile (p := p) (l := s.rest i)
  rw [span_eq, rest_add]
  calc (s.rest i).drop ((s.rest i).takeWhile p).length
      = ((s.rest i).takeWhile p ++ (s.rest i).dropWhile p).drop ((s.rest i).takeWhile p).length := by
        rw [hsplit]
    _ = (s.rest i).dropWhile p := List.drop_left

theorem slice_span (s : Page) (p : CodePoint → Bool) (i : Nat) :
    s.slice i (s.span p i) = (s.rest i).takeWhile p := by
  have hsplit := List.takeWhile_append_dropWhile (p := p) (l := s.rest i)
  rw [slice_eq, span_eq, Nat.add_sub_cancel_left]
  calc (s.rest i).take ((s.rest i).takeWhile p).length
      = ((s.rest i).takeWhile p ++ (s.rest i).dropWhile p).take ((s.rest i).takeWhile p).length := by
        rw [hsplit]
    _ = (s.rest i).takeWhile p := List.take_left

theorem span_le_size (p : CodePoint → Bool) (hi : i ≤ s.size) : s.span p i ≤ s.size := by
  have hlength := (List.takeWhile_prefix (l := s.rest i) p).length_le
  rw [length_rest] at hlength
  rw [span_eq]
  omega

/-- A run is empty just if its text is. -/
theorem lt_span_iff (s : Page) (p : CodePoint → Bool) (i : Nat) :
    i < s.span p i ↔ ((s.rest i).takeWhile p).isEmpty = false := by
  rw [span_eq, ← Bool.not_eq_true, List.isEmpty_iff_length_eq_zero]
  omega

/-! ## Names and numerals -/

theorem afterPrefix?_rest (word : Text) : ∀ i : Nat, Text.afterPrefix? word (s.rest i) =
    if s.startsAt word i then some (s.rest (i + word.length)) else none := by
  induction word with
  | nil => exact fun i => rfl
  | cons c word ih =>
      intro i
      cases hd : s[i]? with
      | none => simp [rest_of_none hd, Text.afterPrefix?, startsAt, hd]
      | some d =>
          rw [rest_of_some hd, Text.afterPrefix?, startsAt, hd, ih]
          by_cases hcd : c = d
          · subst hcd
            simp [Nat.add_assoc, Nat.add_comm 1]
          · simp [hcd, Ne.symm hcd]

theorem length_le_of_startsAt {word : Text} : ∀ {i : Nat}, i ≤ s.size → s.startsAt word i = true →
    i + word.length ≤ s.size := by
  induction word with
  | nil => exact fun hi _ => hi
  | cons c word ih =>
      intro i hi h
      rw [startsAt, Bool.and_eq_true, beq_iff_eq] at h
      have hword := ih (lt_size h.1) h.2
      rw [List.length_cons]
      omega

/-- The same answer, once with the position after it and once with the text after it. -/
def Ends {α : Type} (s : Page) (a : α × Nat) (b : α × Text) : Prop :=
  a.1 = b.1 ∧ a.2 ≤ s.size ∧ b.2 = s.rest a.2

theorem rel_findSome? {α β γ : Type} {R : β → γ → Prop} {f : α → Option β} {g : α → Option γ}
    (h : ∀ a, Option.Rel R (f a) (g a)) (as : List α) :
    Option.Rel R (as.findSome? f) (as.findSome? g) := by
  induction as with
  | nil => exact .none
  | cons a as ih =>
      have ha := h a
      rw [List.findSome?_cons, List.findSome?_cons]
      generalize f a = x at ha ⊢
      generalize g a = y at ha ⊢
      cases ha with
      | none => exact ih
      | some hab => exact .some hab

theorem ends_named? (hi : i ≤ s.size) :
    Option.Rel (Ends s) (s.named? i) (Json.named? (s.rest i)) := by
  refine rel_findSome? (fun (name, v) => ?_) Json.names
  simp only [afterPrefix?_rest]
  cases hstarts : s.startsAt name i with
  | false => exact .none
  | true => exact .some ⟨rfl, length_le_of_startsAt hi hstarts, rfl⟩

theorem wholePart?_rest (s : Page) (i : Nat) :
    Json.wholePart? (s.rest i) = (s.wholeEnd? i).map fun j => (s.slice i j, s.rest j) := by
  cases hc : s[i]? with
  | none => simp [rest_of_none hc, Json.wholePart?, wholeEnd?, hc]
  | some c =>
      have hrest := rest_of_some hc
      rw [hrest, Json.wholePart?, wholeEnd?, hc]
      by_cases hzero : c = '0'
      · simp [hzero, slice_eq, hrest]
      · by_cases hdigit : c.isDigit = true
        · simp only [hzero, hdigit, if_true, if_false, Option.map_some, slice_span, rest_span]
          rw [← hrest]
          rfl
        · simp [hzero, hdigit]

theorem wholeEnd?_le {j : Nat} (h : s.wholeEnd? i = some j) : j ≤ s.size := by
  rw [wholeEnd?] at h
  cases hc : s[i]? with
  | none => simp [hc] at h
  | some c =>
      have hi := lt_size hc
      simp only [hc] at h
      split at h
      · obtain rfl := Option.some.inj h
        exact hi
      · split at h
        · obtain rfl := Option.some.inj h
          exact span_le_size _ (Nat.le_of_lt hi)
        · contradiction

theorem fractionPart_rest (s : Page) (i : Nat) : Grammar.fractionPart (s.rest i) =
    (if i < s.fractionEnd i then some (s.slice (i + 1) (s.fractionEnd i)) else none,
      s.rest (s.fractionEnd i)) := by
  cases hc : s[i]? with
  | none => simp [rest_of_none hc, Grammar.fractionPart, Json.fraction?, fractionEnd, hc]
  | some c =>
      have hspan := lt_span_iff s CodePoint.isDigit (i + 1)
      have hrest := rest_of_some hc
      rw [hrest, Grammar.fractionPart, Json.fraction?, fractionEnd, hc]
      by_cases hpoint : c = '.'
      · subst hpoint
        cases hempty : ((s.rest (i + 1)).takeWhile CodePoint.isDigit).isEmpty with
        | true =>
            have hnone : ¬ i + 1 < s.span CodePoint.isDigit (i + 1) := by simp [hspan, hempty]
            simp [spanDigits, hempty, hnone, hrest]
        | false =>
            have hsome : i + 1 < s.span CodePoint.isDigit (i + 1) := hspan.mpr hempty
            simp [spanDigits, hempty, hsome, Nat.lt_of_succ_lt hsome, slice_span, rest_span]
      · simp [hpoint, hrest]

theorem fractionEnd_le (hi : i ≤ s.size) : s.fractionEnd i ≤ s.size := by
  rw [fractionEnd]
  split
  · exact hi
  · rename_i c hc
    dsimp only
    split
    · exact span_le_size _ (lt_size hc)
    · exact hi

/-- The sign of an exponent is left behind on both sides. -/
theorem exponentSign_rest (s : Page) (i : Nat) :
    (Json.exponentSign (s.rest i)).2 = s.rest (s.signEnd i) := by
  cases hc : s[i]? with
  | none => simp [rest_of_none hc, Json.exponentSign, signEnd, hc]
  | some c =>
      rw [rest_of_some hc, Json.exponentSign, signEnd, hc]
      by_cases hminus : c = '-'
      · simp [hminus]
      · by_cases hplus : c = '+'
        · simp [hplus]
        · simp [hminus, hplus, rest_of_some hc]

theorem le_signEnd (s : Page) (i : Nat) : i ≤ s.signEnd i := by
  rw [signEnd]
  repeat' split
  all_goals omega

theorem signEnd_le (hi : i ≤ s.size) : s.signEnd i ≤ s.size := by
  rw [signEnd]
  split
  · exact hi
  · rename_i c hc
    split
    · exact lt_size hc
    · exact hi

/-- The number of an exponent is read off its own text: its sign stands at the start, and its digits up to the
end. -/
theorem exponentValue_slice {e : Nat} (he : s.signEnd i ≤ e) :
    exponentValue (s.slice i e) = if (Json.exponentSign (s.rest i)).1
      then -(digitsValue (s.slice (s.signEnd i) e) : Int) else digitsValue (s.slice (s.signEnd i) e) := by
  have hslice : Json.exponentSign (s.slice i e) =
      ((Json.exponentSign (s.rest i)).1, s.slice (s.signEnd i) e) := by
    cases hc : s[i]? with
    | none => simp [slice_eq, rest_of_none hc, Json.exponentSign, signEnd, hc]
    | some c =>
        rw [signEnd, hc] at he ⊢
        have hcons : i < e → s.slice i e = c :: s.slice (i + 1) e := by
          intro hie
          obtain ⟨n, rfl⟩ : ∃ n, e = i + 1 + n := ⟨e - (i + 1), by omega⟩
          rw [slice_eq, slice_eq, rest_of_some hc, Nat.add_sub_cancel_left,
            show i + 1 + n - i = n + 1 by omega, List.take_succ_cons]
        by_cases hsign : c = '-' ∨ c = '+'
        · simp only [hsign, if_true] at he
          rw [hcons he, rest_of_some hc]
          rcases hsign with rfl | rfl
          · rfl
          · rfl
        · simp only [hsign, if_false] at he
          rw [not_or] at hsign
          rcases Nat.lt_or_ge i e with hie | hie
          · simp [hcons hie, rest_of_some hc, Json.exponentSign, hsign.1, hsign.2]
          · obtain rfl : e = i := Nat.le_antisymm hie he
            simp [slice_eq, rest_of_some hc, Json.exponentSign, hsign.1, hsign.2]
  rw [exponentValue, hslice]

theorem exponentPart_rest (s : Page) (i : Nat) : Grammar.exponentPart (s.rest i) =
    (if i < s.exponentEnd i then some (exponentValue (s.slice (i + 1) (s.exponentEnd i))) else none,
      s.rest (s.exponentEnd i)) := by
  cases hc : s[i]? with
  | none => simp [rest_of_none hc, Grammar.exponentPart, Json.exponent?, exponentEnd, hc]
  | some c =>
      have hsign := le_signEnd s (i + 1)
      have hspan := lt_span_iff s CodePoint.isDigit (s.signEnd (i + 1))
      by_cases hmark : Grammar.IsExponentMark c
      · rw [Grammar.exponentPart, rest_of_some hc, Grammar.exponent?_cons hmark, Grammar.exponentDigits?,
          exponentSign_rest, exponentEnd, hc]
        have hmark' : c = 'e' ∨ c = 'E' := hmark
        cases hempty : ((s.rest (s.signEnd (i + 1))).takeWhile CodePoint.isDigit).isEmpty with
        | true =>
            have hnone : ¬ s.signEnd (i + 1) < s.span CodePoint.isDigit (s.signEnd (i + 1)) := by
              simp [hspan, hempty]
            simp [spanDigits, hempty, hnone, ← rest_of_some hc]
        | false =>
            have hsome := hspan.mpr hempty
            have hlt : i < s.span CodePoint.isDigit (s.signEnd (i + 1)) := by omega
            simp [spanDigits, hempty, hmark', hsome, hlt, exponentValue_slice (Nat.le_of_lt hsome),
              slice_span, rest_span]
      · rw [Grammar.IsExponentMark] at hmark
        simp [Grammar.exponentPart, rest_of_some hc, Json.exponent?, exponentEnd, hc, hmark]

theorem exponentEnd_le (hi : i ≤ s.size) : s.exponentEnd i ≤ s.size := by
  rw [exponentEnd]
  split
  · exact hi
  · rename_i c hc
    dsimp only
    split
    · exact span_le_size _ (signEnd_le (lt_size hc))
    · exact hi

theorem ends_unsignedNumber? (negative : Bool) (s : Page) (i : Nat) :
    Option.Rel (Ends s) (s.unsignedNumber? negative i) (Json.unsignedNumeral? negative (s.rest i)) := by
  rw [Grammar.unsignedNumeral?_eq, wholePart?_rest, unsignedNumber?]
  cases hj : s.wholeEnd? i with
  | none => exact .none
  | some j =>
      refine .some ⟨?_, exponentEnd_le (fractionEnd_le (wholeEnd?_le hj)), ?_⟩
      · simp only [fractionPart_rest, exponentPart_rest]
      · simp only [fractionPart_rest, exponentPart_rest]

theorem ends_number? (s : Page) (i : Nat) :
    Option.Rel (Ends s) (s.number? i) (Json.numeral? (s.rest i)) := by
  cases hc : s[i]? with
  | none =>
      have hnone := ends_unsignedNumber? false s i
      rw [rest_of_none hc] at hnone ⊢
      rw [number?, hc, if_neg (by simp)]
      exact hnone
  | some c =>
      have hrest := rest_of_some hc
      by_cases hminus : c = '-'
      · subst hminus
        rw [number?, hc, if_pos rfl, hrest, Json.numeral?, if_pos rfl]
        exact ends_unsignedNumber? true s (i + 1)
      · have hne : ¬ s[i]? = some (CodePoint.ofChar '-') := by rw [hc]; simpa using hminus
        rw [number?, if_neg hne, hrest, Json.numeral?, if_neg hminus, ← hrest]
        exact ends_unsignedNumber? false s i

/-! ## Answers that agree -/

/-- An answer of the reader at a position and one of the reader of what is left: both are found and related, or
both name the same cause, the one by its position and the other by what is left there. -/
inductive Twin {α β : Type} (s : Page) (R : α → β → Prop) : Except ReadFault α → Except Stop β → Prop
  | ok {a : α} {b : β} (h : R a b) : Twin s R (.ok a) (.ok b)
  | error (cause : Cause) {k : Nat} (h : k ≤ s.size) :
      Twin s R (.error (.at cause (k + cause.offset))) (.error ⟨cause, s.size - k⟩)

section Twins

variable {α β γ δ : Type} {R : α → β → Prop} {S : γ → δ → Prop}

/-- Two faults agree if they have the same cause and the position and what is left fit together. -/
theorem Twin.fault {cause : Cause} {k position left : Nat} (hk : k ≤ s.size)
    (hposition : position = k + cause.offset) (hleft : left = s.size - k) :
    Twin s R (.error (.at cause position)) (.error ⟨cause, left⟩) := by
  rw [hposition, hleft]
  exact .error cause hk

theorem Twin.bind {x : Except ReadFault α} {y : Except Stop β} {f : α → Except ReadFault γ}
    {g : β → Except Stop δ} (h : Twin s R x y) (hfg : ∀ a b, R a b → Twin s S (f a) (g b)) :
    Twin s S (x >>= f) (y >>= g) := by
  cases h with
  | ok h => exact hfg _ _ h
  | error cause h => exact .error cause h

theorem Twin.map {x : Except ReadFault α} {y : Except Stop β} {f : α → γ} {g : β → δ}
    (h : Twin s R x y) (hfg : ∀ a b, R a b → S (f a) (g b)) : Twin s S (x.map f) (y.map g) := by
  cases h with
  | ok h => exact .ok (hfg _ _ h)
  | error cause h => exact .error cause h

end Twins

/-! ## Strings -/

theorem hexQuad?_of_none {k : Nat} (hk : k < 4) (h : s[i + k]? = none) : s.hexQuad? i = none := by
  have hsize := Array.getElem?_eq_none_iff.mp h
  have hlast : s[i + 3]? = none := Array.getElem?_eq_none_iff.mpr (by omega)
  rw [hexQuad?, hlast]
  cases s[i]? <;> cases s[i + 1]? <;> cases s[i + 2]? <;> rfl

/-- Four code points are there, or the digits of an escape are not. -/
theorem quad_cases (s : Page) (i : Nat) :
    (s.hexQuad? i = none ∧ ∀ x y z w r, s.rest i ≠ x :: y :: z :: w :: r) ∨
    (i + 4 ≤ s.size ∧ ∃ x y z w, s.rest i = x :: y :: z :: w :: s.rest (i + 4) ∧
      s.hexQuad? i = Json.hexQuad? x y z w) := by
  rcases Nat.lt_or_ge s.size (i + 4) with hshort | hlong
  · refine .inl ⟨hexQuad?_of_none (k := 3) (by omega) (Array.getElem?_eq_none_iff.mpr (by omega)), ?_⟩
    intro x y z w r h
    have hlength := length_rest s i
    rw [h] at hlength
    simp only [List.length_cons] at hlength
    omega
  · refine .inr ⟨hlong, ?_⟩
    have hat : ∀ k < 4, ∃ c, s[i + k]? = some c :=
      fun k hk => ⟨_, Array.getElem?_eq_getElem (by omega)⟩
    obtain ⟨x, hx⟩ : ∃ c, s[i]? = some c := hat 0 (by omega)
    obtain ⟨y, hy⟩ := hat 1 (by omega)
    obtain ⟨z, hz⟩ := hat 2 (by omega)
    obtain ⟨w, hw⟩ := hat 3 (by omega)
    refine ⟨x, y, z, w, ?_, ?_⟩
    · rw [rest_of_some hx, rest_of_some hy, rest_of_some hz, rest_of_some hw]
    · rw [hexQuad?, hx, hy, hz, hw]
      rfl

theorem twin_stringWithin : ∀ {n i : Nat}, i ≤ s.size → s.size - i ≤ n →
    Twin s (Ends s) (s.stringWithin n i) (stringBody (s.rest i)) := by
  intro n
  induction n with
  | zero =>
      intro i hi hn
      have hnone : s[i]? = none := Array.getElem?_eq_none_iff.mpr (by omega)
      rw [rest_of_none hnone]
      exact .fault hi rfl (by omega)
  | succ n ih =>
      intro i hi hn
      -- a code point more in front of both answers
      have hcons : ∀ (c : CodePoint) {j : Nat}, i < j → j ≤ s.size →
          Twin s (Ends s) ((s.stringWithin n j).map fun a => (c :: a.1, a.2))
            ((stringBody (s.rest j)).map fun b => (c :: b.1, b.2)) := by
        intro c j hij hj
        exact (ih hj (by omega)).map fun a b hends => ⟨congrArg _ hends.1, hends.2⟩
      cases hc : s[i]? with
      | none =>
          have hsize := Array.getElem?_eq_none_iff.mp hc
          rw [stringWithin, hc, rest_of_none hc]
          exact .fault hi rfl (by omega)
      | some c =>
          have hlt := lt_size hc
          rw [stringWithin, hc, rest_of_some hc, stringBody.eq_def]
          dsimp only
          split
          · exact .ok ⟨rfl, hlt, rfl⟩
          · split
            · cases he : s[i + 1]? with
              | none =>
                  have hsize := Array.getElem?_eq_none_iff.mp he
                  rw [rest_of_none he]
                  exact .fault hlt rfl (by omega)
              | some e =>
                  have hlt' := lt_size he
                  have hleft : (s.rest (i + 1 + 1)).length + 1 = s.size - (i + 1) := by
                    rw [length_rest]
                    omega
                  rw [rest_of_some he]
                  dsimp only
                  split
                  · rcases quad_cases s (i + 2) with ⟨hquad, hshort⟩ | ⟨hlong, x, y, z, w, hrest, hquad⟩
                    · rw [hquad]
                      dsimp only
                      split
                      · rename_i x y z w r hr
                        exact absurd hr (hshort x y z w r)
                      · exact .fault hlt rfl hleft
                    · rw [hquad, hrest]
                      dsimp only
                      cases Json.hexQuad? x y z w with
                      | none =>
                          rw [hrest] at hleft
                          exact .fault hlt rfl hleft
                      | some u => exact hcons _ (by omega) hlong
                  · cases Json.shortEscape? e with
                    | none => exact .fault hlt rfl hleft
                    | some p => exact hcons p (by omega) hlt'
            · exact hcons c (by omega) hlt

theorem twin_string (hi : i ≤ s.size) : Twin s (Ends s) (s.string i) (stringBody (s.rest i)) :=
  twin_stringWithin hi (Nat.le_refl _)

/-! ## Values -/

theorem skipBlanks_rest (s : Page) (i : Nat) : skipBlanks (s.rest i) = s.rest (s.span isSpace i) :=
  (rest_span s isSpace i).symm

/-- The five readers agree at every position, with so much fuel. -/
structure Readers (s : Page) (fuel : Nat) : Prop where
  value : ∀ {i : Nat}, i ≤ s.size →
    Twin s (Option.Rel (Ends s)) (s.readValue fuel i) (Wire.readValue fuel (s.rest i))
  list : ∀ {i : Nat}, i ≤ s.size →
    Twin s (Ends s) (s.readList fuel i) (Wire.readList fuel (s.rest i))
  items : ∀ {i : Nat}, i ≤ s.size →
    Twin s (Ends s) (s.readItems fuel i) (Wire.readItems fuel (s.rest i))
  object : ∀ {i : Nat}, i ≤ s.size →
    Twin s (Ends s) (s.readObject fuel i) (Wire.readObject fuel (s.rest i))
  fields : ∀ (fields : Record Json) {i : Nat}, i ≤ s.size →
    Twin s (Ends s) (s.readFields fuel fields i) (Wire.readFields fuel fields (s.rest i))

section Steps

variable {fuel : Nat} {fields : Record Json}

theorem twin_readValue (h : Readers s fuel) (hi : i ≤ s.size) :
    Twin s (Option.Rel (Ends s)) (s.readValue (fuel + 1) i) (Wire.readValue (fuel + 1) (s.rest i)) := by
  have hnamed := ends_named? hi
  have hnumber := ends_number? s i
  rw [readValue, Wire.readValue.eq_def]
  dsimp only
  generalize s.named? i = x at hnamed ⊢
  generalize Json.named? (s.rest i) = y at hnamed ⊢
  cases hnamed with
  | some hends => exact .ok (.some hends)
  | none =>
      dsimp only
      generalize s.number? i = x at hnumber ⊢
      generalize Json.numeral? (s.rest i) = y at hnumber ⊢
      cases hnumber with
      | some hends => exact .ok (.some hends)
      | none =>
          cases hc : s[i]? with
          | none =>
              rw [rest_of_none hc]
              exact .ok .none
          | some c =>
              have hlt := lt_size hc
              rw [rest_of_some hc]
              dsimp only
              split
              · exact (twin_string hlt).map fun a b hends => .some ⟨congrArg _ hends.1, hends.2⟩
              · split
                · exact (h.list hlt).map fun a b hends => .some ⟨congrArg _ hends.1, hends.2⟩
                · split
                  · exact (h.object hlt).map fun a b hends => .some ⟨congrArg _ hends.1, hends.2⟩
                  · exact .ok .none

/-- After the blanks from a position on, a code point is compared at its position and at the start of what is
left. -/
theorem next_cases (hi : i ≤ s.size) :
    (s[s.span isSpace i]? = none ∧ s.span isSpace i = s.size ∧ skipBlanks (s.rest i) = []) ∨
    ∃ c, s[s.span isSpace i]? = some c ∧ s.span isSpace i < s.size ∧
      skipBlanks (s.rest i) = c :: s.rest (s.span isSpace i + 1) := by
  have hle := span_le_size isSpace hi
  rw [skipBlanks_rest]
  cases hc : s[s.span isSpace i]? with
  | none =>
      have hge := Array.getElem?_eq_none_iff.mp hc
      exact .inl ⟨rfl, Nat.le_antisymm hle hge, rest_of_none hc⟩
  | some c => exact .inr ⟨c, rfl, lt_size hc, rest_of_some hc⟩

theorem length_rest_succ (h : i < s.size) : (s.rest (i + 1)).length + 1 = s.size - i := by
  rw [length_rest]
  omega

/-- Where the text ends no item is found. -/
theorem readItems_nil (fuel : Nat) : Wire.readItems fuel [] = .error ⟨.value, 0⟩ := by
  have hvalue : ∀ fuel, Wire.readValue fuel [] = .ok none := by
    intro fuel
    cases fuel with
    | zero => rfl
    | succ fuel => rfl
  cases fuel with
  | zero => rfl
  | succ fuel =>
      rw [Wire.readItems, hvalue]
      rfl

/-- Where the text ends no field is found. -/
theorem readFields_nil (fuel : Nat) (fields : Record Json) :
    Wire.readFields fuel fields [] = .error ⟨.propertyName, 0⟩ := by
  cases fuel with
  | zero => rfl
  | succ fuel => rfl

theorem twin_readList (h : Readers s fuel) (hi : i ≤ s.size) :
    Twin s (Ends s) (s.readList (fuel + 1) i) (Wire.readList (fuel + 1) (s.rest i)) := by
  rw [readList, Wire.readList]
  rcases next_cases hi with ⟨hnone, -, hblanks⟩ | ⟨c, hc, hlt, hblanks⟩
  · have hitems := h.items (span_le_size isSpace hi)
    rw [rest_of_none hnone, readItems_nil] at hitems
    rw [hblanks, hnone, if_neg (by simp)]
    exact hitems
  · rw [hblanks]
    dsimp only
    rw [hc]
    by_cases hclose : c = ']'
    · subst hclose
      rw [if_pos rfl, if_pos rfl]
      exact .ok ⟨rfl, hlt, rfl⟩
    · rw [if_neg (by simpa using hclose), if_neg hclose, ← rest_of_some hc]
      exact h.items (Nat.le_of_lt hlt)

theorem twin_readItems (h : Readers s fuel) (hi : i ≤ s.size) :
    Twin s (Ends s) (s.readItems (fuel + 1) i) (Wire.readItems (fuel + 1) (s.rest i)) := by
  rw [readItems, Wire.readItems]
  refine (h.value hi).bind fun a b hab => ?_
  cases hab with
  | none => exact .fault hi rfl (length_rest s i)
  | @some a b hends =>
      obtain ⟨v, e⟩ := a
      obtain ⟨v', r⟩ := b
      obtain ⟨rfl, he, rfl⟩ := hends
      dsimp only
      rcases next_cases he with ⟨hnone, hend, hblanks⟩ | ⟨c, hc, hlt, hblanks⟩
      · rw [hblanks, hnone, if_neg (by simp), if_neg (by simp)]
        exact .fault (Nat.le_of_eq hend) rfl (by omega)
      · rw [hblanks, hc]
        dsimp only
        by_cases hclose : c = ']'
        · subst hclose
          rw [if_pos rfl, if_pos rfl]
          exact .ok ⟨rfl, hlt, rfl⟩
        · rw [if_neg (by simpa using hclose), if_neg hclose]
          by_cases hcomma : c = ','
          · subst hcomma
            rw [if_pos rfl, if_pos rfl, skipBlanks_rest]
            refine (h.items (span_le_size isSpace hlt)).bind fun a b hends => ?_
            exact .ok ⟨congrArg _ hends.1, hends.2⟩
          · rw [if_neg (by simpa using hcomma), if_neg hcomma]
            exact .fault (Nat.le_of_lt hlt) rfl (length_rest_succ hlt)

theorem twin_readObject (h : Readers s fuel) (hi : i ≤ s.size) :
    Twin s (Ends s) (s.readObject (fuel + 1) i) (Wire.readObject (fuel + 1) (s.rest i)) := by
  rw [readObject, Wire.readObject]
  rcases next_cases hi with ⟨hnone, -, hblanks⟩ | ⟨c, hc, hlt, hblanks⟩
  · have hfields := h.fields [] (span_le_size isSpace hi)
    rw [rest_of_none hnone, readFields_nil] at hfields
    rw [hblanks, hnone, if_neg (by simp)]
    exact hfields
  · rw [hblanks]
    dsimp only
    rw [hc]
    by_cases hclose : c = '\x7d'
    · subst hclose
      rw [if_pos rfl, if_pos rfl]
      exact .ok ⟨rfl, hlt, rfl⟩
    · rw [if_neg (by simpa using hclose), if_neg hclose, ← rest_of_some hc]
      exact h.fields [] (Nat.le_of_lt hlt)

theorem twin_readFields (h : Readers s fuel) (hi : i ≤ s.size) :
    Twin s (Ends s) (s.readFields (fuel + 1) fields i)
      (Wire.readFields (fuel + 1) fields (s.rest i)) := by
  rw [readFields, Wire.readFields.eq_def]
  dsimp only
  cases hc : s[i]? with
  | none =>
      have hsize := Array.getElem?_eq_none_iff.mp hc
      rw [rest_of_none hc, if_neg (by simp)]
      exact .fault hi rfl (by omega)
  | some c =>
      have hlt := lt_size hc
      rw [rest_of_some hc]
      dsimp only
      by_cases hquote : c = '"'
      · subst hquote
        rw [if_pos rfl, if_neg (by simp)]
        refine (twin_string hlt).bind fun a b hends => ?_
        obtain ⟨key, e⟩ := a
        obtain ⟨key', r⟩ := b
        obtain ⟨rfl, he, rfl⟩ := hends
        dsimp only
        rcases next_cases he with ⟨hnone, hend, hblanks⟩ | ⟨d, hd, hlt, hblanks⟩
        · rw [hblanks, hnone, if_neg (by simp)]
          exact .fault (Nat.le_of_eq hend) rfl (by omega)
        · rw [hblanks, hd]
          dsimp only
          by_cases hcolon : d = ':'
          · subst hcolon
            rw [if_pos rfl, if_neg (by simp), skipBlanks_rest]
            refine (h.value (span_le_size isSpace hlt)).bind fun a b hab => ?_
            cases hab with
            | none => exact .fault (span_le_size isSpace hlt) rfl (length_rest s _)
            | @some a b hends =>
                obtain ⟨v, e⟩ := a
                obtain ⟨v', r⟩ := b
                obtain ⟨rfl, he, rfl⟩ := hends
                dsimp only
                -- behind the value the object ends, or a comma and another field follow
                rcases next_cases he with ⟨hnone, hend, hblanks⟩ | ⟨d, hd, hlt, hblanks⟩
                · rw [hblanks, hnone, if_neg (by simp), if_neg (by simp)]
                  exact .fault (Nat.le_of_eq hend) rfl (by omega)
                · rw [hblanks, hd]
                  dsimp only
                  by_cases hclose : d = '\x7d'
                  · subst hclose
                    rw [if_pos rfl, if_pos rfl]
                    exact .ok ⟨rfl, hlt, rfl⟩
                  · rw [if_neg (by simpa using hclose), if_neg hclose]
                    by_cases hcomma : d = ','
                    · subst hcomma
                      rw [if_pos rfl, if_pos rfl, skipBlanks_rest]
                      exact h.fields _ (span_le_size isSpace hlt)
                    · rw [if_neg (by simpa using hcomma), if_neg hcomma]
                      exact .fault (Nat.le_of_lt hlt) rfl (length_rest_succ hlt)
          · rw [if_neg (by simpa using hcolon), if_pos hcolon]
            exact .fault (Nat.le_of_lt hlt) rfl (length_rest_succ hlt)
      · rw [if_neg (by simpa using hquote), if_pos hquote]
        exact .fault hi rfl (length_rest_succ hlt)

end Steps

/-- The two readers agree at every position, whatever the fuel. -/
theorem twin_readers (s : Page) (fuel : Nat) : Readers s fuel := by
  induction fuel with
  | zero =>
      have hmissing : ∀ (cause : Cause) {α : Type} {i : Nat}, i ≤ s.size → cause.offset = 0 →
          Twin s (Ends (α := α) s) (.error (.at cause i)) (.error ⟨cause, (s.rest i).length⟩) :=
        fun cause _ i hi hoffset => .fault hi (by omega) (length_rest s i)
      refine ⟨fun hi => ?_, fun hi => ?_, fun hi => ?_, fun hi => ?_, fun fields _ hi => ?_⟩
      · rw [readValue, Wire.readValue]
        exact .ok .none
      · rw [readList, Wire.readList]
        exact hmissing .value hi rfl
      · rw [readItems, Wire.readItems]
        exact hmissing .value hi rfl
      · rw [readObject, Wire.readObject]
        exact hmissing .propertyName hi rfl
      · rw [readFields, Wire.readFields]
        exact hmissing .propertyName hi rfl
  | succ fuel ih =>
      exact
        { value := twin_readValue ih
          list := twin_readList ih
          items := twin_readItems ih
          object := twin_readObject ih
          fields := fun _ {_} hi => twin_readFields ih hi }

/-! ## Documents -/

/-- What the reader of what is left finds, with positions of the text. -/
def seen {α : Type} (s : Page) : Except Stop (α × Text) → Except ReadFault (α × Nat)
  | .error stop => .error (.ofStop s.size stop)
  | .ok (a, r) => .ok (a, s.size - r.length)

theorem Twin.seen_eq {α : Type} {x : Except ReadFault (α × Nat)} {y : Except Stop (α × Text)}
    (h : Twin s (Ends s) x y) : x = s.seen y := by
  cases h with
  | @ok a b hends =>
      obtain ⟨a, e⟩ := a
      obtain ⟨b, r⟩ := b
      obtain ⟨rfl, he, rfl⟩ := hends
      simp only [seen, length_rest]
      rw [Nat.sub_sub_self he]
  | @error cause k hk =>
      rw [seen, ReadFault.ofStop, Nat.sub_sub_self hk]

end Page

/-- What is found at the start of a text, with positions of the document that it ends. -/
def answer (doc : Text) : Except Stop (Option (Json × Text)) → Except ReadFault (Json × Nat)
  | .error stop => .error (.ofStop doc.length stop)
  | .ok none => .error .nothing
  | .ok (some (v, r)) => .ok (v, doc.length - r.length)

theorem rest_toArray (doc : Text) (i : Nat) : Page.rest doc.toArray i = doc.drop i := rfl

theorem valueAt_eq (doc : Text) {i : Nat} (hi : i ≤ doc.length) :
    Page.valueAt doc.toArray i = answer doc (readValue (fuelFor (doc.drop i)) (doc.drop i)) := by
  have htwin := (Page.twin_readers doc.toArray (fuelFor (doc.drop i))).value hi
  rw [rest_toArray] at htwin
  have hfuel : 3 * (doc.toArray.size - i) + 3 = fuelFor (doc.drop i) := by
    rw [fuelFor, List.length_drop, List.size_toArray]
  rw [Page.valueAt, hfuel]
  generalize Page.readValue doc.toArray (fuelFor (doc.drop i)) i = x at htwin ⊢
  generalize readValue (fuelFor (doc.drop i)) (doc.drop i) = y at htwin ⊢
  cases htwin with
  | error cause hk =>
      rw [List.size_toArray] at hk ⊢
      show Except.error _ = Except.error _
      rw [ReadFault.ofStop, Nat.sub_sub_self hk]
  | ok hab =>
      cases hab with
      | none => rfl
      | @some a b hends =>
          obtain ⟨v, e⟩ := a
          obtain ⟨v', r⟩ := b
          obtain ⟨rfl, he, rfl⟩ := hends
          show Except.ok _ = Except.ok _
          rw [Page.length_rest, ← List.size_toArray, Nat.sub_sub_self he]

theorem place_le (doc : Text) (position : Int) : Page.place doc.toArray position ≤ doc.length :=
  Nat.min_le_right _ _

theorem drop_place (doc : Text) (position : Int) :
    doc.drop (Page.place doc.toArray position) = dropTo doc position := by
  rw [dropTo, Page.place, List.size_toArray]
  rcases Nat.le_total position.toNat doc.length with hle | hge
  · rw [Nat.min_eq_left hle]
  · rw [Nat.min_eq_right hge, List.drop_length, List.drop_eq_nil_of_le hge]

/-- The value at a position, by what is left of the text from there on. -/
theorem readAt_eq (doc : Text) (position : Int) : readAt doc position =
    answer doc (readValue (fuelFor (dropTo doc position)) (dropTo doc position)) := by
  rw [readAt, valueAt_eq doc (place_le doc position), drop_place]

/-- The string at a position, by what is left of the text from there on. -/
theorem stringAt_eq (doc : Text) (position : Int) : stringAt doc position =
    Page.seen doc.toArray (stringBody (dropTo doc position)) := by
  rw [stringAt, (Page.twin_string (place_le doc position)).seen_eq, rest_toArray, drop_place]

/-- What is found behind the blanks of a document, with nothing but blanks behind it. -/
def whole (doc : Text) : Except Stop (Option (Json × Text)) → Except ReadFault Json
  | .error stop => .error (.ofStop doc.length stop)
  | .ok none => .error .nothing
  | .ok (some (v, r)) =>
    match skipBlanks r with
    | [] => .ok v
    | extra => .error (.extraData (doc.length - extra.length) doc.length)

/-- The value of a document, by what is left behind its blanks. -/
theorem parse_eq (doc : Text) :
    parse doc = whole doc (readValue (fuelFor (skipBlanks doc)) (skipBlanks doc)) := by
  have hstart : Page.span doc.toArray isSpace 0 ≤ doc.length :=
    Page.span_le_size (s := doc.toArray) isSpace (Nat.zero_le _)
  have hdrop : doc.drop (Page.span doc.toArray isSpace 0) = skipBlanks doc := by
    rw [← rest_toArray, ← Page.skipBlanks_rest, rest_toArray, List.drop_zero]
  have htwin := (Page.twin_readers doc.toArray (fuelFor (skipBlanks doc))).value hstart
  rw [rest_toArray, hdrop] at htwin
  rw [parse, valueAt_eq doc hstart, hdrop]
  generalize Page.readValue doc.toArray _ _ = x at htwin
  generalize readValue (fuelFor (skipBlanks doc)) (skipBlanks doc) = y at htwin ⊢
  cases htwin with
  | error cause hk => rfl
  | ok hab =>
      cases hab with
      | none => rfl
      | @some a b hends =>
          obtain ⟨v, e⟩ := a
          obtain ⟨v', r⟩ := b
          obtain ⟨rfl, he, rfl⟩ := hends
          have hend : doc.length - (Page.rest doc.toArray e).length = e := by
            rw [Page.length_rest, ← List.size_toArray, Nat.sub_sub_self he]
          have hlength := Page.length_rest doc.toArray (Page.span doc.toArray isSpace e)
          have hle : Page.span doc.toArray isSpace e ≤ doc.toArray.size := Page.span_le_size isSpace he
          simp only [answer, hend, whole, Page.skipBlanks_rest]
          show (if Page.span doc.toArray isSpace e = doc.toArray.size then _ else _) = _
          -- nothing is left just if the blanks reach the end
          generalize Page.rest doc.toArray (Page.span doc.toArray isSpace e) = extra at hlength ⊢
          cases extra with
          | nil =>
              rw [List.length_nil] at hlength
              rw [if_pos (by omega)]
          | cons c extra =>
              have hstop : doc.length - (c :: extra).length = Page.span doc.toArray isSpace e := by
                rw [hlength, ← List.size_toArray, Nat.sub_sub_self hle]
              rw [List.length_cons] at hlength
              rw [if_neg (by omega)]
              dsimp only
              rw [hstop, List.size_toArray]

end Wire

end ModuleStubs
