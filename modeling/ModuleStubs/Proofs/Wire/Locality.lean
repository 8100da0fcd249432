import ModuleStubs.Proofs.Wire.Faults

/-!
# A value is read the same way wherever it stands

The reader is asked for the value at a position of a text, and names positions of that text in its answers.
What stands before the position does not matter: with more text in front the same value is read, and its end,
or the position of the fault, moves by the length of that text. What stands behind the value does not matter
either: the value lies inside the text, is not empty, and its piece of the text alone is a document that
denotes it (`readAt_local`).
-/

set_option autoImplicit false

namespace ModuleStubs

namespace Wire

open Grammar

/-! ## Faults lie inside the text -/

theorem length_skipBlanks_le (t : Text) : (skipBlanks t).length ≤ t.length :=
  (List.dropWhile_suffix _).length_le

theorem Arises.left_le {a : Place} {t : Text} {s : Stop} (h : Arises a t s) : s.left ≤ t.length := by
  -- behind a string and behind a value less is left than before it
  have hstring : ∀ {b name r : Text}, stringBody b = .ok (name, r) → r.length ≤ b.length := by
    intro b name r hb
    obtain ⟨p, rfl, -⟩ := body_of_stringBody hb
    simp only [List.length_append, List.length_cons]
    omega
  have hvalue : ∀ {fuel : Nat} {t r : Text} {v : Json}, readValue fuel t = .ok (some (v, r)) →
      r.length ≤ t.length := by
    intro fuel t r v ht
    obtain ⟨p, rfl, -⟩ := value_of_readValue ht
    rw [List.length_append]
    omega
  cases h with
  | string h => exact Nat.le_succ_of_le (stringBody_eq_error h).2
  | missingItem t => exact Nat.le_refl _
  | itemComma hread hnext => exact Nat.le_trans (length_skipBlanks_le _) (hvalue hread)
  | missingName t => exact Nat.le_refl _
  | name h => exact Nat.le_succ_of_le (stringBody_eq_error h).2
  | @colon b name r hname =>
      apply Nat.le_succ_of_le
      exact Nat.le_trans (length_skipBlanks_le r) (hstring hname)
  | @missingValue b name r u hname hcolon =>
      have hr := hstring hname
      have hskip := length_skipBlanks_le r
      have hu := length_skipBlanks_le u
      rw [hcolon, List.length_cons] at hskip
      simp only [List.length_cons]
      omega
  | @fieldComma fuel b name r u r' v hname hcolon hread hnext =>
      have hr := hstring hname
      have hskip := length_skipBlanks_le r
      have hu := length_skipBlanks_le u
      have hr' := hvalue hread
      have hskip' := length_skipBlanks_le r'
      rw [hcolon, List.length_cons] at hskip
      simp only [List.length_cons]
      omega

theorem left_le_of_readValue {fuel : Nat} {t : Text} {s : Stop} (h : readValue fuel t = .error s) :
    s.left ≤ t.length := by
  obtain ⟨b, u, hleads, harises⟩ := exists_origin (a := .value) h
  exact Nat.le_trans harises.left_le hleads.suffix.length_le

/-! ## Text before the position -/

/-- The fault, with so many more code points in front of the text. -/
def ReadFault.moved (n : Nat) : ReadFault → ReadFault
  | .nothing => .nothing
  | .at cause position => .at cause (n + position)
  | .extraData start stop => .extraData (n + start) (n + stop)

/-- The answer, with so many more code points in front of the text. -/
def movedAnswer (n : Nat) : Except ReadFault (Json × Nat) → Except ReadFault (Json × Nat)
  | .error f => .error (f.moved n)
  | .ok (v, e) => .ok (v, n + e)

theorem movedAnswer_eq_ok {n e : Nat} {v : Json} {x : Except ReadFault (Json × Nat)} :
    movedAnswer n x = .ok (v, e) ↔ ∃ d : Nat, (d : Int) = e - n ∧ x = .ok (v, d) := by
  cases x with
  | error f => simp [movedAnswer]
  | ok found =>
      obtain ⟨w, m⟩ := found
      simp only [movedAnswer, Except.ok.injEq, Prod.mk.injEq]
      constructor
      · rintro ⟨rfl, rfl⟩
        exact ⟨m, by omega, rfl, rfl⟩
      · rintro ⟨d, hd, rfl, rfl⟩
        exact ⟨rfl, by omega⟩

theorem movedAnswer_eq_error {n : Nat} {f : ReadFault} {x : Except ReadFault (Json × Nat)} :
    movedAnswer n x = .error f ↔ ∃ f₀, f = ReadFault.moved n f₀ ∧ x = .error f₀ := by
  cases x with
  | ok found => simp [movedAnswer]
  | error f₀ =>
      simp only [movedAnswer, Except.error.injEq]
      constructor
      · rintro rfl
        exact ⟨f₀, rfl, rfl⟩
      · rintro ⟨f₁, rfl, rfl⟩
        rfl

theorem dropTo_append (p t : Text) : dropTo (p ++ t) p.length = t := by
  rw [dropTo, Int.toNat_natCast, List.drop_left]

/-- With a text in front the answer is the same, moved by the length of that text. -/
theorem readAt_append (p t : Text) :
    readAt (p ++ t) p.length = movedAnswer p.length (readAt t 0) := by
  have hzero : dropTo t 0 = t := rfl
  rw [readAt_eq, readAt_eq, dropTo_append, hzero]
  cases hread : readValue (fuelFor t) t with
  | error s =>
      -- no fault lies before the text that is read
      have hleft := left_le_of_readValue hread
      have hposition : (p ++ t).length - s.left + s.cause.offset =
          p.length + (t.length - s.left + s.cause.offset) := by
        rw [List.length_append]
        omega
      simp only [answer, ReadFault.ofStop, hposition]
      rfl
  | ok found =>
      cases found with
      | none => rfl
      | some found =>
          obtain ⟨v, rest⟩ := found
          obtain ⟨q, rfl, -⟩ := value_of_readValue hread
          have hend : (p ++ (q ++ rest)).length - rest.length =
              p.length + ((q ++ rest).length - rest.length) := by
            simp only [List.length_append]
            omega
          simp only [answer, hend]
          rfl

/-! ## Text behind the value -/

/-- The value at a position is that of a piece of the text that starts there. -/
theorem exists_value_of_readAt {doc : Text} {i e : Nat} {v : Json} (hi : i ≤ doc.length)
    (h : readAt doc i = .ok (v, e)) :
    ∃ before p rest, doc = before ++ (p ++ rest) ∧ Value .wire p v ∧ before.length = i ∧
      e = i + p.length := by
  have hdrop : dropTo doc i = doc.drop i := by rw [dropTo, Int.toNat_natCast]
  rw [readAt_eq, hdrop, answer.eq_def] at h
  split at h
  · contradiction
  · contradiction
  · rename_i w rest hread
    obtain ⟨rfl, rfl⟩ := Prod.mk.inj (Except.ok.inj h)
    obtain ⟨p, hp, hvalue⟩ := value_of_readValue hread
    have hlength := congrArg List.length hp
    rw [List.length_drop, List.length_append] at hlength
    refine ⟨doc.take i, p, rest, ?_, hvalue, List.length_take_of_le hi, by omega⟩
    rw [← hp, List.take_append_drop]

theorem drop_take_append {before p rest : Text} {i e : Nat} (hi : before.length = i)
    (he : e = i + p.length) : ((before ++ (p ++ rest)).take e).drop i = p := by
  subst hi he
  rw [← List.append_assoc, ← List.length_append, List.take_left, List.drop_left]

/-- **Reading is local.** With more text in front the same value is read and its end moves by the length of that
text, and a fault moves in the same way; and a value that is read at a position in a text is not empty, lies in
the text, and is the value of its piece of the text alone. -/
theorem readAt_local (v : Json) :
    (∀ (p t : Text) (e : Nat), readAt (p ++ t) p.length = .ok (v, e) ↔
      ∃ d : Nat, (d : Int) = e - p.length ∧ readAt t 0 = .ok (v, d)) ∧
    (∀ (p t : Text) (f : ReadFault), readAt (p ++ t) p.length = .error f ↔
      ∃ f₀, f = ReadFault.moved p.length f₀ ∧ readAt t 0 = .error f₀) ∧
    (∀ (s : Text) (i e : Nat), i ≤ s.length → readAt s i = .ok (v, e) →
      i < e ∧ e ≤ s.length ∧ parse ((s.take e).drop i) = .ok v) := by
  refine ⟨?_, ?_, ?_⟩
  · intro p t e
    rw [readAt_append]
    exact movedAnswer_eq_ok
  · intro p t f
    rw [readAt_append]
    exact movedAnswer_eq_error
  · intro s i e hi h
    obtain ⟨before, p, rest, rfl, hvalue, hbefore, he⟩ := exists_value_of_readAt hi h
    have hpos := hvalue.length_pos
    simp only [List.length_append]
    refine ⟨by omega, by omega, ?_⟩
    rw [drop_take_append hbefore he]
    exact parse_of_value hvalue

/-- A list between two other texts is read there as it is read at the start of a text, and alone. -/
theorem readAt_local_inside :
    readAt (lit "at: [1.5e2, \x7b\"a\": -0\x7d]e5") 4 =
      .ok (.list [.float (Binary64.ofRatio false 150 1), .object [(lit "a", .int 0)]], 22) ∧
    readAt (lit "[1.5e2, \x7b\"a\": -0\x7d]e5") 0 =
      .ok (.list [.float (Binary64.ofRatio false 150 1), .object [(lit "a", .int 0)]], 18) ∧
    parse (lit "[1.5e2, \x7b\"a\": -0\x7d]") =
      .ok (.list [.float (Binary64.ofRatio false 150 1), .object [(lit "a", .int 0)]]) := by
  have hat : readAt (lit "at: [1.5e2, \x7b\"a\": -0\x7d]e5") (4 : Nat) =
      .ok (.list [.float (Binary64.ofRatio false 150 1), .object [(lit "a", .int 0)]], 22) := by
    decide +kernel
  obtain ⟨hfront, -, hpiece⟩ := readAt_local
    (.list [.float (Binary64.ofRatio false 150 1), .object [(lit "a", .int 0)]])
  obtain ⟨-, -, hparse⟩ := hpiece _ 4 22 (by decide) hat
  have hslice : (List.take 22 (lit "at: [1.5e2, \x7b\"a\": -0\x7d]e5")).drop 4 =
      lit "[1.5e2, \x7b\"a\": -0\x7d]" := by decide
  have hsplit : lit "at: [1.5e2, \x7b\"a\": -0\x7d]e5" =
      lit "at: " ++ lit "[1.5e2, \x7b\"a\": -0\x7d]e5" := by decide
  rw [hslice] at hparse
  refine ⟨hat, ?_, hparse⟩
  rw [hsplit] at hat
  obtain ⟨d, hd, hread⟩ := (hfront (lit "at: ") _ 22).1 hat
  have hlength : (lit "at: ").length = 4 := by decide
  rw [hlength] at hd
  obtain rfl : d = 18 := by omega
  exact hread

end Wire

end ModuleStubs
