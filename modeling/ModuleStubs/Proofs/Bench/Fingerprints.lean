import ModuleStubs.Proofs.Bench.Pieces

/-!
# Which results a fingerprint tells apart

The bytes of a fingerprint do not say where a piece ends. Over an alphabet they tell all results apart exactly if
every piece ends where the next one can be seen to start (`Alphabet.Delimits`): an integer shows by its sign, and
no text holds what looks like the start of a piece. The first half reads the pieces from left to right
(`Alphabet.Delimits.script_inj`); for the second every way of breaking the rule gives two results with the same bytes
(`Alphabet.not_separates_of_copied`, `Alphabet.not_separates_of_nonneg`).
-/

set_option autoImplicit false

namespace ModuleStubs

/-! ## Numerals -/

theorem decimal_one : decimal 1 = [CodePoint.ofChar '1'] := by
  have hdigit : (CodePoint.ofChar '1').isDigit = true := rfl
  exact decimal_digitValue hdigit

/-- A one can stand before the numeral of a number below a thousand, and the number that this gives is below two
thousand. -/
theorem exists_decimal_eq_one_cons {n : Nat} (h : n < 1000) :
    ∃ k, 0 < k ∧ k < 2000 ∧ decimal k = CodePoint.ofChar '1' :: decimal n := by
  have hdigit : ∀ n < 10, ∃ k, 0 < k ∧ k < 20 ∧ decimal k = CodePoint.ofChar '1' :: decimal n := by
    intro n hn
    refine ⟨10 * 1 + n, by omega, by omega, ?_⟩
    rw [decimal_snoc Nat.one_pos hn, decimal_one, decimal, if_pos hn]
    rfl
  -- one more digit on both sides
  have hstep : ∀ b, 1 ≤ b →
      (∀ n < b, ∃ k, 0 < k ∧ k < 2 * b ∧ decimal k = CodePoint.ofChar '1' :: decimal n) →
      ∀ n < 10 * b, ∃ k, 0 < k ∧ k < 2 * (10 * b) ∧ decimal k = CodePoint.ofChar '1' :: decimal n := by
    intro b hb hbelow n hn
    rcases Nat.lt_or_ge n 10 with hlow | hhigh
    · obtain ⟨k, hpos, hk, hdecimal⟩ := hdigit n hlow
      exact ⟨k, hpos, by omega, hdecimal⟩
    · obtain ⟨k, hpos, hk, hdecimal⟩ := hbelow (n / 10) (by omega)
      refine ⟨10 * k + n % 10, by omega, by omega, ?_⟩
      rw [decimal_snoc hpos (Nat.mod_lt _ (by decide)), hdecimal, decimal.eq_def n,
        if_neg (Nat.not_lt.2 hhigh)]
      rfl
  exact hstep 100 (by decide) (hstep 10 (by decide) hdigit) n h

namespace Alphabet

/-! ## Alphabets -/

/-- The bytes that a walk feeds tell apart any two results over the alphabet whose lists are nested at most eight
deep. -/
def Separates (A : Alphabet) (walk : Walk) : Prop :=
  ∀ v w : Result, v.Plain A 8 → w.Plain A 8 →
    ∀ bytes, walk.feed v = .ok bytes → walk.feed w = .ok bytes → v = w

/-- The start of a piece can be seen. -/
structure Delimits (A : Alphabet) : Prop where
  /-- Integers start with a sign. -/
  signed : ∀ n, A.ints n → n < 0
  /-- No text holds the letter that a text starts with. -/
  text : ¬ A.points 's'
  /-- No text holds the letter of a list and a digit. -/
  items : A.points 'L' → ∀ c, A.points c → c.isDigit = false
  /-- No text holds a sign and the digits of an integer. -/
  int : A.points '-' → ∀ n, A.ints n → ∃ c ∈ decimal n.natAbs, ¬ A.points c

/-! ## Pieces that can be seen to start -/

namespace Delimits

variable {A : Alphabet} {ps qs : List Piece}

/-- No piece starts with a digit. -/
theorem head?_script (hA : A.Delimits) (hps : ∀ p ∈ ps, p.IsOver A) :
    ∀ c ∈ (Piece.script ps).head?, c.isDigit = false := by
  intro c hc
  cases ps with
  | nil => contradiction
  | cons p ps =>
      have hp := hps p List.mem_cons_self
      rw [Piece.script_cons] at hc
      cases p with
      | int n =>
          rw [Piece.spelled_int, decimalInt_of_neg (hA.signed _ hp)] at hc
          obtain rfl := Option.some.inj hc
          rfl
      | text s =>
          obtain rfl := Option.some.inj hc
          rfl
      | items k =>
          obtain rfl := Option.some.inj hc
          rfl

/-- Digits that are not all of the alphabet do not start inside a text. -/
theorem decimal_append_ne {m : Nat} {u r s : Text} (hm : ∃ c ∈ decimal m, ¬ A.points c)
    (hu : ∀ c ∈ u, A.points c) (hr : ∀ c ∈ r.head?, c.isDigit = false) :
    decimal m ++ s ≠ u ++ r := by
  intro h
  obtain ⟨c, hc, hpoint⟩ := hm
  rcases List.append_eq_append_iff.1 h with ⟨a, rfl, -⟩ | ⟨a, hdecimal, rfl⟩
  · exact hpoint (hu c (List.mem_append_left _ hc))
  · cases a with
    | nil =>
        rw [hdecimal, List.append_nil] at hc
        exact hpoint (hu c hc)
    | cons d a =>
        -- the text ends among the digits, so that a digit follows it
        have hd : d ∈ decimal m := by
          rw [hdecimal]
          exact List.mem_append_right _ List.mem_cons_self
        have hdigit := isDigit_of_mem_decimal m d hd
        rw [hr d rfl] at hdigit
        contradiction

/-- No piece starts inside a text. -/
theorem eq_nil_of_script (hA : A.Delimits) {u : Text} (hps : ∀ p ∈ ps, p.IsOver A)
    (hqs : ∀ q ∈ qs, q.IsOver A) (hu : ∀ c ∈ u, A.points c)
    (h : Piece.script ps = u ++ Piece.script qs) : u = [] := by
  have hnext := hA.head?_script hqs
  cases u with
  | nil => rfl
  | cons c u =>
      have hc := hu c List.mem_cons_self
      have hrest : ∀ d ∈ u, A.points d := fun d hd => hu d (List.mem_cons_of_mem _ hd)
      exfalso
      cases ps with
      | nil => contradiction
      | cons p ps =>
          have hp := hps p List.mem_cons_self
          rw [Piece.script_cons] at h
          cases p with
          | int n =>
              rw [Piece.spelled_int, decimalInt_of_neg (hA.signed _ hp)] at h
              obtain ⟨rfl, htail⟩ := List.cons.inj h
              exact decimal_append_ne (hA.int hc n hp) hrest hnext htail
          | text s =>
              obtain ⟨rfl, -⟩ := List.cons.inj h
              exact hA.text hc
          | items k =>
              obtain ⟨rfl, htail⟩ := List.cons.inj h
              have hdigits : ∃ d ∈ decimal k, ¬ A.points d := by
                obtain ⟨d, hd⟩ := List.exists_mem_of_ne_nil _ (decimal_ne_nil k)
                refine ⟨d, hd, fun hpoint => ?_⟩
                have hdigit := isDigit_of_mem_decimal k d hd
                rw [hA.items hc d hpoint] at hdigit
                contradiction
              exact decimal_append_ne hdigits hrest hnext htail

/-- The first piece ends at the same place in any two readings of a text. -/
theorem spelled_append_inj (hA : A.Delimits) {p q : Piece} (hp : p.IsOver A) (hq : q.IsOver A)
    (hps : ∀ p ∈ ps, p.IsOver A) (hqs : ∀ q ∈ qs, q.IsOver A)
    (h : p.spelled ++ Piece.script ps = q.spelled ++ Piece.script qs) :
    p = q ∧ Piece.script ps = Piece.script qs := by
  have hr := hA.head?_script hps
  have hs := hA.head?_script hqs
  cases p with
  | int m =>
      rw [Piece.spelled_int, decimalInt_of_neg (hA.signed _ hp)] at h
      cases q with
      | int n =>
          rw [Piece.spelled_int, decimalInt_of_neg (hA.signed _ hq)] at h
          obtain ⟨habs, hrest⟩ := decimal_append_inj hr hs (List.cons.inj h).2
          have hm := hA.signed m hp
          have hn := hA.signed n hq
          have hmn : m = n := by omega
          exact ⟨congrArg _ hmn, hrest⟩
      | text t => exact absurd (List.cons.inj h).1 (by decide)
      | items k => exact absurd (List.cons.inj h).1 (by decide)
  | text s =>
      cases q with
      | int n =>
          rw [Piece.spelled_int, decimalInt_of_neg (hA.signed _ hq)] at h
          exact absurd (List.cons.inj h).1 (by decide)
      | text t =>
          -- the longer text would hold the start of a piece
          rcases List.append_eq_append_iff.1 (List.cons.inj h).2 with ⟨u, rfl, hu⟩ | ⟨u, rfl, hu⟩
          · obtain rfl := hA.eq_nil_of_script hps hqs (fun c hc => hq c (List.mem_append_right _ hc)) hu
            rw [List.append_nil]
            exact ⟨rfl, hu⟩
          · obtain rfl := hA.eq_nil_of_script hqs hps (fun c hc => hp c (List.mem_append_right _ hc)) hu
            rw [List.append_nil]
            exact ⟨rfl, hu.symm⟩
      | items k => exact absurd (List.cons.inj h).1 (by decide)
  | items j =>
      cases q with
      | int n =>
          rw [Piece.spelled_int, decimalInt_of_neg (hA.signed _ hq)] at h
          exact absurd (List.cons.inj h).1 (by decide)
      | text t => exact absurd (List.cons.inj h).1 (by decide)
      | items k =>
          obtain ⟨hcount, hrest⟩ := decimal_append_inj hr hs (List.cons.inj h).2
          exact ⟨congrArg _ hcount, hrest⟩

/-- The pieces are determined by the text that they make up. -/
theorem script_inj (hA : A.Delimits) (hps : ∀ p ∈ ps, p.IsOver A) (hqs : ∀ q ∈ qs, q.IsOver A)
    (h : Piece.script ps = Piece.script qs) : ps = qs := by
  -- both readings are followed from the left, piece by piece
  induction ps generalizing qs with
  | nil =>
      cases qs with
      | nil => rfl
      | cons q qs =>
          rw [Piece.script_cons] at h
          exact absurd (List.append_eq_nil_iff.1 h.symm).1 q.spelled_ne_nil
  | cons p ps ih =>
      cases qs with
      | nil =>
          rw [Piece.script_cons] at h
          exact absurd (List.append_eq_nil_iff.1 h).1 p.spelled_ne_nil
      | cons q qs =>
          have hps' : ∀ p ∈ ps, p.IsOver A := fun p hp => hps p (List.mem_cons_of_mem _ hp)
          have hqs' : ∀ q ∈ qs, q.IsOver A := fun q hq => hqs q (List.mem_cons_of_mem _ hq)
          rw [Piece.script_cons, Piece.script_cons] at h
          obtain ⟨rfl, hrest⟩ := hA.spelled_append_inj (hps p List.mem_cons_self)
            (hqs q List.mem_cons_self) hps' hqs' h
          rw [ih hps' hqs' hrest]

theorem separates (hA : A.Delimits) (walk : Walk) : A.Separates walk := by
  intro v w hv hw bytes hfeed hfeed'
  obtain ⟨-, rfl⟩ := (Result.feed_eq_ok_iff hv).1 hfeed
  obtain ⟨-, hbytes⟩ := (Result.feed_eq_ok_iff hw).1 hfeed'
  have hscript := Text.utf8_injective hbytes
  have hpieces := hA.script_inj (Result.isOver_of_mem_pieces hv) (Result.isOver_of_mem_pieces hw) hscript
  exact Result.eq_of_pieces_eq hv hw hpieces

end Delimits

/-! ## Results with the same bytes -/

variable {A : Alphabet} {walk : Walk}

theorem not_separates {v w : Result} (hv : v.Plain A 8) (hw : w.Plain A 8)
    (hscalar : v.script.isScalar = true) (hscript : v.script = w.script) (hne : v ≠ w) :
    ¬ A.Separates walk := by
  intro h
  have hfeed : walk.feed v = .ok v.script.utf8 := (Result.feed_eq_ok_iff hv).2 ⟨hscalar, rfl⟩
  have hfeed' : walk.feed w = .ok v.script.utf8 :=
    (Result.feed_eq_ok_iff hw).2 ⟨hscript ▸ hscalar, congrArg _ hscript⟩
  exact hne (h v w hv hw _ hfeed hfeed')

theorem isScalar_letters (k : Nat) :
    Text.isScalar (List.replicate k (CodePoint.ofChar 's')) = true := by
  rw [Text.isScalar_iff]
  intro c hc
  rw [List.eq_of_mem_replicate hc, CodePoint.isSurrogate_ofChar]

theorem flatMap_script_blanks (k : Nat) :
    (List.replicate k (Result.str [])).flatMap Result.script =
      List.replicate k (CodePoint.ofChar 's') := by
  induction k with
  | zero => rfl
  | succ k ih =>
      rw [List.replicate_succ, List.flatMap_cons, ih, Result.script_str, List.replicate_succ]
      rfl

/-- A text may copy the first piece of a result, with empty texts for what belongs to it. Then the copy and the
result can change places. -/
theorem not_separates_of_copied {v : Result} {k : Nat} {t : Text} (hv : v.Plain A 7)
    (hscript : v.script = t ++ List.replicate k (CodePoint.ofChar 's')) (hk : k ≤ 9)
    (ht : ∀ c ∈ t, A.points c) (hscalar : t.isScalar = true) (hne : t ≠ []) : ¬ A.Separates walk := by
  have hlength : k + 3 ≤ 2000 := by omega
  -- the copy stands for the result, and the result with the letter of the copy for the copy
  apply not_separates (v := .list (.str [] :: v :: .str t :: List.replicate k (.str [])))
    (w := .list (.str t :: (List.replicate k (.str []) ++ [.str [], v])))
  · simpa [hv, hlength] using ht
  · simpa [hv, hlength, or_imp, forall_and] using ht
  · simp [flatMap_script_blanks, hscript, Text.isScalar_decimal, isScalar_letters, hscalar]
  · simp [flatMap_script_blanks, hscript]
  · simp [Ne.symm hne]

/-- A small integer without a sign can belong to the length before it. -/
theorem not_separates_of_nonneg {n : Int} (hn : A.ints n) (hsign : 0 ≤ n) (hsmall : n < 1000) :
    ¬ A.Separates walk := by
  obtain ⟨k, hpos, hk, hdecimal⟩ := exists_decimal_eq_one_cons (by omega : n.natAbs < 1000)
  obtain ⟨j, rfl⟩ : ∃ j, k = j + 1 := ⟨k - 1, by omega⟩
  have hlength : j + 1 ≤ 2000 := by omega
  -- the length before the first integer is one in the first result, and one with its digits in the second
  apply not_separates (v := .list [.list [.int n], .list (List.replicate (j + 1) (.int n))])
    (w := .list [.list (.list [.int n] :: List.replicate j (.int n)), .int n])
  · simp [hn, hlength]
  · simp [hn, hlength]
  · -- integers and lengths have no surrogates
    rw [Result.isScalar_script_iff]
    intro s hs
    simp [Result.pieces, Result.piecesOf, Result.piecesOf_eq_flatMap] at hs
  · simp [hdecimal, decimalInt_of_nonneg hsign, decimal_one, List.flatMap_replicate, List.replicate_succ']
  · simp

namespace Separates

theorem signed (h : A.Separates walk)
    (hsmall : (∃ n, A.ints n ∧ 0 ≤ n) → ∃ n, A.ints n ∧ 0 ≤ n ∧ n < 1000) :
    ∀ n, A.ints n → n < 0 := by
  intro n hn
  refine Int.not_le.1 fun hsign => ?_
  obtain ⟨m, hm, hpos, hlt⟩ := hsmall ⟨n, hn, hsign⟩
  exact not_separates_of_nonneg hm hpos hlt h

/-- Otherwise a text copies an empty text. -/
theorem text (h : A.Separates walk) : ¬ A.points 's' := by
  intro hs
  refine not_separates_of_copied (v := .str []) (k := 0) (t := ['s']) ?_ ?_ (by decide) ?_ ?_ ?_ h
  · simp
  · simp
  · simpa using hs
  · simp [Text.isScalar_iff]
  · exact List.cons_ne_nil _ _

/-- Otherwise a text copies the length of a list of as many empty texts as the digit says. -/
theorem items (h : A.Separates walk) (hL : A.points 'L') {c : CodePoint} (hc : A.points c) :
    c.isDigit = false := by
  refine Bool.eq_false_iff.2 fun hdigit => ?_
  have hten := digitValue_lt hdigit
  refine not_separates_of_copied (v := .list (List.replicate c.digitValue (.str [])))
    (k := c.digitValue) (t := [CodePoint.ofChar 'L', c]) ?_ ?_ (Nat.le_of_lt_succ hten) ?_ ?_ ?_ h
  · have hlength : c.digitValue ≤ 2000 := by omega
    simp [hlength]
  · simp [flatMap_script_blanks, decimal_digitValue hdigit]
  · simp [hL, hc]
  · rw [← decimal_digitValue hdigit]
    simp [Text.isScalar_decimal]
  · exact List.cons_ne_nil _ _

/-- Otherwise a text copies the integer. -/
theorem int (h : A.Separates walk) (hminus : A.points '-') {n : Int} (hn : A.ints n) (hneg : n < 0) :
    ∃ c ∈ decimal n.natAbs, ¬ A.points c := by
  refine Classical.byContradiction fun hnone => ?_
  have hdigits : ∀ c ∈ decimal n.natAbs, A.points c :=
    fun c hc => Classical.byContradiction fun hpoint => hnone ⟨c, hc, hpoint⟩
  refine not_separates_of_copied (v := .int n) (k := 0) (t := decimalInt n) ?_ ?_ (by decide) ?_ ?_ ?_ h
  · simpa using hn
  · simp
  · rw [decimalInt_of_neg hneg]
    simpa [hminus] using hdigits
  · exact Text.isScalar_decimalInt n
  · exact decimalInt_ne_nil n

/-- An alphabet whose results are told apart shows where pieces start, provided that its integers without a sign, if
there are any, begin below a thousand. -/
theorem delimits (h : A.Separates walk)
    (hsmall : (∃ n, A.ints n ∧ 0 ≤ n) → ∃ n, A.ints n ∧ 0 ≤ n ∧ n < 1000) : A.Delimits where
  signed := h.signed hsmall
  text := h.text
  items hL _ hc := h.items hL hc
  int hminus n hn := h.int hminus hn (h.signed hsmall n hn)

end Separates

end Alphabet

/-- **Which results a fingerprint tells apart.** Take the results that are built over an alphabet by lists nested at most
eight deep and at most two thousand long, and any walk. A result is fed exactly if none of its texts holds
half of a surrogate pair. Two results that are fed are equal exactly if they are fed as the same bytes and their pieces
are cut at the same places. The bytes alone tell all of them apart exactly if the alphabet shows where pieces
start: every integer has a minus sign, and no text holds the letter of texts, or the letter of lists with a digit,
or a sign with the digits of an integer. This is said for alphabets whose integers without a sign, if there are any,
begin below a thousand, so that a one and the digits are still a length. -/
theorem Alphabet.separates_iff (A : Alphabet) (walk : Walk) :
    (∀ v : Result, v.Plain A 8 → ((∃ bytes, walk.feed v = .ok bytes) ↔ v.IsScalar)) ∧
    (∀ (v w : Result) (bytes bytes' : List UInt8), v.Plain A 8 → w.Plain A 8 →
      walk.feed v = .ok bytes → walk.feed w = .ok bytes' →
      (v = w ↔ bytes = bytes' ∧ v.cuts = w.cuts)) ∧
    (((∃ n, A.ints n ∧ 0 ≤ n) → ∃ n, A.ints n ∧ 0 ≤ n ∧ n < 1000) →
      (A.Separates walk ↔ A.Delimits)) := by
  refine ⟨fun v hv => Result.exists_feed_iff hv, ?_, fun hsmall => ⟨?_, ?_⟩⟩
  · exact fun v w bytes bytes' hv hw hfeed hfeed' => Result.eq_iff_feed_cuts hv hw hfeed hfeed'
  · exact fun h => h.delimits hsmall
  · exact fun h => h.separates walk

/-- Negative integers and texts of one letter are told apart; all integers and all texts are not. -/
theorem Alphabet.separates_iff_oneLetter :
    (∀ walk : Walk, (⟨fun n => n < 0, fun c => c = 'a'⟩ : Alphabet).Separates walk) ∧
    ∀ walk : Walk, ¬ (⟨fun _ => True, fun _ => True⟩ : Alphabet).Separates walk := by
  constructor
  · intro walk
    refine ((Alphabet.separates_iff ⟨fun n => n < 0, fun c => c = 'a'⟩ walk).2.2 ?_).2 ⟨?_, ?_, ?_, ?_⟩
    · rintro ⟨n, hn, hsign⟩
      exact absurd hn (Int.not_lt.2 hsign)
    · exact fun n hn => hn
    · decide
    · intro hL
      exact absurd hL (by decide)
    · intro hminus
      exact absurd hminus (by decide)
  · intro walk hall
    have hdelimits :=
      ((Alphabet.separates_iff _ walk).2.2 fun _ => ⟨0, trivial, by decide, by decide⟩).1 hall
    exact hdelimits.text trivial

/-- A digit moves from one integer to the next: two different lists with the same bytes, whatever the walk. -/
theorem Walk.shifted_digit_same_feed :
    (Result.list [.int 1, .int 23]).Plain ⟨fun _ => True, fun _ => True⟩ 8 ∧
    (Result.list [.int 12, .int 3]).Plain ⟨fun _ => True, fun _ => True⟩ 8 ∧
    Result.list [.int 1, .int 23] ≠ Result.list [.int 12, .int 3] ∧
    ∀ walk : Walk, walk.feed (.list [.int 1, .int 23]) = .ok (Text.utf8 (lit "L2123")) ∧
      walk.feed (.list [.int 12, .int 3]) = .ok (Text.utf8 (lit "L2123")) ∧
      walk.fingerprint (.list [.int 1, .int 23]) = walk.fingerprint (.list [.int 12, .int 3]) := by
  have hfirst : (Result.list [.int 1, .int 23]).Plain ⟨fun _ => True, fun _ => True⟩ 8 := by simp
  have hsecond : (Result.list [.int 12, .int 3]).Plain ⟨fun _ => True, fun _ => True⟩ 8 := by simp
  have hscript : (Result.list [.int 1, .int 23]).script = lit "L2123" := by decide +kernel
  have hscript' : (Result.list [.int 12, .int 3]).script = lit "L2123" := by decide +kernel
  refine ⟨hfirst, hsecond, by simp, fun walk => ?_⟩
  have hfeed : walk.feed (.list [.int 1, .int 23]) = .ok (Text.utf8 (lit "L2123")) := by
    rw [Result.feed_eq_encoded hfirst, hscript]
    exact Text.encoded_of_isScalar (Text.isScalar_lit _)
  have hfeed' : walk.feed (.list [.int 12, .int 3]) = .ok (Text.utf8 (lit "L2123")) := by
    rw [Result.feed_eq_encoded hsecond, hscript']
    exact Text.encoded_of_isScalar (Text.isScalar_lit _)
  exact ⟨hfeed, hfeed', by rw [Walk.fingerprint, Walk.fingerprint, hfeed, hfeed']⟩

end ModuleStubs
