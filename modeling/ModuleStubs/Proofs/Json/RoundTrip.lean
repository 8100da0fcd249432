import ModuleStubs.Json.Writer
import ModuleStubs.Proofs.Json.Canonical
import ModuleStubs.Proofs.Json.Documents
import ModuleStubs.Proofs.Number.Layout
import ModuleStubs.Proofs.Text.Lines
import ModuleStubs.Proofs.Wire.ChunkLines

/-!
# Documents read back

The document of a restorable value is read as the value (`parse_document`), also from a file whose line
ends are unified (`unifyLineEnds_document`). The proof follows the writer: a code point outside
the lowest plane is written as two escapes, which the reader joins (`stringBody_pair`); a number is written
as a numeral that denotes it; and line breaks between the parts of a container mean nothing.
-/

set_option autoImplicit false

namespace ModuleStubs

namespace Json

open Grammar

/-! ## Strings -/

/-- A code point in front of a string that was read. -/
def withPoint (c : CodePoint) (r : Except (Option ReadStop) (Text × Text)) :
    Except (Option ReadStop) (Text × Text) :=
  r.map fun (s, rest) => (c :: s, rest)

theorem stringBody_raw {c : CodePoint} (hquote : c ≠ '"') (hslash : c ≠ '\\') (hraw : 32 ≤ c.val)
    (t : Text) : stringBody 0 (c :: t) = withPoint c (stringBody 0 t) := by
  rw [stringBody.eq_def]
  simp only [if_neg hquote, if_neg hslash, if_neg (Nat.not_lt.2 hraw)]
  rfl

theorem stringBody_letter {e p : CodePoint} (hu : e ≠ 'u') (he : shortEscape? e = some p) (t : Text) :
    stringBody 0 (CodePoint.ofChar '\\' :: e :: t) = withPoint p (stringBody 0 t) := by
  rw [stringBody.eq_def]
  simp only [if_neg hu, he]
  rfl

theorem unitEscape_append (n : Nat) (t : Text) :
    unitEscape n ++ t = CodePoint.ofChar '\\' :: CodePoint.ofChar 'u' ::
      Text.hexDigit (n / 16 / 16 / 16 % 16) :: Text.hexDigit (n / 16 / 16 % 16) ::
        Text.hexDigit (n / 16 % 16) :: Text.hexDigit (n % 16) :: t :=
  rfl

/-- An escape that is no half of a pair is one code point. -/
theorem stringBody_unit {n : Nat} (hn : n < 0x10000) (hunit : Dialect.standard.isUnit n = true)
    {t : Text} (ht : t ≠ []) :
    stringBody 0 (unitEscape n ++ t) = withPoint (CodePoint.ofNat n) (stringBody 0 t) := by
  have hescape := unicodeEscape_of_isUnit (hexQuad?_hexFixed hn) hunit ht
  rw [unitEscape_append, stringBody_numbered, hescape]
  rfl

/-- Two escaped halves of a pair are one code point. -/
theorem stringBody_pair (high low : Nat) (hhigh : 0xD800 ≤ high ∧ high ≤ 0xDBFF)
    (hlow : 0xDC00 ≤ low ∧ low ≤ 0xDFFF) {t : Text} (ht : t ≠ []) :
    stringBody 0 (unitEscape high ++ (unitEscape low ++ t)) =
      withPoint (joinSurrogates high low) (stringBody 0 t) := by
  have hrest : (!t.isEmpty) = true := by
    cases t with
    | nil => contradiction
    | cons c t => rfl
  have hquad := hexQuad?_hexFixed (n := high) (by omega)
  have hquad' := hexQuad?_hexFixed (n := low) (by omega)
  have hhalf : lowHalf? (unitEscape low ++ t) = .ok (some low) := by
    rw [unitEscape_append, lowHalf?]
    simp only [List.drop_succ_cons, List.drop_zero, hrest, and_self, if_true, fourHex?, hquad',
      Option.map_some, hlow]
  have hescape : ∀ x y z w, hexQuad? x y z w = some high →
      unicodeEscape (x :: y :: z :: w :: (unitEscape low ++ t)) = .ok (joinSurrogates high low, 10) := by
    intro x y z w hfour
    simp only [unicodeEscape, fourHex?, hfour, Option.map_some]
    rw [if_neg (by rw [unitEscape_append]; exact Bool.false_ne_true), if_pos hhigh, hhalf]
  rw [unitEscape_append high, stringBody_numbered, hescape _ _ _ _ hquad]
  rfl

/-- The writer escapes by a letter where the table of letters has one. -/
theorem writtenPoint_eq (c : CodePoint) :
    writtenPoint c = match Wire.letterEscape? c with
      | some e => e
      | none => if 32 ≤ c.val ∧ c.val ≤ 126 then [c] else pointEscape c := by
  have hval : ∀ d : Char, c = CodePoint.ofChar d ↔ c.val = d.toNat :=
    fun d => ⟨fun h => congrArg CodePoint.val h, fun h => CodePoint.ext h⟩
  have hfeed : '\n'.toNat = 10 := rfl
  have hreturn : '\r'.toNat = 13 := rfl
  have htab : '\t'.toNat = 9 := rfl
  have hquote : '"'.toNat = 34 := rfl
  have hslash : '\\'.toNat = 92 := rfl
  simp only [writtenPoint, Wire.letterEscape?, hval, hfeed, hreturn, htab, hquote, hslash]
  grind

/-- A code point that was written is read back. -/
theorem stringBody_writtenPoint {c : CodePoint} (hc : c.isSurrogate = false) {t : Text} (ht : t ≠ []) :
    stringBody 0 (writtenPoint c ++ t) = withPoint c (stringBody 0 t) := by
  have hlt := c.isLt
  have hscalar : c.val < 0xD800 ∨ 0xDFFF < c.val := by
    simp only [CodePoint.isSurrogate, Bool.and_eq_false_iff, decide_eq_false_iff_not] at hc
    omega
  rw [writtenPoint_eq]
  cases hletter : Wire.letterEscape? c with
  | some e =>
      obtain ⟨l, rfl, hu, hl⟩ := Wire.letterEscape?_eq_some hletter
      exact stringBody_letter hu hl t
  | none =>
      obtain ⟨hquote, hslash⟩ := Wire.ne_of_letterEscape?_eq_none hletter
      simp only
      split
      · rename_i hprintable
        exact stringBody_raw hquote hslash hprintable.1 t
      · rw [pointEscape]
        split
        · rename_i hsmall
          have hread := stringBody_unit hsmall (decide_eq_true hscalar) ht
          rwa [CodePoint.ofNat_val] at hread
        · -- the two halves of a pair
          rename_i hlarge
          have hread := stringBody_pair (0xD800 + (c.val - 0x10000) / 0x400)
            (0xDC00 + (c.val - 0x10000) % 0x400) (by omega) (by omega) ht
          have hjoin : joinSurrogates (0xD800 + (c.val - 0x10000) / 0x400)
              (0xDC00 + (c.val - 0x10000) % 0x400) = c := by
            rw [joinSurrogates, show 0x10000 + (0xD800 + (c.val - 0x10000) / 0x400 - 0xD800) * 0x400 +
              (0xDC00 + (c.val - 0x10000) % 0x400 - 0xDC00) = c.val by omega, CodePoint.ofNat_val]
          rw [hjoin] at hread
          rw [List.append_assoc]
          exact hread

theorem stringBody_flatMap {s : Text} (hs : s.isScalar = true) (rest : Text) :
    stringBody 0 (s.flatMap writtenPoint ++ CodePoint.ofChar '"' :: rest) = .ok (s, rest) := by
  induction s with
  | nil =>
      rw [List.flatMap_nil, List.nil_append, stringBody.eq_def]
      rfl
  | cons c s ih =>
      simp only [Text.isScalar, List.all_cons, Bool.and_eq_true, Bool.not_eq_true'] at hs
      rw [List.flatMap_cons, List.append_assoc, stringBody_writtenPoint hs.1 (by simp), ih hs.2]
      rfl

theorem writtenString_append (s rest : Text) :
    writtenString s ++ rest =
      CodePoint.ofChar '"' :: (s.flatMap writtenPoint ++ CodePoint.ofChar '"' :: rest) := by
  simp [writtenString, lit]

theorem readString_writtenString {s : Text} (hs : s.isScalar = true) (rest : Text) :
    readString (writtenString s ++ rest) = .ok (s, rest) := by
  rw [writtenString_append, readString, List.drop_one, List.tail_cons, stringBody_flatMap hs]

/-! ## Parts of containers -/

/-- The items behind the first one, with a comma before each. -/
def furtherItems (depth : Nat) : List Json → Text
  | [] => []
  | v :: vs =>
    CodePoint.ofChar ',' :: (lineBreak depth ++ (written depth v ++ furtherItems depth vs))

/-- The fields behind the first one, with a comma before each. -/
def furtherFields (depth : Nat) : List (Text × Json) → Text
  | [] => []
  | (k, v) :: fs =>
    CodePoint.ofChar ',' :: (lineBreak depth ++ (writtenString k ++
      (CodePoint.ofChar ':' :: CodePoint.ofChar ' ' :: (written depth v ++ furtherFields depth fs))))

theorem writtenItems_cons (depth : Nat) (v : Json) (vs : List Json) :
    writtenItems depth (v :: vs) = lineBreak depth ++ (written depth v ++ furtherItems depth vs) := by
  induction vs generalizing v with
  | nil => simp [writtenItems, furtherItems]
  | cons w ws ih => simp [writtenItems, furtherItems, ih, lit]

theorem writtenFields_cons (depth : Nat) (k : Text) (v : Json) (fs : List (Text × Json)) :
    writtenFields depth ((k, v) :: fs) = lineBreak depth ++ (writtenString k ++
      (CodePoint.ofChar ':' :: CodePoint.ofChar ' ' :: (written depth v ++ furtherFields depth fs))) := by
  induction fs generalizing k v with
  | nil => simp [writtenFields, furtherFields, lit]
  | cons f fs ih =>
      obtain ⟨l, w⟩ := f
      simp [writtenFields, furtherFields, ih, lit]

theorem written_list (depth : Nat) (v : Json) (vs : List Json) (rest : Text) :
    written depth (.list (v :: vs)) ++ rest =
      CodePoint.ofChar '[' :: (lineBreak (depth + 1) ++ (written (depth + 1) v ++
        (furtherItems (depth + 1) vs ++ (lineBreak depth ++ CodePoint.ofChar ']' :: rest)))) := by
  simp [written, writtenItems_cons, lit]

theorem written_object (depth : Nat) (k : Text) (v : Json) (fs : List (Text × Json)) (rest : Text) :
    written depth (.object ((k, v) :: fs)) ++ rest =
      CodePoint.ofChar '\x7b' :: (lineBreak (depth + 1) ++ (writtenString k ++
        (CodePoint.ofChar ':' :: CodePoint.ofChar ' ' :: (written (depth + 1) v ++
          (furtherFields (depth + 1) fs ++ (lineBreak depth ++ CodePoint.ofChar '\x7d' :: rest)))))) := by
  simp [written, writtenFields_cons, lit]

theorem furtherItems_append (depth : Nat) (v : Json) (vs : List Json) (rest : Text) :
    furtherItems depth (v :: vs) ++ rest =
      CodePoint.ofChar ',' :: (lineBreak depth ++ (written depth v ++
        (furtherItems depth vs ++ rest))) := by
  simp [furtherItems]

theorem furtherFields_append (depth : Nat) (k : Text) (v : Json) (fs : List (Text × Json))
    (rest : Text) :
    furtherFields depth ((k, v) :: fs) ++ rest =
      CodePoint.ofChar ',' :: (lineBreak depth ++ (writtenString k ++
        (CodePoint.ofChar ':' :: CodePoint.ofChar ' ' :: (written depth v ++
          (furtherFields depth fs ++ rest))))) := by
  simp [furtherFields]

theorem gap_lineBreak (depth : Nat) : Gap .standard (lineBreak depth) := by
  intro c hc
  rcases List.mem_cons.1 hc with rfl | htab
  · decide
  · rw [List.eq_of_mem_replicate htab]
    decide

theorem endsNumeral_furtherItems (depth k : Nat) (vs : List Json) (rest : Text) :
    endsNumeral (furtherItems depth vs ++ (lineBreak k ++ rest)) = true := by
  cases vs <;> rfl

theorem endsNumeral_furtherFields (depth k : Nat) (fs : List (Text × Json)) (rest : Text) :
    endsNumeral (furtherFields depth fs ++ (lineBreak k ++ rest)) = true := by
  cases fs <;> rfl

/-! ## Values -/

/-- The text of a number that is in canonical form is a name or a numeral for it. -/
theorem value_writtenFloat {x : Binary64} (h : (Json.float x).isCanonical = true) :
    Value .standard (writtenFloat x) (.float x) := by
  rw [writtenFloat]
  cases hparts : x.parts with
  | nan =>
      have hnan : x.isNaN = true := beq_iff_eq.2 hparts
      rw [isCanonical, hnan, Bool.not_true, Bool.false_or, beq_iff_eq] at h
      rw [h]
      exact .name .nan
  | infinite negative =>
      rw [Binary64.eq_infinity_of_parts hparts]
      cases negative with
      | true => exact .name .negativeInfinity
      | false => exact .name .infinity
  | finite negative m e => exact .numeral (Binary64.numeral_text hparts)

/-- What is written for a value starts neither with a blank nor with the end of a list. -/
theorem solid_written {v : Json} (h : v.isRestorable = true) (depth : Nat) (rest : Text) :
    Solid .standard (written depth v ++ rest) := by
  cases v with
  | null => exact (Value.name .null).solid rest
  | bool b =>
      cases b with
      | true => exact (Value.name .true).solid rest
      | false => exact (Value.name .false).solid rest
  | int n => exact (Value.numeral (Wire.numeral_decimalInt n)).solid rest
  | float x => exact (value_writtenFloat (isRestorable_iff.1 h).2).solid rest
  | str s =>
      rw [written, writtenString_append]
      exact ⟨_, _, rfl, by decide, by decide, by decide⟩
  | list items => cases items <;> exact ⟨_, _, rfl, by decide, by decide, by decide⟩
  | object fields => cases fields <;> exact ⟨_, _, rfl, by decide, by decide, by decide⟩

/-- A value of the grammar is read with any fuel that is as long as its text. -/
theorem readValue_of_value {p rest : Text} {v : Json} (h : Value .standard p v)
    (hrest : endsNumeral rest = true) {fuel : Nat} (hfuel : 2 * p.length ≤ fuel) :
    readValue fuel (p ++ rest) = .ok (v, rest) :=
  h.reads reader_follows rest hrest fuel hfuel

theorem readFields_writtenString {fuel : Nat} {fields : Record Json} {k t r : Text} {v : Json}
    (hk : k.isScalar = true) (hnew : k ∉ Record.keys fields) (ht : Solid .standard t)
    (h : readValue fuel t = .ok (v, r)) :
    readFields (fuel + 1) fields
        (writtenString k ++ CodePoint.ofChar ':' :: CodePoint.ofChar ' ' :: t) =
      match skipGap r with
      | [] => .error (.comma, 0)
      | c :: u =>
        if c = '\x7d' then .ok (fields ++ [(k, v)], u)
        else if c = ',' then readFields fuel (fields ++ [(k, v)]) (skipGap u)
        else .error (.comma, u.length + 1) := by
  have hname : readString (writtenString k ++ CodePoint.ofChar ':' :: CodePoint.ofChar ' ' :: t) =
      .ok (k, [] ++ CodePoint.ofChar ':' :: ([CodePoint.ofChar ' '] ++ t)) :=
    readString_writtenString hk _
  rw [writtenString_append] at hname ⊢
  rw [← Record.set_of_not_mem hnew]
  exact readFields_of_name hname (gap_nil _) (gap_blank (gap_nil _)) ht h

mutual

/-- What is written for a restorable value is read as the value where no more of a numeral follows. -/
theorem readValue_written :
    ∀ (v : Json) (depth fuel : Nat) (rest : Text), v.isRestorable = true →
      endsNumeral rest = true → 2 * (written depth v).length ≤ fuel →
      readValue fuel (written depth v ++ rest) = .ok (v, rest)
  | .null, _, _, _, _, hrest, hfuel => readValue_of_value (.name .null) hrest hfuel
  | .bool true, _, _, _, _, hrest, hfuel => readValue_of_value (.name .true) hrest hfuel
  | .bool false, _, _, _, _, hrest, hfuel => readValue_of_value (.name .false) hrest hfuel
  | .int n, _, _, _, _, hrest, hfuel =>
      readValue_of_value (.numeral (Wire.numeral_decimalInt n)) hrest hfuel
  | .float x, _, _, _, hv, hrest, hfuel =>
      readValue_of_value (value_writtenFloat (isRestorable_iff.1 hv).2) hrest hfuel
  | .str s, depth, fuel, rest, hv, _, hfuel => by
      have hs : s.isScalar = true := by
        have htexts := (isRestorable_iff.1 hv).1
        simpa [every, hasScalarTexts, ownTexts] using htexts
      have hread := readString_writtenString hs rest
      rw [written] at hfuel ⊢
      have hlength := congrArg List.length (writtenString_append s [])
      simp only [List.length_append, List.length_cons, List.length_nil] at hlength
      obtain ⟨fuel, rfl⟩ : ∃ f, fuel = f + 1 := ⟨fuel - 1, by omega⟩
      rw [writtenString_append] at hread ⊢
      rw [readValue.eq_def]
      change (readString _).map _ = _
      rw [hread]
      rfl
  | .list [], _, _, _, _, hrest, hfuel =>
      readValue_of_value (.emptyList (gap_nil _)) hrest hfuel
  | .list (v :: vs), depth, fuel, rest, hv, _, hfuel => by
      obtain ⟨hv, hvs⟩ := List.forall_mem_cons.1 (isRestorable_list.1 hv)
      have hlength := congrArg List.length (written_list depth v vs [])
      simp only [List.length_append, List.length_cons, List.length_nil] at hlength
      obtain ⟨fuel, rfl⟩ : ∃ f, fuel = f + 2 := ⟨fuel - 2, by omega⟩
      -- one step of fuel for the bracket, one for the first item
      have hfirst := readValue_written v (depth + 1) fuel _ hv
        (endsNumeral_furtherItems (depth + 1) depth vs (CodePoint.ofChar ']' :: rest)) (by omega)
      have hitems := readItems_furtherItems vs v (depth + 1) depth fuel _ rest hvs (by omega) hfirst
      rw [written_list]
      exact readValue_of_items (gap_lineBreak _) (solid_written hv _ _) hitems
  | .object [], _, _, _, _, hrest, hfuel =>
      readValue_of_value (.emptyObject (gap_nil _)) hrest hfuel
  | .object ((k, v) :: fs), depth, fuel, rest, hv, _, hfuel => by
      obtain ⟨hkeys, hscalar, hvalues⟩ := isRestorable_object.1 hv
      obtain ⟨hv, hfs⟩ := List.forall_mem_cons.1 hvalues
      have hlength := congrArg List.length (written_object depth k v fs [])
      simp only [List.length_append, List.length_cons, List.length_nil] at hlength
      obtain ⟨fuel, rfl⟩ : ∃ f, fuel = f + 2 := ⟨fuel - 2, by omega⟩
      have hfirst := readValue_written v (depth + 1) fuel _ hv
        (endsNumeral_furtherFields (depth + 1) depth fs (CodePoint.ofChar '\x7d' :: rest)) (by omega)
      have hfields := readFields_furtherFields fs [] k v (depth + 1) depth fuel _ rest hkeys hscalar
        hfs (by omega) (solid_written hv _ _) hfirst
      rw [written_object]
      rw [writtenString_append] at hfields ⊢
      exact readValue_of_fields (gap_lineBreak _) hfields

/-- An item and those behind it are read, if the item is read where it stands. -/
theorem readItems_furtherItems :
    ∀ (vs : List Json) (v : Json) (depth outer fuel : Nat) (t rest : Text),
      (∀ w ∈ vs, w.isRestorable = true) → 2 * (furtherItems depth vs).length ≤ fuel →
      readValue fuel t =
        .ok (v, furtherItems depth vs ++ (lineBreak outer ++ CodePoint.ofChar ']' :: rest)) →
      readItems (fuel + 1) t = .ok (v :: vs, rest)
  | [], v, depth, outer, fuel, t, rest, _, _, h => by
      rw [readItems_of_value h]
      rw [furtherItems, List.nil_append, skipGap_gap (gap_lineBreak outer) (by decide)]
      rfl
  | w :: ws, v, depth, outer, fuel, t, rest, hvs, hfuel, h => by
      obtain ⟨hw, hws⟩ := List.forall_mem_cons.1 hvs
      simp only [furtherItems, List.length_cons, List.length_append] at hfuel
      obtain ⟨fuel, rfl⟩ : ∃ f, fuel = f + 1 := ⟨fuel - 1, by omega⟩
      have hfirst := readValue_written w depth fuel _ hw
        (endsNumeral_furtherItems depth outer ws (CodePoint.ofChar ']' :: rest)) (by omega)
      have hitems := readItems_furtherItems ws w depth outer fuel _ rest hws (by omega) hfirst
      rw [furtherItems_append] at h
      rw [readItems_of_value h]
      -- behind the comma stands the line break of the next item
      change (readItems _ (skipGap _)).map _ = _
      rw [skipGap_solid (solid_written hw _ _) (gap_lineBreak depth), hitems]
      rfl

/-- A field and those behind it are read, if its value is read where it stands. -/
theorem readFields_furtherFields :
    ∀ (fs : List (Text × Json)) (fields : Record Json) (k : Text) (v : Json)
      (depth outer fuel : Nat) (t rest : Text),
      (Record.keys (fields ++ (k, v) :: fs)).Nodup →
      (∀ l ∈ Record.keys ((k, v) :: fs), l.isScalar = true) →
      (∀ f ∈ fs, f.2.isRestorable = true) → 2 * (furtherFields depth fs).length ≤ fuel →
      Solid .standard t →
      readValue fuel t =
        .ok (v, furtherFields depth fs ++ (lineBreak outer ++ CodePoint.ofChar '\x7d' :: rest)) →
      readFields (fuel + 1) fields
          (writtenString k ++ CodePoint.ofChar ':' :: CodePoint.ofChar ' ' :: t) =
        .ok (fields ++ (k, v) :: fs, rest)
  | [], fields, k, v, depth, outer, fuel, t, rest, hkeys, hscalar, _, _, ht, h => by
      have hk := (List.forall_mem_cons.1 hscalar).1
      rw [readFields_writtenString hk (Record.not_mem_keys_of_nodup hkeys) ht h]
      rw [furtherFields, List.nil_append, skipGap_gap (gap_lineBreak outer) (by decide)]
      rfl
  | (l, w) :: fs, fields, k, v, depth, outer, fuel, t, rest, hkeys, hscalar, hfs, hfuel, ht, h => by
      obtain ⟨hk, hlater⟩ := List.forall_mem_cons.1 hscalar
      obtain ⟨hw, hfs⟩ := List.forall_mem_cons.1 hfs
      simp only [furtherFields, List.length_cons, List.length_append] at hfuel
      obtain ⟨fuel, rfl⟩ : ∃ f, fuel = f + 1 := ⟨fuel - 1, by omega⟩
      -- the field just read is now the last one of those before
      have hkeys' : (Record.keys ((fields ++ [(k, v)]) ++ (l, w) :: fs)).Nodup := by
        rwa [List.append_assoc]
      have hfirst := readValue_written w depth fuel _ hw
        (endsNumeral_furtherFields depth outer fs (CodePoint.ofChar '\x7d' :: rest)) (by omega)
      have hfields := readFields_furtherFields fs (fields ++ [(k, v)]) l w depth outer fuel _ rest
        hkeys' hlater hfs (by omega) (solid_written hw _ _) hfirst
      rw [furtherFields_append] at h
      rw [readFields_writtenString hk (Record.not_mem_keys_of_nodup hkeys) ht h]
      change readFields _ _ (skipGap _) = _
      rw [writtenString_append] at hfields ⊢
      rw [skipGap_gap (gap_lineBreak depth) (by decide), hfields, List.append_assoc]
      rfl

end

/-! ## Documents -/

/-- A restorable value is read from its document. -/
theorem parse_document {v : Json} (h : v.isRestorable = true) : parse (document v) = .ok v := by
  have hsolid := solid_written h 0 []
  have hread := readValue_written v 0 (2 * (written 0 v).length + 2) [] h rfl (by omega)
  have hskip := skipGap_solid hsolid (gap_nil _)
  rw [List.append_nil] at hsolid hread hskip
  rw [List.nil_append] at hskip
  have hhead : ¬ (written 0 v).head? = some (CodePoint.ofNat 0xFEFF) := by
    obtain ⟨c, r, heq, -, -, hascii⟩ := hsolid
    rw [heq]
    rintro ⟨⟩
    exact absurd hascii (by decide)
  rw [document]
  simp only [parse, if_neg hhead, hskip, hread]
  rfl

/-! ## Line ends -/

theorem isPrintable_unitEscape {n : Nat} {d : CodePoint} (h : d ∈ unitEscape n) : d.IsPrintable := by
  have heq := unitEscape_append n []
  rw [List.append_nil] at heq
  simp only [heq, List.mem_cons, List.not_mem_nil, or_false] at h
  rcases h with rfl | rfl | rfl | rfl | rfl | rfl
  · decide
  · decide
  all_goals exact Wire.isPrintable_hexDigit _

theorem isPrintable_writtenPoint {c d : CodePoint} (h : d ∈ writtenPoint c) : d.IsPrintable := by
  rw [writtenPoint_eq] at h
  cases hletter : Wire.letterEscape? c with
  | some e =>
      obtain ⟨l, rfl, -, hl⟩ := Wire.letterEscape?_eq_some hletter
      obtain ⟨e, n, hmem, rfl, -⟩ := mem_letters_of_shortEscape? hl
      rw [hletter] at h
      rcases List.mem_pair.1 h with rfl | rfl
      · decide
      · exact Wire.isPrintable_of_mem_letters hmem
  | none =>
      rw [hletter] at h
      simp only at h
      split at h
      · rename_i hprintable
        rwa [List.mem_singleton.1 h]
      · rw [pointEscape] at h
        split at h
        · exact isPrintable_unitEscape h
        · rcases List.mem_append.1 h with h | h <;> exact isPrintable_unitEscape h

theorem isPrintable_writtenString {s : Text} {d : CodePoint} (h : d ∈ writtenString s) :
    d.IsPrintable := by
  have heq := writtenString_append s []
  rw [List.append_nil] at heq
  rw [heq] at h
  rcases List.mem_cons.1 h with rfl | h
  · decide
  · rcases List.mem_append.1 h with h | h
    · obtain ⟨c, -, hd⟩ := List.mem_flatMap.1 h
      exact isPrintable_writtenPoint hd
    · rw [List.mem_singleton.1 h]
      decide

theorem isPrintable_of_name {p : Text} {v : Json} (h : Name p v) : ∀ c ∈ p, c.IsPrintable := by
  cases h <;> decide

theorem isPrintable_of_isDigit {c : CodePoint} (h : c.isDigit = true) : c.IsPrintable := by
  simp only [CodePoint.isDigit, Bool.and_eq_true, decide_eq_true_eq] at h
  exact ⟨by omega, by omega⟩

theorem isPrintable_of_numeral {p : Text} {v : Json} (h : Numeral p v) :
    ∀ c ∈ p, c.IsPrintable := by
  obtain ⟨negative, w, f, e, fraction, exponent, heq, hw, hf, he, -⟩ := h.exists_parts
  have hdigits : ∀ {ds : Text}, Digits ds → ∀ c ∈ ds, c.IsPrintable :=
    fun hds c hc => isPrintable_of_isDigit (hds.2 c hc)
  have hmark : ∀ {c : CodePoint}, IsExponentMark c → c.IsPrintable := by
    rintro c (rfl | rfl) <;> decide
  rw [heq]
  simp only [List.forall_mem_append]
  refine ⟨?_, ?_, ?_, ?_⟩
  · cases negative with
    | true => exact List.forall_mem_singleton.2 (by decide)
    | false => exact nofun
  · cases hw with
    | zero => exact List.forall_mem_singleton.2 (by decide)
    | digits hc hds => exact hdigits hds
  · cases hf with
    | absent => exact nofun
    | present hds => exact List.forall_mem_cons.2 ⟨by decide, hdigits hds⟩
  · cases he with
    | absent => exact nofun
    | unsigned hc hds => exact List.forall_mem_cons.2 ⟨hmark hc, hdigits hds⟩
    | plus hc hds =>
        exact List.forall_mem_cons.2 ⟨hmark hc, List.forall_mem_cons.2 ⟨by decide, hdigits hds⟩⟩
    | minus hc hds =>
        exact List.forall_mem_cons.2 ⟨hmark hc, List.forall_mem_cons.2 ⟨by decide, hdigits hds⟩⟩

theorem isPrintable_writtenFloat (x : Binary64) : ∀ c ∈ writtenFloat x, c.IsPrintable := by
  rw [writtenFloat]
  cases hparts : x.parts with
  | nan => exact isPrintable_of_name .nan
  | infinite negative =>
      cases negative with
      | true => exact isPrintable_of_name .negativeInfinity
      | false => exact isPrintable_of_name .infinity
  | finite negative m e => exact isPrintable_of_numeral (Binary64.numeral_text hparts)

/-- A code point of a document: printable ASCII, or one of a line break with its indent. -/
def IsDocumentPoint (c : CodePoint) : Prop := c.IsPrintable ∨ c = '\n' ∨ c = '\t'

instance decidableIsDocumentPoint (c : CodePoint) : Decidable (IsDocumentPoint c) :=
  inferInstanceAs (Decidable (_ ∨ _))

theorem isDocumentPoint_of_isPrintable {t : Text} (h : ∀ c ∈ t, c.IsPrintable) :
    ∀ c ∈ t, IsDocumentPoint c := fun c hc => .inl (h c hc)

theorem isDocumentPoint_lineBreak (depth : Nat) : ∀ c ∈ lineBreak depth, IsDocumentPoint c := by
  refine List.forall_mem_cons.2 ⟨by decide, fun c hc => ?_⟩
  rw [List.eq_of_mem_replicate hc]
  decide

theorem isDocumentPoint_writtenString (s : Text) : ∀ c ∈ writtenString s, IsDocumentPoint c :=
  isDocumentPoint_of_isPrintable fun _ => isPrintable_writtenString

mutual

theorem isDocumentPoint_written :
    ∀ (v : Json) (depth : Nat), ∀ c ∈ written depth v, IsDocumentPoint c
  | .null, _ => isDocumentPoint_of_isPrintable (isPrintable_of_name .null)
  | .bool true, _ => isDocumentPoint_of_isPrintable (isPrintable_of_name .true)
  | .bool false, _ => isDocumentPoint_of_isPrintable (isPrintable_of_name .false)
  | .int n, _ => isDocumentPoint_of_isPrintable (isPrintable_of_numeral (Wire.numeral_decimalInt n))
  | .float x, _ => isDocumentPoint_of_isPrintable (isPrintable_writtenFloat x)
  | .str s, _ => isDocumentPoint_writtenString s
  | .list [], _ => by
      rw [written]
      decide
  | .list (v :: vs), depth => by
      have heq := written_list depth v vs []
      rw [List.append_nil] at heq
      rw [heq]
      simp only [List.forall_mem_cons, List.forall_mem_append]
      exact ⟨by decide, isDocumentPoint_lineBreak _, isDocumentPoint_written v _,
        isDocumentPoint_furtherItems vs _, isDocumentPoint_lineBreak _, by decide⟩
  | .object [], _ => by
      rw [written]
      decide
  | .object ((k, v) :: fs), depth => by
      have heq := written_object depth k v fs []
      rw [List.append_nil] at heq
      rw [heq]
      simp only [List.forall_mem_cons, List.forall_mem_append]
      exact ⟨by decide, isDocumentPoint_lineBreak _, isDocumentPoint_writtenString k, by decide,
        by decide, isDocumentPoint_written v _, isDocumentPoint_furtherFields fs _,
        isDocumentPoint_lineBreak _, by decide⟩

theorem isDocumentPoint_furtherItems :
    ∀ (vs : List Json) (depth : Nat), ∀ c ∈ furtherItems depth vs, IsDocumentPoint c
  | [], _ => nofun
  | v :: vs, depth => by
      simp only [furtherItems, List.forall_mem_cons, List.forall_mem_append]
      exact ⟨by decide, isDocumentPoint_lineBreak _, isDocumentPoint_written v _,
        isDocumentPoint_furtherItems vs _⟩

theorem isDocumentPoint_furtherFields :
    ∀ (fs : List (Text × Json)) (depth : Nat), ∀ c ∈ furtherFields depth fs, IsDocumentPoint c
  | [], _ => nofun
  | (k, v) :: fs, depth => by
      simp only [furtherFields, List.forall_mem_cons, List.forall_mem_append]
      exact ⟨by decide, isDocumentPoint_lineBreak _, isDocumentPoint_writtenString k, by decide,
        by decide, isDocumentPoint_written v _, isDocumentPoint_furtherFields fs _⟩

end

/-- A document can be written to a file. -/
theorem isScalar_document (v : Json) : (document v).isScalar = true := by
  refine Text.isScalar_iff.2 fun c hc => ?_
  rcases isDocumentPoint_written v 0 c hc with hprintable | rfl | rfl
  · exact hprintable.not_isSurrogate
  · decide
  · decide

/-- A document stays the same in a file whose line ends are unified. -/
theorem unifyLineEnds_document (v : Json) : Text.unifyLineEnds (document v) = document v := by
  have hreturn : CodePoint.ofChar '\r' ∉ document v := fun hmem =>
    absurd (isDocumentPoint_written v 0 _ hmem) (by decide)
  have happend := Text.unifyLineEnds_append hreturn []
  rwa [List.append_nil, Text.unifyLineEnds, List.append_nil] at happend

end Json

end ModuleStubs
