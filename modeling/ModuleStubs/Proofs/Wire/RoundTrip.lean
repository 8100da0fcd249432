import ModuleStubs.Proofs.Records
import ModuleStubs.Proofs.Wire.Chunks
import ModuleStubs.Proofs.Wire.Cursor

/-!
# What is written is read back

The document of a basic value is read as the value, with the items of lists and the fields of objects
in their order. The reader is followed along the chunks: a value is read wherever its chunks stand
before a text that cannot belong to a numeral (`readValue_chunks`), which holds of the comma, the
bracket and the brace that may follow. The fuel that a value takes is bounded by the length of its
chunks, so that a document brings enough of it.
-/

set_option autoImplicit false

namespace ModuleStubs

/-- The code points that one escape of four digits can name. -/
def CodePoint.isCodeUnit (c : CodePoint) : Bool := decide (c.val < 0x10000)

namespace Wire

open Json (endsNumeral)

/-! ## Steps of the reader -/

/-- The text starts with neither a blank nor the end of a list. -/
def startsValue : Text → Bool
  | [] => false
  | c :: _ => !(isSpace c || c == ']')

theorem skipBlanks_of_startsValue {t : Text} (h : startsValue t = true) : skipBlanks t = t := by
  cases t with
  | nil => rfl
  | cons c t =>
      simp only [startsValue, Bool.not_eq_true', Bool.or_eq_false_iff] at h
      simp [skipBlanks, h.1]

theorem readList_of_startsValue {t : Text} (h : startsValue t = true) (fuel : Nat) :
    readList (fuel + 1) t = readItems fuel t := by
  rw [readList, skipBlanks_of_startsValue h]
  cases t with
  | nil => simp [startsValue] at h
  | cons c t =>
      have hc : c ≠ ']' := by
        simp [startsValue] at h
        exact h.2
      simp only [if_neg hc]

theorem readValue_named {t : Text} {r : Json × Text} (h : Json.named? t = some r) (fuel : Nat) :
    readValue (fuel + 1) t = .ok (some r) := by
  rw [readValue.eq_def]
  simp only [h]

theorem readValue_numeral {t : Text} {r : Json × Text} (hname : Json.named? t = none)
    (h : Json.numeral? t = some r) (fuel : Nat) : readValue (fuel + 1) t = .ok (some r) := by
  rw [readValue.eq_def]
  simp only [hname, h]

theorem readValue_bracket (fuel : Nat) (t : Text) :
    readValue (fuel + 1) (CodePoint.ofChar '[' :: t) =
      (readList fuel t).map fun (items, rest) => some (.list items, rest) := by
  rw [readValue]
  rfl

theorem readValue_brace (fuel : Nat) (t : Text) :
    readValue (fuel + 1) (CodePoint.ofChar '\x7b' :: t) =
      (readObject fuel t).map fun (fields, rest) => some (.object fields, rest) := by
  rw [readValue]
  rfl

theorem readValue_quote (fuel : Nat) (t : Text) :
    readValue (fuel + 1) (CodePoint.ofChar '"' :: t) =
      (stringBody t).map fun (s, rest) => some (.str s, rest) := by
  rw [readValue]
  rfl

theorem readObject_quote (fuel : Nat) (t : Text) :
    readObject (fuel + 1) (CodePoint.ofChar '"' :: t) =
      readFields fuel [] (CodePoint.ofChar '"' :: t) := by
  rw [readObject]
  rfl

section Parts

variable {fuel : Nat} {t rest : Text} {v : Json}

theorem readItems_last (h : readValue fuel t = .ok (some (v, CodePoint.ofChar ']' :: rest))) :
    readItems (fuel + 1) t = .ok ([v], rest) := by
  rw [readItems, h]
  rfl

theorem readItems_comma {vs : List Json} {after : Text}
    (h : readValue fuel t = .ok (some (v, CodePoint.ofChar ',' :: rest)))
    (hlater : readItems fuel (skipBlanks rest) = .ok (vs, after)) :
    readItems (fuel + 1) t = .ok (v :: vs, after) := by
  rw [readItems, h]
  change (readItems fuel (skipBlanks rest) >>= fun (vs, rest) => .ok (v :: vs, rest)) = _
  rw [hlater]
  rfl

section Fields

variable {fields : Record Json} {r k : Text}

theorem readFields_last (hnew : k ∉ Record.keys fields)
    (hkey : stringBody r = .ok (k, CodePoint.ofChar ':' :: t)) (ht : startsValue t = true)
    (h : readValue fuel t = .ok (some (v, CodePoint.ofChar '\x7d' :: rest))) :
    readFields (fuel + 1) fields (CodePoint.ofChar '"' :: r) = .ok (fields ++ [(k, v)], rest) := by
  rw [readFields, hkey]
  change (readValue fuel (skipBlanks t) >>= _) = _
  rw [skipBlanks_of_startsValue ht, h, ← Record.set_of_not_mem hnew]
  rfl

theorem readFields_comma (hnew : k ∉ Record.keys fields)
    (hkey : stringBody r = .ok (k, CodePoint.ofChar ':' :: t)) (ht : startsValue t = true)
    (h : readValue fuel t = .ok (some (v, CodePoint.ofChar ',' :: rest))) :
    readFields (fuel + 1) fields (CodePoint.ofChar '"' :: r) =
      readFields fuel (fields ++ [(k, v)]) (skipBlanks rest) := by
  rw [readFields, hkey]
  change (readValue fuel (skipBlanks t) >>= _) = _
  rw [skipBlanks_of_startsValue ht, h, ← Record.set_of_not_mem hnew]
  rfl

end Fields

end Parts

/-! ## Scalars -/

theorem stringBody_of_isCodeUnit {s : Text} (hs : s.all CodePoint.isCodeUnit = true)
    (rest : Text) :
    stringBody (s.flatMap asciiPoint ++ CodePoint.ofChar '"' :: rest) = .ok (s, rest) := by
  have hpoints : ∀ c ∈ s, c.val < 0x10000 := by
    simpa [CodePoint.isCodeUnit] using hs
  exact stringBody_flatMap_asciiPoint hpoints rest

theorem readValue_asciiString {s : Text} (hs : s.all CodePoint.isCodeUnit = true) (fuel : Nat)
    (rest : Text) : readValue (fuel + 1) (asciiString s ++ rest) = .ok (some (.str s, rest)) := by
  rw [asciiString_append, readValue_quote, stringBody_of_isCodeUnit hs]
  rfl

theorem readValue_decimalInt (n : Int) {rest : Text} (hrest : endsNumeral rest = true)
    (fuel : Nat) : readValue (fuel + 1) (decimalInt n ++ rest) = .ok (some (.int n, rest)) :=
  readValue_numeral (Json.named?_decimalInt n rest) (Json.numeral?_decimalInt n hrest) fuel

theorem startsValue_decimalInt (n : Int) (rest : Text) :
    startsValue (decimalInt n ++ rest) = true := by
  obtain ⟨c, ds, hn, hc⟩ := exists_decimal_eq_cons n.natAbs
  rw [decimalInt, hn]
  split
  · rfl
  · have hend : c ≠ ']' := CodePoint.ne_of_isDigit hc (by decide)
    have hspace : isSpace c = false := by
      simp [CodePoint.isDigit] at hc
      simp [isSpace]
      omega
    simp [startsValue, hend, hspace]

/-! ## Whole values -/

/-- The chunks of a value start with neither a blank nor the end of a list. -/
theorem startsValue_chunks {allowed : CodePoint → Bool} {v : Json}
    (hv : v.isBasic allowed = true) (rest : Text) :
    startsValue (v.chunks.flatten ++ rest) = true := by
  cases v with
  | null => rfl
  | bool b => cases b <;> rfl
  | int n =>
      rw [Json.chunks, List.flatten_singleton]
      exact startsValue_decimalInt n rest
  | float x => simp [Json.isBasic] at hv
  | str s =>
      rw [Json.chunks, List.flatten_singleton, asciiString_append]
      rfl
  | list items => cases items <;> rfl
  | object fields => cases fields <;> rfl

theorem flatten_chunks_list (v : Json) (vs : List Json) (rest : Text) :
    (Json.list (v :: vs)).chunks.flatten ++ rest =
      CodePoint.ofChar '[' :: (v.chunks.flatten ++
        ((Json.laterItems vs).flatten ++ CodePoint.ofChar ']' :: rest)) := by
  simp [Json.chunks, lit]

theorem flatten_laterItems_cons (v : Json) (vs : List Json) (rest : Text) :
    (Json.laterItems (v :: vs)).flatten ++ rest =
      CodePoint.ofChar ',' :: CodePoint.ofChar ' ' :: (v.chunks.flatten ++
        ((Json.laterItems vs).flatten ++ rest)) := by
  simp [Json.laterItems, lit]

theorem flatten_chunks_object (k : Text) (v : Json) (fs : List (Text × Json)) (rest : Text) :
    (Json.object ((k, v) :: fs)).chunks.flatten ++ rest =
      CodePoint.ofChar '\x7b' :: (asciiString k ++ CodePoint.ofChar ':' :: (v.chunks.flatten ++
        ((Json.laterFields fs).flatten ++ CodePoint.ofChar '\x7d' :: rest))) := by
  simp [Json.chunks, lit]

theorem flatten_laterFields_cons (k : Text) (v : Json) (fs : List (Text × Json)) (rest : Text) :
    (Json.laterFields ((k, v) :: fs)).flatten ++ rest =
      CodePoint.ofChar ',' :: CodePoint.ofChar ' ' ::
        (asciiString k ++ CodePoint.ofChar ':' :: (v.chunks.flatten ++
          ((Json.laterFields fs).flatten ++ rest))) := by
  simp [Json.laterFields, lit]

theorem endsNumeral_laterItems (vs : List Json) (rest : Text) :
    endsNumeral ((Json.laterItems vs).flatten ++ CodePoint.ofChar ']' :: rest) = true := by
  cases vs <;> rfl

theorem endsNumeral_laterFields (fs : List (Text × Json)) (rest : Text) :
    endsNumeral ((Json.laterFields fs).flatten ++ CodePoint.ofChar '\x7d' :: rest) = true := by
  cases fs <;> rfl

/-- The blank behind a comma is passed. -/
theorem skipBlanks_blank {t : Text} (h : startsValue t = true) :
    skipBlanks (CodePoint.ofChar ' ' :: t) = t :=
  skipBlanks_of_startsValue h

theorem startsValue_asciiString (s rest : Text) : startsValue (asciiString s ++ rest) = true := by
  rw [asciiString_append]
  rfl

mutual

/-- The chunks of a basic value are read as the value where no more of a numeral follows. -/
theorem readValue_chunks :
    ∀ (v : Json) (fuel : Nat) (rest : Text), v.isBasic CodePoint.isCodeUnit = true →
      endsNumeral rest = true → 3 * v.chunks.flatten.length ≤ fuel →
      readValue fuel (v.chunks.flatten ++ rest) = .ok (some (v, rest))
  | v, 0, rest, hv, _, hfuel => by
      have hstart := startsValue_chunks hv []
      have hnil : v.chunks.flatten = [] := List.eq_nil_of_length_eq_zero (by omega)
      rw [hnil] at hstart
      contradiction
  | .null, fuel + 1, rest, _, _, _ => readValue_named rfl fuel
  | .bool true, fuel + 1, rest, _, _, _ => readValue_named rfl fuel
  | .bool false, fuel + 1, rest, _, _, _ => readValue_named rfl fuel
  | .int n, fuel + 1, rest, _, hrest, _ => by
      rw [Json.chunks, List.flatten_singleton]
      exact readValue_decimalInt n hrest fuel
  | .float x, fuel + 1, rest, hv, _, _ => by simp [Json.isBasic] at hv
  | .str s, fuel + 1, rest, hv, _, _ => by
      rw [Json.chunks, List.flatten_singleton]
      exact readValue_asciiString hv fuel rest
  | .list [], fuel + 1, rest, _, _, hfuel => by
      have hsix : 6 ≤ fuel + 1 := hfuel
      obtain ⟨fuel, rfl⟩ : ∃ f, fuel = f + 1 := ⟨fuel - 1, by omega⟩
      rfl
  | .list (v :: vs), fuel + 1, rest, hv, _, hfuel => by
      simp only [Json.isBasic, Json.areBasic, Bool.and_eq_true] at hv
      have hlength := congrArg List.length (flatten_chunks_list v vs [])
      simp only [List.length_append, List.length_cons, List.length_nil] at hlength
      obtain ⟨fuel, rfl⟩ : ∃ f, fuel = f + 2 := ⟨fuel - 2, by omega⟩
      -- one step of fuel for the bracket, one for the list; the rest goes to the items
      have hfirst := readValue_chunks v fuel _ hv.1 (endsNumeral_laterItems vs rest) (by omega)
      have hitems := readItems_laterItems vs v fuel _ rest hv.2 (by omega) hfirst
      rw [flatten_chunks_list, readValue_bracket,
        readList_of_startsValue (startsValue_chunks hv.1 _), hitems]
      rfl
  | .object [], fuel + 1, rest, _, _, hfuel => by
      have hsix : 6 ≤ fuel + 1 := hfuel
      obtain ⟨fuel, rfl⟩ : ∃ f, fuel = f + 1 := ⟨fuel - 1, by omega⟩
      rfl
  | .object ((k, v) :: fs), fuel + 1, rest, hv, _, hfuel => by
      simp only [Json.isBasic, Json.fieldsBasic, Bool.and_eq_true, decide_eq_true_eq] at hv
      obtain ⟨hkeys, ⟨hk, hv⟩, hfs⟩ := hv
      have hlength := congrArg List.length (flatten_chunks_object k v fs [])
      simp only [List.length_append, List.length_cons, List.length_nil] at hlength
      obtain ⟨fuel, rfl⟩ : ∃ f, fuel = f + 2 := ⟨fuel - 2, by omega⟩
      have hfirst := readValue_chunks v fuel _ hv (endsNumeral_laterFields fs rest) (by omega)
      have hfields := readFields_laterFields fs [] k v fuel _ rest hkeys hfs hk (by omega)
        (startsValue_chunks hv _) hfirst
      rw [flatten_chunks_object, readValue_brace]
      rw [asciiString_append] at hfields ⊢
      rw [readObject_quote, hfields]
      rfl

/-- An item and those behind it are read, if the item is read where it stands. -/
theorem readItems_laterItems :
    ∀ (vs : List Json) (v : Json) (fuel : Nat) (t rest : Text),
      Json.areBasic CodePoint.isCodeUnit vs = true →
      3 * (Json.laterItems vs).flatten.length ≤ fuel →
      readValue fuel t =
        .ok (some (v, (Json.laterItems vs).flatten ++ CodePoint.ofChar ']' :: rest)) →
      readItems (fuel + 1) t = .ok (v :: vs, rest)
  | [], v, fuel, t, rest, _, _, h => readItems_last h
  | w :: ws, v, fuel, t, rest, hvs, hfuel, h => by
      simp only [Json.areBasic, Bool.and_eq_true] at hvs
      have hlength := congrArg List.length (flatten_laterItems_cons w ws [])
      simp only [List.length_append, List.length_cons, List.length_nil] at hlength
      obtain ⟨fuel, rfl⟩ : ∃ f, fuel = f + 1 := ⟨fuel - 1, by omega⟩
      have hfirst := readValue_chunks w fuel _ hvs.1 (endsNumeral_laterItems ws rest) (by omega)
      have hitems := readItems_laterItems ws w fuel _ rest hvs.2 (by omega) hfirst
      rw [flatten_laterItems_cons] at h
      refine readItems_comma h ?_
      rw [skipBlanks_blank (startsValue_chunks hvs.1 _), hitems]

/-- A field and those behind it are read, if its value is read where it stands. -/
theorem readFields_laterFields :
    ∀ (fs : List (Text × Json)) (fields : Record Json) (k : Text) (v : Json) (fuel : Nat)
      (t rest : Text),
      (Record.keys (fields ++ (k, v) :: fs)).Nodup →
      Json.fieldsBasic CodePoint.isCodeUnit fs = true → k.all CodePoint.isCodeUnit = true →
      3 * (Json.laterFields fs).flatten.length ≤ fuel → startsValue t = true →
      readValue fuel t =
        .ok (some (v, (Json.laterFields fs).flatten ++ CodePoint.ofChar '\x7d' :: rest)) →
      readFields (fuel + 1) fields (asciiString k ++ CodePoint.ofChar ':' :: t) =
        .ok (fields ++ (k, v) :: fs, rest)
  | [], fields, k, v, fuel, t, rest, hkeys, _, hk, _, ht, h => by
      rw [asciiString_append]
      exact readFields_last (Record.not_mem_keys_of_nodup hkeys) (stringBody_of_isCodeUnit hk _) ht h
  | (l, w) :: fs, fields, k, v, fuel, t, rest, hkeys, hfs, hk, hfuel, ht, h => by
      simp only [Json.fieldsBasic, Bool.and_eq_true] at hfs
      obtain ⟨⟨hl, hw⟩, hfs⟩ := hfs
      have hlength := congrArg List.length (flatten_laterFields_cons l w fs [])
      simp only [List.length_append, List.length_cons, List.length_nil] at hlength
      obtain ⟨fuel, rfl⟩ : ∃ f, fuel = f + 1 := ⟨fuel - 1, by omega⟩
      -- the field just read is now the last one of those before
      have hkeys' : (Record.keys ((fields ++ [(k, v)]) ++ (l, w) :: fs)).Nodup := by
        rwa [List.append_assoc]
      have hfirst := readValue_chunks w fuel _ hw (endsNumeral_laterFields fs rest) (by omega)
      have hfields := readFields_laterFields fs (fields ++ [(k, v)]) l w fuel _ rest hkeys' hfs hl
        (by omega) (startsValue_chunks hw _) hfirst
      rw [flatten_laterFields_cons] at h
      rw [asciiString_append,
        readFields_comma (Record.not_mem_keys_of_nodup hkeys) (stringBody_of_isCodeUnit hk _) ht h,
        skipBlanks_blank (startsValue_asciiString l _), hfields, List.append_assoc]
      rfl

end

/-! ## Documents -/

/-- The chunks of a basic value, one after the other, are a document of the value. -/
theorem parse_chunks {v : Json} (hv : v.isBasic CodePoint.isCodeUnit = true) :
    parse v.chunks.flatten = .ok v := by
  have hstart := startsValue_chunks hv []
  have hread := readValue_chunks v (fuelFor v.chunks.flatten) [] hv rfl (Nat.le_add_right _ _)
  rw [List.append_nil] at hstart hread
  rw [parse_eq, skipBlanks_of_startsValue hstart, hread]
  rfl

/-- Reading undoes writing: a value of null, truth values, integers of any size, texts of code points
below U+10000, lists, and objects with distinct keys is written as a document, and the document is
read as the same value, with its items and fields in their order. -/
theorem parse_written {o : Options} (ho : o.ascii = true) {v : Json}
    (hv : v.isBasic CodePoint.isCodeUnit = true) :
    ∃ doc, (Datum.ofJson v).written o = .ok doc ∧ parse doc = .ok v :=
  ⟨v.chunks.flatten, written_ofJson ho hv, parse_chunks hv⟩

/-- A value with a part of every kind: empty containers in a list, a key that is empty, and texts with
a quote, a backslash, a control point, half a surrogate pair and U+FFFF. -/
def partsOfEveryKind : Json :=
  .object [([], .list [.list [], .object [], .null, .bool true, .bool false]),
    (lit "n", .list [.int 0, .int (-7), .int 100000000000000000000]),
    ([CodePoint.ofNat 0xD83D], .object [(lit "b", .str (lit "\"\\/\n\x00")), (lit "a", .int 1)]),
    (lit "n ", .str [CodePoint.ofNat 0xFFFF, CodePoint.ofNat 0xDE00, CodePoint.ofNat 0x7F])]

theorem parse_written_partsOfEveryKind :
    partsOfEveryKind.isBasic CodePoint.isCodeUnit = true ∧
      ∃ doc, (Datum.ofJson partsOfEveryKind).written {} = .ok doc ∧
        parse doc = .ok partsOfEveryKind :=
  have hbasic : partsOfEveryKind.isBasic CodePoint.isCodeUnit = true := by decide
  ⟨hbasic, parse_written rfl hbasic⟩

end Wire

end ModuleStubs
