import ModuleStubs.Proofs.Completion
import ModuleStubs.Wire.Writer

/-!
# The chunks of a basic value

A basic value has no numbers but integers, texts of allowed code points only, and objects whose keys
are distinct (`Json.isBasic`). The writer never fails on one: it writes the chunks that `Json.chunks`
lists, one for each token, and the open containers are the same before and after
(`writeValue_ofJson`). A comma and the blank behind it are one chunk.
-/

set_option autoImplicit false

namespace ModuleStubs

namespace Json

open Wire (asciiString)

/-! ## Basic values -/

mutual

/-- A value of null, truth values, integers, allowed texts, lists, and objects with distinct allowed
keys. -/
def isBasic (allowed : CodePoint → Bool) : Json → Bool
  | .null => true
  | .bool _ => true
  | .int _ => true
  | .float _ => false
  | .str s => s.all allowed
  | .list items => areBasic allowed items
  | .object fields => decide (Record.keys fields).Nodup && fieldsBasic allowed fields

/-- Every item of a list is basic. -/
def areBasic (allowed : CodePoint → Bool) : List Json → Bool
  | [] => true
  | v :: vs => isBasic allowed v && areBasic allowed vs

/-- Every key of an object is allowed and every value basic. -/
def fieldsBasic (allowed : CodePoint → Bool) : List (Text × Json) → Bool
  | [] => true
  | (k, v) :: fs => k.all allowed && isBasic allowed v && fieldsBasic allowed fs

end

/-! ## Chunks -/

mutual

/-- The chunks of a value, in order. -/
def chunks : Json → List Text
  | .null => [lit "null"]
  | .bool b => [if b then lit "true" else lit "false"]
  | .int n => [decimalInt n]
  | .float x => [x.text]
  | .str s => [asciiString s]
  | .list [] => [lit "[]"]
  | .list (v :: vs) => lit "[" :: (chunks v ++ (laterItems vs ++ [lit "]"]))
  | .object [] => [lit "\x7b\x7d"]
  | .object ((k, v) :: fs) =>
    lit "\x7b" :: asciiString k :: lit ":" :: (chunks v ++ (laterFields fs ++ [lit "\x7d"]))

/-- The chunks of the items of a list behind the first. -/
def laterItems : List Json → List Text
  | [] => []
  | v :: vs => lit ", " :: (chunks v ++ laterItems vs)

/-- The chunks of the fields of an object behind the first. -/
def laterFields : List (Text × Json) → List Text
  | [] => []
  | (k, v) :: fs => lit ", " :: asciiString k :: lit ":" :: (chunks v ++ laterFields fs)

end

end Json

namespace Wire

variable {allowed : CodePoint → Bool} {o : Options}

/-! ## One level of a tree

A tree has no number by which it could be recognised, so no container is entered into the table of
open ones. -/

theorem writtenString_ascii (ho : o.ascii = true) (t : Text) :
    writtenString o t = .ok (asciiString t) := by
  rw [writtenString, if_pos ho]

theorem writeValue_str (ho : o.ascii = true) (s : Text) (fuel : Nat) (marks : Open) :
    writeValue Datum.store o (fuel + 1) (.atom (.str s)) marks = ⟨[asciiString s], .ok marks⟩ := by
  change (do
    Trace.say (← (writtenString o s : Except WriteFault Text))
    return marks : Writing Open) = _
  rw [writtenString_ascii ho]
  rfl

section Parts

variable {write : Datum → Open → Writing Open} {marks : Open} {d : Datum} {now later : List Text}

theorem writeItems_cons {ds : List Datum} (hd : write d marks = ⟨now, .ok marks⟩)
    (hds : writeItems write false ds marks = ⟨later, .ok marks⟩) (isFirst : Bool) :
    writeItems write isFirst (d :: ds) marks =
      ⟨(if isFirst then [] else [lit ", "]) ++ (now ++ later), .ok marks⟩ := by
  cases isFirst <;> simp [writeItems, hd, hds]

theorem writeFields_cons {fs : List (Key × Datum)} (ho : o.ascii = true) (k : Text)
    (hd : write d marks = ⟨now, .ok marks⟩)
    (hfs : writeFields o write false fs marks = ⟨later, .ok marks⟩) (isFirst : Bool) :
    writeFields o write isFirst ((.atom (.str k), d) :: fs) marks =
      ⟨(if isFirst then [] else [lit ", "]) ++ asciiString k :: lit ":" :: (now ++ later),
        .ok marks⟩ := by
  cases isFirst <;> simp [writeFields, keyText, writtenString_ascii ho, hd, hfs]

end Parts

theorem writeValue_list {d : Datum} {ds : List Datum} {fuel : Nat} {marks : Open}
    {inside : List Text}
    (h : writeItems (writeValue Datum.store o fuel) true (d :: ds) marks = ⟨inside, .ok marks⟩) :
    writeValue Datum.store o (fuel + 1) (.list (d :: ds)) marks =
      ⟨lit "[" :: (inside ++ [lit "]"]), .ok marks⟩ := by
  change (do
    Trace.say (lit "[")
    let marks ← writeItems (writeValue Datum.store o fuel) true (d :: ds) marks
    Trace.say (lit "]")
    return marks : Writing Open) = _
  simp [h]

theorem writeValue_dict {f : Key × Datum} {fs : List (Key × Datum)} {fuel : Nat} {marks : Open}
    {inside : List Text}
    (h : writeFields o (writeValue Datum.store o fuel) true (f :: fs) marks =
      ⟨inside, .ok marks⟩) :
    writeValue Datum.store o (fuel + 1) (.dict (f :: fs)) marks =
      ⟨lit "\x7b" :: (inside ++ [lit "\x7d"]), .ok marks⟩ := by
  change (do
    Trace.say (lit "\x7b")
    let marks ← writeFields o (writeValue Datum.store o fuel) true (f :: fs) marks
    Trace.say (lit "\x7d")
    return marks : Writing Open) = _
  simp [h]

/-! ## Whole trees -/

mutual

/-- A basic value is written as its chunks, if the fuel is no less than its depth. -/
theorem writeValue_ofJson (ho : o.ascii = true) :
    ∀ (v : Json) (fuel : Nat) (marks : Open), v.isBasic allowed = true →
      (Datum.ofJson v).depth ≤ fuel →
      writeValue Datum.store o fuel (Datum.ofJson v) marks = ⟨v.chunks, .ok marks⟩
  | v, 0, marks, _, hfuel => by
      cases v <;> simp [Datum.ofJson, Datum.depth] at hfuel
  | .null, fuel + 1, marks, _, _ => rfl
  | .bool b, fuel + 1, marks, _, _ => rfl
  | .int n, fuel + 1, marks, _, _ => rfl
  | .float x, fuel + 1, marks, hv, _ => by simp [Json.isBasic] at hv
  | .str s, fuel + 1, marks, _, _ => writeValue_str ho s fuel marks
  | .list [], fuel + 1, marks, _, _ => rfl
  | .list (v :: vs), fuel + 1, marks, hv, hfuel => by
      simp only [Json.isBasic, Json.areBasic, Bool.and_eq_true] at hv
      simp only [Datum.ofJson, Datum.ofItems, Datum.depth, Datum.itemsDepth] at hfuel
      have hfirst := writeValue_ofJson ho v fuel marks hv.1 (by omega)
      have hlater := writeItems_ofItems ho vs fuel marks hv.2 (by omega)
      have h := writeValue_list (writeItems_cons hfirst hlater true)
      rw [Datum.ofJson, Datum.ofItems, h]
      simp [Json.chunks]
  | .object [], fuel + 1, marks, _, _ => rfl
  | .object ((k, v) :: fs), fuel + 1, marks, hv, hfuel => by
      simp only [Json.isBasic, Json.fieldsBasic, Bool.and_eq_true] at hv
      simp only [Datum.ofJson, Datum.ofFields, Datum.depth, Datum.fieldsDepth] at hfuel
      have hfirst := writeValue_ofJson ho v fuel marks hv.2.1.2 (by omega)
      have hlater := writeFields_ofFields ho fs fuel marks hv.2.2 (by omega)
      have h := writeValue_dict (writeFields_cons ho k hfirst hlater true)
      rw [Datum.ofJson, Datum.ofFields, h]
      simp [Json.chunks]

theorem writeItems_ofItems (ho : o.ascii = true) :
    ∀ (vs : List Json) (fuel : Nat) (marks : Open), Json.areBasic allowed vs = true →
      Datum.itemsDepth (Datum.ofItems vs) ≤ fuel →
      writeItems (writeValue Datum.store o fuel) false (Datum.ofItems vs) marks =
        ⟨Json.laterItems vs, .ok marks⟩
  | [], fuel, marks, _, _ => rfl
  | v :: vs, fuel, marks, hvs, hfuel => by
      simp only [Json.areBasic, Bool.and_eq_true] at hvs
      simp only [Datum.ofItems, Datum.itemsDepth] at hfuel
      have hfirst := writeValue_ofJson ho v fuel marks hvs.1 (by omega)
      have hlater := writeItems_ofItems ho vs fuel marks hvs.2 (by omega)
      exact writeItems_cons hfirst hlater false

theorem writeFields_ofFields (ho : o.ascii = true) :
    ∀ (fs : List (Text × Json)) (fuel : Nat) (marks : Open),
      Json.fieldsBasic allowed fs = true → Datum.fieldsDepth (Datum.ofFields fs) ≤ fuel →
      writeFields o (writeValue Datum.store o fuel) false (Datum.ofFields fs) marks =
        ⟨Json.laterFields fs, .ok marks⟩
  | [], fuel, marks, _, _ => rfl
  | (k, v) :: fs, fuel, marks, hfs, hfuel => by
      simp only [Json.fieldsBasic, Bool.and_eq_true] at hfs
      simp only [Datum.ofFields, Datum.fieldsDepth] at hfuel
      have hfirst := writeValue_ofJson ho v fuel marks hfs.1.2 (by omega)
      have hlater := writeFields_ofFields ho fs fuel marks hfs.2 (by omega)
      exact writeFields_cons ho k hfirst hlater false

end

/-- The writer succeeds on a basic value, and the document is its chunks one after the other. -/
theorem written_ofJson (ho : o.ascii = true) {v : Json} (hv : v.isBasic allowed = true) :
    (Datum.ofJson v).written o = .ok v.chunks.flatten := by
  have hwrite := writeValue_ofJson ho v ((Datum.ofJson v).depth + 1) [] hv (Nat.le_succ _)
  rw [Datum.written, Datum.chunks, hwrite]
  rfl

end Wire

end ModuleStubs
