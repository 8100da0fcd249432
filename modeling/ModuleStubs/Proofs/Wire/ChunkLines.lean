import ModuleStubs.Proofs.Grammar.Tokens
import ModuleStubs.Proofs.Text.Lines
import ModuleStubs.Proofs.Text.Utf8
import ModuleStubs.Proofs.Wire.RoundTrip

/-!
# Chunks on lines of their own

Each chunk of a basic value is a token of printable ASCII (`isToken_of_mem_chunks`), so it lies on one
line. Since blanks may stand between tokens, the chunks are a document of the value with any blanks
behind each of them (`document_chunks`), line feeds in particular. The document is one of standard
JSON if the value has no halves of surrogate pairs in its texts.
-/

set_option autoImplicit false

namespace ModuleStubs

open Grammar (Body Digits Dialect Document Field Gap Item Numeral Value Whole letters)

/-- Writing entries with distinct keys one after the other gives the entries. -/
theorem Record.foldl_set_of_nodup {α : Type} {entries r : Record α}
    (h : (Record.keys (r ++ entries)).Nodup) :
    entries.foldl (fun r (k, v) => Record.set k v r) r = r ++ entries := by
  induction entries generalizing r with
  | nil => rw [List.append_nil]; rfl
  | cons e entries ih =>
      obtain ⟨k, v⟩ := e
      have hlater : (Record.keys ((r ++ [(k, v)]) ++ entries)).Nodup := by
        rwa [List.append_assoc]
      have hset := Record.set_of_not_mem (Record.not_mem_keys_of_nodup h) v
      change entries.foldl _ (Record.set k v r) = _
      rw [hset, ih hlater, List.append_assoc]
      rfl

theorem Record.lastValues_of_nodup {α : Type} {entries : Record α}
    (h : (Record.keys entries).Nodup) : Record.lastValues entries = entries := by
  rw [← Record.ofList_eq_lastValues]
  exact Record.foldl_set_of_nodup (r := []) h

/-- The code points that one escape of four digits names without another one beside it. -/
def CodePoint.isWholeUnit (c : CodePoint) : Bool := c.isCodeUnit && !c.isSurrogate

/-- The printable code points of ASCII. -/
def CodePoint.IsPrintable (c : CodePoint) : Prop := 32 ≤ c.val ∧ c.val ≤ 126

instance CodePoint.decidableIsPrintable (c : CodePoint) : Decidable c.IsPrintable :=
  inferInstanceAs (Decidable (_ ∧ _))

theorem CodePoint.IsPrintable.not_isSurrogate {c : CodePoint} (h : c.IsPrintable) :
    c.isSurrogate = false := by
  obtain ⟨-, hlast⟩ := h
  simp only [CodePoint.isSurrogate, Bool.and_eq_false_iff, decide_eq_false_iff_not]
  omega

/-- Printable ASCII that starts with neither a blank nor a capital letter. -/
def Text.IsToken : Text → Prop
  | [] => False
  | c :: t =>
    isBlank c = false ∧ (c.val < 65 ∨ 90 < c.val) ∧ ∀ d ∈ c :: t, CodePoint.IsPrintable d

instance Text.decidableIsToken : (t : Text) → Decidable t.IsToken
  | [] => inferInstanceAs (Decidable False)
  | _ :: _ => inferInstanceAs (Decidable (_ ∧ _ ∧ _))

theorem Text.IsToken.isPrintable {t : Text} (h : t.IsToken) : ∀ c ∈ t, c.IsPrintable := by
  cases t with
  | nil => exact h.elim
  | cons c t => exact h.2.2

/-- A token lies on one line. -/
theorem Text.IsToken.isLine {t : Text} (h : t.IsToken) : t.IsLine := by
  have hprintable : ∀ n : Nat, n < 32 → ∀ c ∈ t, c.val ≠ n := by
    intro n hn c hc
    have := (h.isPrintable c hc).1
    omega
  constructor
  · intro hmem
    exact hprintable 10 (by decide) _ hmem rfl
  · intro hmem
    exact hprintable 13 (by decide) _ hmem rfl

namespace Wire

/-! ## Strings -/

/-- A code point of a string is written by a letter, as itself, or by its number. -/
theorem asciiPoint_cases {c : CodePoint} (hc : c.val < 0x10000) :
    (∃ e n, (e, n) ∈ letters ∧ c = CodePoint.ofNat n ∧
      asciiPoint c = [CodePoint.ofChar '\\', CodePoint.ofChar e]) ∨
    (c ≠ '"' ∧ c ≠ '\\' ∧ CodePoint.IsPrintable c ∧ asciiPoint c = [c]) ∨
    asciiPoint c = CodePoint.ofChar '\\' :: CodePoint.ofChar 'u' ::
      [Text.hexDigit (c.val / 16 / 16 / 16 % 16), Text.hexDigit (c.val / 16 / 16 % 16),
        Text.hexDigit (c.val / 16 % 16), Text.hexDigit (c.val % 16)] := by
  rw [asciiPoint]
  cases hletter : letterEscape? c with
  | some e =>
      obtain ⟨l, rfl, -, hl⟩ := letterEscape?_eq_some hletter
      obtain ⟨e, n, hmem, rfl, rfl⟩ := Grammar.mem_letters_of_shortEscape? hl
      exact Or.inl ⟨e, n, hmem, rfl, rfl⟩
  | none =>
      simp only
      obtain ⟨hquote, hslash⟩ := ne_of_letterEscape?_eq_none hletter
      split
      · rename_i hprintable
        exact Or.inr (Or.inl ⟨hquote, hslash, hprintable, rfl⟩)
      · rw [numberEscape, Text.hexFour_of_lt hc]
        exact Or.inr (Or.inr rfl)

theorem isPrintable_hexDigit (n : Nat) : CodePoint.IsPrintable (Text.hexDigit (n % 16)) := by
  have hall : ∀ d : Fin 16, 32 ≤ (Text.hexDigit d.val).val ∧ (Text.hexDigit d.val).val ≤ 126 := by
    decide
  exact hall ⟨n % 16, Nat.mod_lt n (by decide)⟩

theorem isPrintable_of_mem_letters {e : Char} {n : Nat} (h : (e, n) ∈ letters) :
    CodePoint.IsPrintable (CodePoint.ofChar e) := by
  have hall : ∀ p ∈ letters, 32 ≤ (CodePoint.ofChar p.1).val ∧ (CodePoint.ofChar p.1).val ≤ 126 := by
    decide
  exact hall (e, n) h

theorem isPrintable_of_mem_asciiPoint {c d : CodePoint} (hc : c.val < 0x10000)
    (hd : d ∈ asciiPoint c) : CodePoint.IsPrintable d := by
  have hslash : CodePoint.IsPrintable (CodePoint.ofChar '\\') := by decide
  have hu : CodePoint.IsPrintable (CodePoint.ofChar 'u') := by decide
  rcases asciiPoint_cases hc with ⟨e, n, hmem, -, heq⟩ | ⟨-, -, hprintable, heq⟩ | heq
  · rw [heq] at hd
    rcases List.mem_pair.1 hd with rfl | rfl
    · exact hslash
    · exact isPrintable_of_mem_letters hmem
  · rw [heq] at hd
    rwa [List.mem_singleton.1 hd]
  · rw [heq] at hd
    simp only [List.mem_cons, List.not_mem_nil, or_false] at hd
    rcases hd with rfl | rfl | rfl | rfl | rfl | rfl
    · exact hslash
    · exact hu
    all_goals exact isPrintable_hexDigit _

theorem isWholeUnit_iff {c : CodePoint} :
    c.isWholeUnit = true ↔ c.val < 0x10000 ∧ (c.val < 0xD800 ∨ 0xDFFF < c.val) := by
  simp [CodePoint.isWholeUnit, CodePoint.isCodeUnit, CodePoint.isSurrogate]

theorem isToken_asciiString {s : Text} (hs : s.all CodePoint.isWholeUnit = true) :
    (asciiString s).IsToken := by
  have heq := asciiString_append s []
  rw [List.append_nil] at heq
  rw [heq]
  refine ⟨by decide, by decide, ?_⟩
  intro c hc
  rcases List.mem_cons.1 hc with rfl | hc
  · decide
  rcases List.mem_append.1 hc with hc | hc
  · obtain ⟨d, hd, hmem⟩ := List.mem_flatMap.1 hc
    have hunit := isWholeUnit_iff.1 (List.all_eq_true.1 hs d hd)
    exact isPrintable_of_mem_asciiPoint hunit.1 hmem
  · rw [List.mem_singleton.1 hc]
    decide

/-- A code point in front of the inside of a string. -/
theorem body_asciiPoint {c : CodePoint} {t s : Text} (hc : c.isWholeUnit = true)
    (h : Body .standard t s) : Body .standard (asciiPoint c ++ t) (c :: s) := by
  obtain ⟨hunit, hwhole⟩ := isWholeUnit_iff.1 hc
  rcases asciiPoint_cases hunit with ⟨e, n, hmem, rfl, heq⟩ | ⟨hquote, hslash, hprintable, heq⟩ | heq
  · rw [heq]
    exact .letter hmem h
  · rw [heq]
    exact .raw hquote hslash (decide_eq_true hprintable.1) h
  · have hmod : ∀ m, (Text.hexDigit (m % 16)).hexValue? = some (m % 16) :=
      fun m => Text.hexValue?_hexDigit (Nat.mod_lt m (by decide))
    have hvalue : ((c.val / 16 / 16 / 16 % 16 * 16 + c.val / 16 / 16 % 16) * 16 +
        c.val / 16 % 16) * 16 + c.val % 16 = c.val := by omega
    have hnumber := Body.number (D := .standard) (hmod _) (hmod _) (hmod _) (hmod _)
      (by rw [hvalue]; exact decide_eq_true hwhole) h
    rw [hvalue, CodePoint.ofNat_val] at hnumber
    rw [heq]
    exact hnumber

/-- The inside of a string denotes the text that it was written for. -/
theorem body_flatMap_asciiPoint {s : Text} (hs : s.all CodePoint.isWholeUnit = true) :
    Body .standard (s.flatMap asciiPoint) s := by
  induction s with
  | nil => exact .nil
  | cons c s ih =>
      obtain ⟨hc, hs⟩ := Bool.and_eq_true_iff.1 (List.all_cons ▸ hs)
      rw [List.flatMap_cons]
      exact body_asciiPoint hc (ih hs)

theorem asciiString_eq (s : Text) : asciiString s = Grammar.inQuotes (s.flatMap asciiPoint) := by
  simp [asciiString, inQuotes, Grammar.inQuotes, lit]

/-! ## Numerals -/

theorem whole_decimal (n : Nat) : Whole (decimal n) := by
  rcases Nat.eq_zero_or_pos n with rfl | hpos
  · rw [decimal]
    exact .zero
  · exact Grammar.whole_of_digits (Grammar.digits_decimal n) (head?_decimal_ne_zero n hpos)

theorem numeral_decimalInt (n : Int) : Numeral (decimalInt n) (.int n) := by
  have hwhole := whole_decimal n.natAbs
  rw [decimalInt]
  split
  · have hvalue : -(n.natAbs : Int) = n := by omega
    have h := @Numeral.integer true _ hwhole
    rw [digitsValue_decimal, if_pos rfl, hvalue] at h
    exact h
  · have hvalue : (n.natAbs : Int) = n := by omega
    have h := @Numeral.integer false _ hwhole
    rw [digitsValue_decimal, if_neg Bool.false_ne_true, hvalue] at h
    exact h

theorem isToken_decimalInt (n : Int) : (decimalInt n).IsToken := by
  have hdigit : ∀ d : CodePoint, d.isDigit = true → 48 ≤ d.val ∧ d.val ≤ 57 := by
    intro d hd
    simpa [CodePoint.isDigit] using hd
  have hdigits : ∀ d ∈ decimal n.natAbs, d.IsPrintable := by
    intro d hd
    have := hdigit d (isDigit_of_mem_decimal _ d hd)
    exact ⟨by omega, by omega⟩
  obtain ⟨c, ds, hn, hc⟩ := exists_decimal_eq_cons n.natAbs
  rw [decimalInt]
  split
  · refine ⟨by decide, by decide, ?_⟩
    intro d hd
    rcases List.mem_cons.1 hd with rfl | hd
    · decide
    · exact hdigits d hd
  · have hrange := hdigit c hc
    rw [hn] at hdigits ⊢
    refine ⟨?_, by omega, hdigits⟩
    simp [isBlank]
    omega

end Wire

/-! ## Chunks -/

namespace Json

open Wire

mutual

/-- Every chunk of a basic value is a token. -/
theorem isToken_of_mem_chunks : ∀ (v : Json), v.isBasic CodePoint.isWholeUnit = true →
    ∀ c ∈ v.chunks, c.IsToken
  | .null, _ => List.forall_mem_singleton.2 (by decide)
  | .bool true, _ => List.forall_mem_singleton.2 (by decide)
  | .bool false, _ => List.forall_mem_singleton.2 (by decide)
  | .int n, _ => List.forall_mem_singleton.2 (isToken_decimalInt n)
  | .float x, hv => by simp [isBasic] at hv
  | .str s, hv => List.forall_mem_singleton.2 (isToken_asciiString hv)
  | .list [], _ => List.forall_mem_singleton.2 (by decide)
  | .list (v :: vs), hv => by
      simp only [isBasic, areBasic, Bool.and_eq_true] at hv
      rw [chunks, List.forall_mem_cons, List.forall_mem_append, List.forall_mem_append]
      exact ⟨by decide, isToken_of_mem_chunks v hv.1, isToken_of_mem_laterItems vs hv.2,
        List.forall_mem_singleton.2 (by decide)⟩
  | .object [], _ => List.forall_mem_singleton.2 (by decide)
  | .object ((k, v) :: fs), hv => by
      simp only [isBasic, fieldsBasic, Bool.and_eq_true] at hv
      obtain ⟨-, ⟨hk, hv⟩, hfs⟩ := hv
      rw [chunks, List.forall_mem_cons, List.forall_mem_cons, List.forall_mem_cons,
        List.forall_mem_append, List.forall_mem_append]
      exact ⟨by decide, isToken_asciiString hk, by decide, isToken_of_mem_chunks v hv,
        isToken_of_mem_laterFields fs hfs, List.forall_mem_singleton.2 (by decide)⟩

theorem isToken_of_mem_laterItems : ∀ (vs : List Json),
    areBasic CodePoint.isWholeUnit vs = true → ∀ c ∈ laterItems vs, c.IsToken
  | [], _ => nofun
  | v :: vs, hvs => by
      simp only [areBasic, Bool.and_eq_true] at hvs
      rw [laterItems, List.forall_mem_cons, List.forall_mem_append]
      exact ⟨by decide, isToken_of_mem_chunks v hvs.1, isToken_of_mem_laterItems vs hvs.2⟩

theorem isToken_of_mem_laterFields : ∀ (fs : List (Text × Json)),
    fieldsBasic CodePoint.isWholeUnit fs = true → ∀ c ∈ laterFields fs, c.IsToken
  | [], _ => nofun
  | (k, v) :: fs, hfs => by
      simp only [fieldsBasic, Bool.and_eq_true] at hfs
      obtain ⟨⟨hk, hv⟩, hfs⟩ := hfs
      rw [laterFields, List.forall_mem_cons, List.forall_mem_cons, List.forall_mem_cons,
        List.forall_mem_append]
      exact ⟨by decide, isToken_asciiString hk, by decide, isToken_of_mem_chunks v hv,
        isToken_of_mem_laterFields fs hfs⟩

end

/-! ## Documents -/

/-- The chunks one after the other, with a gap behind each of them. -/
def spread (g : Text) (cs : List Text) : Text := cs.flatMap (· ++ g)

section Spread

variable {g : Text}

@[simp] theorem spread_nil : spread g [] = [] := rfl

@[simp] theorem spread_cons (c : Text) (cs : List Text) :
    spread g (c :: cs) = c ++ (g ++ spread g cs) := by
  simp [spread]

@[simp] theorem spread_append (cs ds : List Text) :
    spread g (cs ++ ds) = spread g cs ++ spread g ds := List.flatMap_append

theorem gap_blank (hg : Gap .standard g) : Gap .standard (CodePoint.ofChar ' ' :: g) :=
  List.forall_mem_cons.2 ⟨by decide, hg⟩

mutual

/-- The chunks of a basic value with gaps behind them are the value, and a gap. -/
theorem value_of_chunks (hg : Gap .standard g) :
    ∀ (v : Json), v.isBasic CodePoint.isWholeUnit = true →
      ∃ t, spread g v.chunks = t ++ g ∧ Value .standard t v
  | .null, _ => ⟨_, by simp [chunks], .name .null⟩
  | .bool true, _ => ⟨_, by simp [chunks], .name .true⟩
  | .bool false, _ => ⟨_, by simp [chunks], .name .false⟩
  | .int n, _ => ⟨_, by simp [chunks], .numeral (numeral_decimalInt n)⟩
  | .float x, hv => by simp [isBasic] at hv
  | .str s, hv => by
      refine ⟨_, ?_, .string (body_flatMap_asciiPoint hv)⟩
      simp [chunks, asciiString_eq]
  | .list [], _ => ⟨_, by simp [chunks, lit], .emptyList (g := []) nofun⟩
  | .list (v :: vs), hv => by
      simp only [isBasic, areBasic, Bool.and_eq_true] at hv
      obtain ⟨t, ht, hvalue⟩ := value_of_chunks hg v hv.1
      obtain ⟨is, hitems, rfl, hgaps, hvalues⟩ := items_of_laterItems hg vs hv.2
      have hlist := Value.list (i := ⟨g, t, v, g⟩) (List.forall_mem_cons.2 ⟨⟨hg, hg⟩, hgaps⟩)
        (List.forall_mem_cons.2 ⟨hvalue, hvalues⟩)
      refine ⟨_, ?_, hlist⟩
      simp [chunks, lit, Item.padded, ht, hitems]
  | .object [], _ => ⟨_, by simp [chunks, lit], .emptyObject (g := []) nofun⟩
  | .object ((k, v) :: fs), hv => by
      simp only [isBasic, fieldsBasic, Bool.and_eq_true, decide_eq_true_eq] at hv
      obtain ⟨hkeys, ⟨hk, hv⟩, hfs⟩ := hv
      obtain ⟨t, ht, hvalue⟩ := value_of_chunks hg v hv
      obtain ⟨fields, hfields, rfl, hnamed, hvalues⟩ := fields_of_laterFields hg fs hfs
      have hobject := Value.object (f := ⟨g, k.flatMap asciiPoint, k, g, ⟨g, t, v, g⟩⟩)
        (List.forall_mem_cons.2 ⟨⟨hg, body_flatMap_asciiPoint hk, hg, hg, hg⟩, hnamed⟩)
        (List.forall_mem_cons.2 ⟨hvalue, hvalues⟩)
      change Value _ _ (.object (Record.lastValues ((k, v) :: fields.map Field.entry))) at hobject
      rw [Record.lastValues_of_nodup hkeys] at hobject
      refine ⟨_, ?_, hobject⟩
      simp [chunks, lit, Field.padded, Item.padded, asciiString_eq, ht, hfields]

/-- The items behind the first one have the blank of the comma and a gap before them, and a gap
behind them. -/
theorem items_of_laterItems (hg : Gap .standard g) :
    ∀ (vs : List Json), areBasic CodePoint.isWholeUnit vs = true →
      ∃ is : List Item, spread g (laterItems vs) = Grammar.laterItems is ∧
        is.map Item.value = vs ∧ (∀ i ∈ is, i.HasGaps .standard) ∧
        ∀ i ∈ is, Value .standard i.text i.value
  | [], _ => ⟨[], rfl, rfl, nofun, nofun⟩
  | v :: vs, hvs => by
      simp only [areBasic, Bool.and_eq_true] at hvs
      obtain ⟨t, ht, hvalue⟩ := value_of_chunks hg v hvs.1
      obtain ⟨is, hitems, rfl, hgaps, hvalues⟩ := items_of_laterItems hg vs hvs.2
      refine ⟨⟨CodePoint.ofChar ' ' :: g, t, v, g⟩ :: is, ?_, rfl,
        List.forall_mem_cons.2 ⟨⟨gap_blank hg, hg⟩, hgaps⟩,
        List.forall_mem_cons.2 ⟨hvalue, hvalues⟩⟩
      simp [laterItems, Grammar.laterItems, lit, Item.padded, ht, hitems]

theorem fields_of_laterFields (hg : Gap .standard g) :
    ∀ (fs : List (Text × Json)), fieldsBasic CodePoint.isWholeUnit fs = true →
      ∃ fields : List Field, spread g (laterFields fs) = Grammar.laterFields fields ∧
        fields.map Field.entry = fs ∧ (∀ f ∈ fields, f.IsNamed .standard) ∧
        ∀ f ∈ fields, Value .standard f.item.text f.item.value
  | [], _ => ⟨[], rfl, rfl, nofun, nofun⟩
  | (k, v) :: fs, hfs => by
      simp only [fieldsBasic, Bool.and_eq_true] at hfs
      obtain ⟨⟨hk, hv⟩, hfs⟩ := hfs
      obtain ⟨t, ht, hvalue⟩ := value_of_chunks hg v hv
      obtain ⟨fields, hfields, rfl, hnamed, hvalues⟩ := fields_of_laterFields hg fs hfs
      refine ⟨⟨CodePoint.ofChar ' ' :: g, k.flatMap asciiPoint, k, g, ⟨g, t, v, g⟩⟩ :: fields, ?_, rfl,
        List.forall_mem_cons.2 ⟨⟨gap_blank hg, body_flatMap_asciiPoint hk, hg, hg, hg⟩, hnamed⟩,
        List.forall_mem_cons.2 ⟨hvalue, hvalues⟩⟩
      simp [laterFields, Grammar.laterFields, lit, Field.padded, Item.padded, asciiString_eq, ht,
        hfields]

end

/-- The chunks of a basic value are a document of it with any gap behind each of them. -/
theorem document_chunks (hg : Gap .standard g) {v : Json}
    (hv : v.isBasic CodePoint.isWholeUnit = true) : Document .standard (spread g v.chunks) v := by
  obtain ⟨t, ht, hvalue⟩ := value_of_chunks hg v hv
  exact ⟨[], t, g, nofun, hvalue, hg, ht⟩

end Spread

end Json

end ModuleStubs
