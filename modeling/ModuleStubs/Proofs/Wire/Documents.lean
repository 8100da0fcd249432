import ModuleStubs.Proofs.Wire.ChunkLines
import ModuleStubs.Proofs.Wire.Floats

/-!
# What is written is a document

Whatever the writer is given, if it completes and keeps to ASCII, the text that it wrote is a document of
the dialect of the wire (`document_of_written`). The data may be anything in any store: keys that are no
texts, numbers that are none, code points whose escape has more than four digits, foreign objects. The
proof follows the writer, with one lemma for each kind of piece (`body_asciiPoints`,
`value_of_writtenFloat`, `items_of_writeItems`, `fields_of_writeFields`).
-/

set_option autoImplicit false

namespace ModuleStubs

namespace Wire

open Grammar

/-! ## Strings -/

/-- Code points that need no escape stand for themselves. -/
theorem body_append {r t s : Text} (hr : ∀ c ∈ r, c ≠ '"' ∧ c ≠ '\\') (h : Body .wire t s) :
    Body .wire (r ++ t) (r ++ s) := by
  induction r with
  | nil => exact h
  | cons c r ih =>
      obtain ⟨hquote, hslash⟩ := hr c List.mem_cons_self
      exact .raw hquote hslash rfl (ih fun d hd => hr d (List.mem_cons_of_mem c hd))

theorem ne_of_hexDigit (n : Nat) :
    Text.hexDigit (n % 16) ≠ '"' ∧ Text.hexDigit (n % 16) ≠ '\\' := by
  have hall : ∀ d : Fin 16, Text.hexDigit d.val ≠ '"' ∧ Text.hexDigit d.val ≠ '\\' := by decide
  exact hall ⟨n % 16, Nat.mod_lt n (by decide)⟩

/-- The escape of a code point by its number has four hexadecimal digits, and maybe some more. -/
theorem hexFour_eq (n : Nat) : ∃ (a b c d : Nat) (more : List Nat),
    Text.hexFour n = Text.hexDigit (a % 16) :: Text.hexDigit (b % 16) :: Text.hexDigit (c % 16) ::
      Text.hexDigit (d % 16) :: more.map fun m => Text.hexDigit (m % 16) := by
  rw [Text.hexFour]
  split
  · exact ⟨_, _, _, _, [], rfl⟩
  · split
    · exact ⟨_, _, _, _, [_], rfl⟩
    · exact ⟨_, _, _, _, [_, _], rfl⟩

theorem body_numberEscape (c : CodePoint) {t s : Text} (h : Body .wire t s) :
    ∃ s', Body .wire (numberEscape c ++ t) s' := by
  obtain ⟨i, j, k, l, more, heq⟩ := hexFour_eq c.val
  have hmore : ∀ d ∈ more.map fun m => Text.hexDigit (m % 16), d ≠ '"' ∧ d ≠ '\\' := by
    intro d hd
    obtain ⟨m, -, rfl⟩ := List.mem_map.1 hd
    exact ne_of_hexDigit m
  have hdigit : ∀ m, (Text.hexDigit (m % 16)).hexValue? = some (m % 16) :=
    fun m => Text.hexValue?_hexDigit (Nat.mod_lt m (by decide))
  have hnumber := Body.number (D := .wire) (hdigit i) (hdigit j) (hdigit k) (hdigit l) rfl
    (body_append hmore h)
  rw [numberEscape, heq]
  exact ⟨_, hnumber⟩

theorem body_asciiPoints (t : Text) : ∃ s, Body .wire (t.flatMap asciiPoint) s := by
  induction t with
  | nil => exact ⟨[], .nil⟩
  | cons c t ih =>
      obtain ⟨s, hs⟩ := ih
      rw [List.flatMap_cons, asciiPoint]
      cases hletter : letterEscape? c with
      | some e =>
          obtain ⟨l, rfl, -, hl⟩ := letterEscape?_eq_some hletter
          obtain ⟨e, n, hmem, rfl, rfl⟩ := mem_letters_of_shortEscape? hl
          exact ⟨_, .letter hmem hs⟩
      | none =>
          obtain ⟨hquote, hslash⟩ := ne_of_letterEscape?_eq_none hletter
          simp only
          split
          · exact ⟨_, .raw hquote hslash rfl hs⟩
          · exact body_numberEscape c hs

theorem value_asciiString (t : Text) : ∃ s, Value .wire (asciiString t) (.str s) := by
  obtain ⟨s, hs⟩ := body_asciiPoints t
  exact ⟨s, asciiString_eq t ▸ .string hs⟩

/-! ## Numbers -/

theorem value_specialFloat (x : Binary64) : ∃ v, Value .wire (specialFloat x) v := by
  rw [specialFloat]
  split
  · exact ⟨_, .name .nan⟩
  · split
    · exact ⟨_, .name .negativeInfinity⟩
    · exact ⟨_, .name .infinity⟩

/-- A number is written as its text only if it is finite. -/
theorem value_of_writtenFloat {allowNaN : Bool} {x : Binary64} {odd : Bool} {t : Text}
    (h : writtenFloat allowNaN x odd = .ok t) : ∃ v, Value .wire t v := by
  rcases writtenFloat_cases h with ⟨rfl, -, hfinite, -⟩ | ⟨rfl, -⟩
  · obtain ⟨negative, m, e, hparts⟩ := Binary64.exists_parts_of_isFinite hfinite
    exact ⟨_, .numeral (Binary64.numeral_text hparts)⟩
  · exact value_specialFloat x

theorem value_of_writtenAtom {o : Options} (ho : o.ascii = true) {a : Atom} {t : Text}
    (h : writtenAtom o a = .ok t) : ∃ v, Value .wire t v := by
  cases a with
  | null =>
      obtain rfl := Except.ok.inj h
      exact ⟨_, .name .null⟩
  | bool b =>
      obtain rfl := Except.ok.inj h
      cases b with
      | true => exact ⟨_, .name .true⟩
      | false => exact ⟨_, .name .false⟩
  | int n =>
      obtain rfl := Except.ok.inj h
      exact ⟨_, .numeral (numeral_decimalInt n)⟩
  | float x odd => exact value_of_writtenFloat h
  | str s =>
      rw [writtenAtom, writtenString_ascii ho] at h
      obtain rfl := Except.ok.inj h
      obtain ⟨u, hu⟩ := value_asciiString s
      exact ⟨_, hu⟩
  | foreign name => contradiction

/-! ## Containers -/

/-- If the writing completes, what is written is a value. -/
def WritesValue (w : Writing Open) : Prop :=
  ∀ marks, w.result = .ok marks → ∃ v, Value .wire w.log.flatten v

/-- Items one after the other, with a comma before all but the first. -/
def leadItems : List Item → Text
  | [] => []
  | i :: is => i.padded ++ laterItems is

/-- Fields one after the other, with a comma before all but the first. -/
def leadFields : List Field → Text
  | [] => []
  | f :: fs => f.padded ++ laterFields fs

theorem value_leadItems {is : List Item} (hgaps : ∀ i ∈ is, i.HasGaps .wire)
    (hvalues : ∀ i ∈ is, Value .wire i.text i.value) :
    ∃ v, Value .wire (CodePoint.ofChar '[' :: (leadItems is ++ [CodePoint.ofChar ']'])) v := by
  cases is with
  | nil => exact ⟨_, .emptyList (gap_nil _)⟩
  | cons i is =>
      rw [leadItems, List.append_assoc]
      exact ⟨_, .list hgaps hvalues⟩

theorem value_leadFields {fs : List Field} (hnamed : ∀ f ∈ fs, f.IsNamed .wire)
    (hvalues : ∀ f ∈ fs, Value .wire f.item.text f.item.value) :
    ∃ v, Value .wire (CodePoint.ofChar '\x7b' :: (leadFields fs ++ [CodePoint.ofChar '\x7d'])) v := by
  cases fs with
  | nil => exact ⟨_, .emptyObject (gap_nil _)⟩
  | cons f fs =>
      rw [leadFields, List.append_assoc]
      exact ⟨_, .object hnamed hvalues⟩

/-- What comes before an item or a field: nothing before the first one, a comma and a blank before the
others. -/
def separator (isFirst : Bool) : List Text := if isFirst then [] else [lit ", "]

/-- The blank before an item or a field that belongs to it. -/
def blankBefore (isFirst : Bool) : Text := if isFirst then [] else [CodePoint.ofChar ' ']

theorem gap_blankBefore (isFirst : Bool) : Gap .wire (blankBefore isFirst) := by
  cases isFirst with
  | true => exact gap_nil _
  | false => exact List.forall_mem_singleton.2 (by decide)

section Containers

variable {ρ : Type} {o : Options}

theorem writesValue_enclosed {number? : Option Nat} {inside : Open → Writing Open}
    (h : ∀ marks, WritesValue (inside marks)) (marks : Open) :
    WritesValue (enclosed o number? inside marks) := by
  cases number? with
  | none => exact h marks
  | some n =>
      rw [enclosed]
      split
      · exact h marks
      · split
        · exact nofun
        · intro after hafter
          obtain ⟨opened, hinside, -⟩ := Trace.result_bind_eq_ok.1 hafter
          obtain ⟨v, hv⟩ := h (n :: marks) opened hinside
          rw [Trace.log_bind hinside, Trace.pure_eq, List.append_nil]
          exact ⟨v, hv⟩

theorem writeItems_cons_eq (write : ρ → Open → Writing Open) (isFirst : Bool) (v : ρ) (vs : List ρ)
    (marks : Open) :
    writeItems write isFirst (v :: vs) marks =
      (⟨separator isFirst, .ok ()⟩ : Writing Unit) >>= fun _ => write v marks >>= fun marks =>
        writeItems write false vs marks := by
  cases isFirst with
  | true => rfl
  | false => rfl

/-- The items of a list are written as values, with commas between them. -/
theorem items_of_writeItems {write : ρ → Open → Writing Open}
    (hwrite : ∀ v marks, WritesValue (write v marks)) (vs : List ρ) (isFirst : Bool)
    {marks after : Open} (h : (writeItems write isFirst vs marks).result = .ok after) :
    ∃ is : List Item, (writeItems write isFirst vs marks).log.flatten =
        (if isFirst then leadItems is else laterItems is) ∧
      (∀ i ∈ is, i.HasGaps .wire) ∧ ∀ i ∈ is, Value .wire i.text i.value := by
  induction vs generalizing isFirst marks with
  | nil => exact ⟨[], by cases isFirst <;> rfl, List.forall_mem_nil _, List.forall_mem_nil _⟩
  | cons v vs ih =>
      rw [writeItems_cons_eq] at h ⊢
      obtain ⟨-, -, hparts⟩ := Trace.result_bind_eq_ok.1 h
      obtain ⟨between, hv, hvs⟩ := Trace.result_bind_eq_ok.1 hparts
      obtain ⟨value, hvalue⟩ := hwrite v marks between hv
      obtain ⟨is, hlog, hgaps, hvalues⟩ := ih false hvs
      rw [Trace.bind_ok, Trace.log_bind hv]
      refine ⟨⟨blankBefore isFirst, (write v marks).log.flatten, value, []⟩ :: is, ?_, ?_, ?_⟩
      · simp only [List.flatten_append, hlog]
        cases isFirst with
        | true => simp [separator, leadItems, blankBefore, Item.padded]
        | false => simp [separator, laterItems, blankBefore, Item.padded, lit]
      · exact List.forall_mem_cons.2 ⟨⟨gap_blankBefore isFirst, gap_nil _⟩, hgaps⟩
      · exact List.forall_mem_cons.2 ⟨hvalue, hvalues⟩

theorem writeFields_cons_of_none (write : ρ → Open → Writing Open) (isFirst : Bool) {k : Key}
    (hk : keyText o k = .ok none) (v : ρ) (fs : List (Key × ρ)) (marks : Open) :
    writeFields o write isFirst ((k, v) :: fs) marks = writeFields o write isFirst fs marks := by
  rw [writeFields, hk]
  rfl

theorem writeFields_cons_of_some (write : ρ → Open → Writing Open) (isFirst : Bool) {k : Key}
    {key t : Text} (hk : keyText o k = .ok (some key)) (ht : writtenString o key = .ok t) (v : ρ)
    (fs : List (Key × ρ)) (marks : Open) :
    writeFields o write isFirst ((k, v) :: fs) marks =
      (⟨separator isFirst ++ [t, lit ":"], .ok ()⟩ : Writing Unit) >>= fun _ =>
        write v marks >>= fun marks => writeFields o write false fs marks := by
  rw [writeFields, hk]
  cases isFirst with
  | true => simp [ht, separator]
  | false => simp [ht, separator]

/-- The entries of a dictionary are written as fields, with commas between them. -/
theorem fields_of_writeFields (ho : o.ascii = true) {write : ρ → Open → Writing Open}
    (hwrite : ∀ v marks, WritesValue (write v marks)) (entries : List (Key × ρ)) (isFirst : Bool)
    {marks after : Open} (h : (writeFields o write isFirst entries marks).result = .ok after) :
    ∃ fs : List Field, (writeFields o write isFirst entries marks).log.flatten =
        (if isFirst then leadFields fs else laterFields fs) ∧
      (∀ f ∈ fs, f.IsNamed .wire) ∧ ∀ f ∈ fs, Value .wire f.item.text f.item.value := by
  -- an entry whose key is left out leaves the next one the first
  induction entries generalizing isFirst marks with
  | nil => exact ⟨[], by cases isFirst <;> rfl, List.forall_mem_nil _, List.forall_mem_nil _⟩
  | cons e entries ih =>
      obtain ⟨k, v⟩ := e
      cases hk : keyText o k with
      | error fault =>
          rw [writeFields, hk] at h
          contradiction
      | ok key? =>
          cases key? with
          | none =>
              rw [writeFields_cons_of_none write isFirst hk] at h ⊢
              exact ih isFirst h
          | some key =>
              obtain ⟨name, hbody⟩ := body_asciiPoints key
              rw [writeFields_cons_of_some write isFirst hk (writtenString_ascii ho key)] at h ⊢
              obtain ⟨-, -, hparts⟩ := Trace.result_bind_eq_ok.1 h
              obtain ⟨between, hv, hfs⟩ := Trace.result_bind_eq_ok.1 hparts
              obtain ⟨value, hvalue⟩ := hwrite v marks between hv
              obtain ⟨fs, hlog, hnamed, hvalues⟩ := ih false hfs
              rw [Trace.bind_ok, Trace.log_bind hv]
              refine ⟨⟨blankBefore isFirst, key.flatMap asciiPoint, name, [],
                ⟨[], (write v marks).log.flatten, value, []⟩⟩ :: fs, ?_, ?_, ?_⟩
              · simp only [List.flatten_append, hlog, asciiString_eq]
                cases isFirst with
                | true => simp [separator, leadFields, blankBefore, Field.padded, Item.padded, lit]
                | false => simp [separator, laterFields, blankBefore, Field.padded, Item.padded, lit]
              · exact List.forall_mem_cons.2
                  ⟨⟨gap_blankBefore isFirst, hbody, gap_nil _, gap_nil _, gap_nil _⟩, hnamed⟩
              · exact List.forall_mem_cons.2 ⟨hvalue, hvalues⟩

/-- Something between brackets or braces. -/
theorem writesValue_between {w : Writing Open} {left right : Text}
    (h : ∀ marks, w.result = .ok marks → ∃ v, Value .wire (left ++ (w.log.flatten ++ right)) v) :
    WritesValue (do
      Trace.say left
      let marks ← w
      Trace.say right
      return marks) := by
  intro after hafter
  obtain ⟨-, -, hinside⟩ := Trace.result_bind_eq_ok.1 hafter
  obtain ⟨marks, hmarks, -⟩ := Trace.result_bind_eq_ok.1 hinside
  obtain ⟨v, hv⟩ := h marks hmarks
  refine ⟨v, ?_⟩
  rw [Trace.say_eq, Trace.bind_ok, Trace.log_bind hmarks]
  simpa using hv

theorem writesValue_say {t : Text} (h : ∃ v, Value .wire t v) (marks : Open) :
    WritesValue (do
      Trace.say t
      return marks) := by
  intro after _
  simpa using h

/-- A foreign object is written as an object or a list, if at all. -/
theorem writesValue_writeForeign (ho : o.ascii = true) (name : Text)
    {again : Open → Writing Open} (h : ∀ marks, WritesValue (again marks)) (marks : Open) :
    WritesValue (writeForeign o name again marks) := by
  rw [writeForeign.eq_def]
  split
  · exact nofun
  · obtain ⟨n, hname⟩ := body_asciiPoints name
    obtain ⟨k, hkey⟩ := body_asciiPoints (lit "opaque")
    intro after _
    have hfield := @value_leadFields
      [⟨[], (lit "opaque").flatMap asciiPoint, k, [],
        ⟨[], Grammar.inQuotes (name.flatMap asciiPoint), .str n, []⟩⟩]
      (List.forall_mem_singleton.2 ⟨gap_nil _, hkey, gap_nil _, gap_nil _, gap_nil _⟩)
      (List.forall_mem_singleton.2 (.string hname))
    simp only [writtenString_ascii ho, asciiString_eq]
    simpa [leadFields, laterFields, Field.padded, Item.padded, lit] using hfield
  · refine writesValue_between fun after hafter => ?_
    obtain ⟨v, hv⟩ := h marks after hafter
    have hlist := @value_leadItems [⟨[], (again marks).log.flatten, v, []⟩]
      (List.forall_mem_singleton.2 ⟨gap_nil _, gap_nil _⟩) (List.forall_mem_singleton.2 hv)
    simpa [leadItems, laterItems, Item.padded, lit] using hlist

/-- What is written for a value of a store is a value. -/
theorem writesValue_writeValue (ho : o.ascii = true) (s : Store ρ) (fuel : Nat) :
    ∀ (v : ρ) (marks : Open), WritesValue (writeValue s o fuel v marks) := by
  induction fuel with
  | zero => exact fun v marks => nofun
  | succ fuel ih =>
      intro v marks
      rw [writeValue.eq_def]
      simp only
      -- foreign objects, other atoms, then lists and dictionaries, of each the empty one first
      split
      · exact writesValue_enclosed (writesValue_writeForeign ho _ (ih v)) marks
      · rename_i a _ _
        cases hwritten : writtenAtom o a with
        | error fault => exact nofun
        | ok t => exact writesValue_say (value_of_writtenAtom ho hwritten) marks
      · exact writesValue_say ⟨_, .emptyList (gap_nil _)⟩ marks
      · refine writesValue_enclosed (fun marks => writesValue_between fun after hafter => ?_) marks
        obtain ⟨is, hlog, hgaps, hvalues⟩ := items_of_writeItems ih _ true hafter
        rw [hlog]
        exact value_leadItems hgaps hvalues
      · exact writesValue_say ⟨_, .emptyObject (gap_nil _)⟩ marks
      · refine writesValue_enclosed (fun marks => writesValue_between fun after hafter => ?_) marks
        obtain ⟨fs, hlog, hnamed, hvalues⟩ := fields_of_writeFields ho ih _ true hafter
        rw [hlog]
        exact value_leadFields hnamed hvalues

end Containers

/-- What is written is a document. -/
theorem document_of_written {o : Options} (ho : o.ascii = true) {d : Datum} {doc : Text}
    (h : d.written o = .ok doc) : ∃ v, Document .wire doc v := by
  obtain ⟨marks, hmarks, rfl⟩ := except_map_eq_ok.1 h
  obtain ⟨v, hv⟩ := writesValue_writeValue ho Datum.store _ d [] marks hmarks
  exact ⟨v, [], _, [], gap_nil _, hv, gap_nil _, (List.append_nil _).symm⟩

end Wire

end ModuleStubs
