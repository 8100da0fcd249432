import ModuleStubs.Proofs.Completion
import ModuleStubs.Proofs.Grammar.Reading
import ModuleStubs.Proofs.Wire.RoundTrip

/-!
# The reader of the wire format accepts exactly its grammar

A document is read as a value if and only if the grammar derives it and the derivation denotes the
value (`parse_eq_ok_iff`). One direction follows the reader: each of its steps that succeeds takes a
piece of the text that a form of the grammar derives. The other direction is that of all readers which
follow the grammar (`reader_follows`): the first token that fits and the longest piece that fits are
the right ones, since a value is followed by nothing that could belong to it.
-/

set_option autoImplicit false

namespace ModuleStubs

open Grammar

namespace Wire

/-! ## Strings -/

/-- What is read as a string up to its closing quote is the inside of a string. -/
theorem body_of_stringBody {t s rest : Text} (h : stringBody t = .ok (s, rest)) :
    ∃ p, t = p ++ CodePoint.ofChar '"' :: rest ∧ Body .wire p s := by
  fun_induction stringBody t generalizing s rest with
  | case1 => simp at h
  | case2 t =>
      obtain ⟨rfl, rfl⟩ := Prod.mk.inj (Except.ok.inj h)
      exact ⟨[], rfl, .nil⟩
  | case3 => simp at h
  | case4 => simp at h
  | case5 r x y z w n hquad hquote ih =>
      obtain ⟨⟨s', rest'⟩, hread, heq⟩ := except_map_eq_ok.1 h
      obtain ⟨rfl, rfl⟩ := Prod.mk.inj heq
      obtain ⟨p, rfl, hp⟩ := ih hread
      obtain ⟨i, j, k, l, hx, hy, hz, hw, rfl⟩ := hexQuad?_eq_some.1 hquad
      exact ⟨_, rfl, .number hx hy hz hw rfl hp⟩
  | case6 => simp at h
  | case7 => simp at h
  | case8 r e hu p hletter hquote ih =>
      obtain ⟨⟨s', rest'⟩, hread, heq⟩ := except_map_eq_ok.1 h
      obtain ⟨rfl, rfl⟩ := Prod.mk.inj heq
      obtain ⟨q, rfl, hq⟩ := ih hread
      obtain ⟨l, n, hmem, rfl, rfl⟩ := mem_letters_of_shortEscape? hletter
      exact ⟨_, rfl, .letter hmem hq⟩
  | case9 c t hquote hslash ih =>
      obtain ⟨⟨s', rest'⟩, hread, heq⟩ := except_map_eq_ok.1 h
      obtain ⟨rfl, rfl⟩ := Prod.mk.inj heq
      obtain ⟨p, rfl, hp⟩ := ih hread
      exact ⟨_, rfl, .raw hquote hslash rfl hp⟩

/-- The inside of a string is read up to its closing quote. -/
theorem stringBody_of_body {p s : Text} (h : Body .wire p s) (rest : Text) :
    stringBody (p ++ CodePoint.ofChar '"' :: rest) = .ok (s, rest) := by
  induction h with
  | nil => exact stringBody_quote rest
  | raw hquote hslash _ _ ih =>
      rw [List.cons_append, stringBody_plain hquote hslash, ih]
      rfl
  | letter he _ ih =>
      obtain ⟨hu, hletter⟩ := shortEscape?_of_mem_letters he
      rw [List.cons_append, List.cons_append, stringBody_letter hu hletter, ih]
      rfl
  | number hx hy hz hw _ _ ih =>
      have hquad := hexQuad?_eq_some.2 ⟨_, _, _, _, hx, hy, hz, hw, rfl⟩
      simp only [List.cons_append]
      rw [stringBody_number hquad, ih]
      rfl

/-! ## What the reader does where it succeeds -/

section Steps

variable {fuel : Nat} {t rest : Text}

/-- A value that was read is a name, a number, a string, a list or an object. -/
theorem readValue_eq_ok {v : Json} (h : readValue (fuel + 1) t = .ok (some (v, rest))) :
    Json.named? t = some (v, rest) ∨ Json.numeral? t = some (v, rest) ∨
    (∃ r s, t = CodePoint.ofChar '"' :: r ∧ stringBody r = .ok (s, rest) ∧ v = .str s) ∨
    (∃ r vs, t = CodePoint.ofChar '[' :: r ∧ readList fuel r = .ok (vs, rest) ∧ v = .list vs) ∨
    (∃ r fs, t = CodePoint.ofChar '\x7b' :: r ∧ readObject fuel r = .ok (fs, rest) ∧
      v = .object fs) := by
  rw [readValue.eq_def] at h
  simp only at h
  split at h
  · rename_i hnamed
    obtain rfl := Option.some.inj (Except.ok.inj h)
    exact Or.inl hnamed
  split at h
  · rename_i hnumeral
    obtain rfl := Option.some.inj (Except.ok.inj h)
    exact Or.inr (Or.inl hnumeral)
  -- neither a name nor a number: the first code point decides
  cases t with
  | nil => simp at h
  | cons c r =>
      simp only at h
      refine Or.inr (Or.inr ?_)
      by_cases hquote : c = '"'
      · rw [if_pos hquote] at h
        obtain ⟨⟨s, rest'⟩, hread, heq⟩ := except_map_eq_ok.1 h
        obtain ⟨rfl, rfl⟩ := Prod.mk.inj (Option.some.inj heq)
        exact Or.inl ⟨r, s, hquote ▸ rfl, hread, rfl⟩
      rw [if_neg hquote] at h
      by_cases hbracket : c = '['
      · rw [if_pos hbracket] at h
        obtain ⟨⟨vs, rest'⟩, hread, heq⟩ := except_map_eq_ok.1 h
        obtain ⟨rfl, rfl⟩ := Prod.mk.inj (Option.some.inj heq)
        exact Or.inr (Or.inl ⟨r, vs, hbracket ▸ rfl, hread, rfl⟩)
      rw [if_neg hbracket] at h
      by_cases hbrace : c = '\x7b'
      · rw [if_pos hbrace] at h
        obtain ⟨⟨fs, rest'⟩, hread, heq⟩ := except_map_eq_ok.1 h
        obtain ⟨rfl, rfl⟩ := Prod.mk.inj (Option.some.inj heq)
        exact Or.inr (Or.inr ⟨r, fs, hbrace ▸ rfl, hread, rfl⟩)
      · rw [if_neg hbrace] at h
        simp at h

/-- A list that was read is empty, or its items were read. -/
theorem readList_eq_ok {vs : List Json} (h : readList (fuel + 1) t = .ok (vs, rest)) :
    (skipBlanks t = CodePoint.ofChar ']' :: rest ∧ vs = []) ∨
      readItems fuel (skipBlanks t) = .ok (vs, rest) := by
  rw [readList] at h
  split at h
  · contradiction
  · rename_i c r hskip
    by_cases hend : c = ']'
    · rw [if_pos hend] at h
      obtain ⟨rfl, rfl⟩ := Prod.mk.inj (Except.ok.inj h)
      exact Or.inl ⟨hend ▸ hskip, rfl⟩
    · rw [if_neg hend] at h
      exact Or.inr (hskip ▸ h)

/-- Items that were read are the last one, or one with a comma and further ones behind it. -/
theorem readItems_eq_ok {vs : List Json} (h : readItems (fuel + 1) t = .ok (vs, rest)) :
    ∃ v r, readValue fuel t = .ok (some (v, r)) ∧
      ((skipBlanks r = CodePoint.ofChar ']' :: rest ∧ vs = [v]) ∨
        ∃ u ws, skipBlanks r = CodePoint.ofChar ',' :: u ∧
          readItems fuel (skipBlanks u) = .ok (ws, rest) ∧ vs = v :: ws) := by
  rw [readItems] at h
  obtain ⟨read, hread, h⟩ := except_bind_eq_ok.1 h
  cases read with
  | none => contradiction
  | some found =>
      obtain ⟨v, r⟩ := found
      refine ⟨v, r, hread, ?_⟩
      simp only at h
      split at h
      · contradiction
      · rename_i c u hskip
        by_cases hend : c = ']'
        · rw [if_pos hend] at h
          obtain ⟨rfl, rfl⟩ := Prod.mk.inj (Except.ok.inj h)
          exact Or.inl ⟨hend ▸ hskip, rfl⟩
        rw [if_neg hend] at h
        by_cases hcomma : c = ','
        · rw [if_pos hcomma] at h
          obtain ⟨⟨ws, rest'⟩, hlater, heq⟩ := except_bind_eq_ok.1 h
          obtain ⟨rfl, rfl⟩ := Prod.mk.inj (Except.ok.inj heq)
          exact Or.inr ⟨u, ws, hcomma ▸ hskip, hlater, rfl⟩
        · rw [if_neg hcomma] at h
          contradiction

/-- An object that was read is empty, or its fields were read. -/
theorem readObject_eq_ok {fs : Record Json} (h : readObject (fuel + 1) t = .ok (fs, rest)) :
    (skipBlanks t = CodePoint.ofChar '\x7d' :: rest ∧ fs = []) ∨
      readFields fuel [] (skipBlanks t) = .ok (fs, rest) := by
  rw [readObject] at h
  split at h
  · contradiction
  · rename_i c r hskip
    by_cases hend : c = '\x7d'
    · rw [if_pos hend] at h
      obtain ⟨rfl, rfl⟩ := Prod.mk.inj (Except.ok.inj h)
      exact Or.inl ⟨hend ▸ hskip, rfl⟩
    · rw [if_neg hend] at h
      exact Or.inr (hskip ▸ h)

/-- Fields that were read are the last one, or one with a comma and further ones behind it; each one is
a name, a colon and a value. -/
theorem readFields_eq_ok {fields all : Record Json}
    (h : readFields (fuel + 1) fields t = .ok (all, rest)) :
    ∃ b name r u v r', t = CodePoint.ofChar '"' :: b ∧ stringBody b = .ok (name, r) ∧
      skipBlanks r = CodePoint.ofChar ':' :: u ∧
      readValue fuel (skipBlanks u) = .ok (some (v, r')) ∧
      ((skipBlanks r' = CodePoint.ofChar '\x7d' :: rest ∧ all = Record.set name v fields) ∨
        ∃ w, skipBlanks r' = CodePoint.ofChar ',' :: w ∧
          readFields fuel (Record.set name v fields) (skipBlanks w) = .ok (all, rest)) := by
  rw [readFields.eq_def] at h
  simp only at h
  cases t with
  | nil => contradiction
  | cons c b =>
      by_cases hquote : c = '"'
      swap
      · simp [hquote] at h
      subst hquote
      simp only [ne_eq, not_true_eq_false, if_false] at h
      obtain ⟨⟨name, r⟩, hname, h⟩ := except_bind_eq_ok.1 h
      simp only at h
      split at h
      · contradiction
      · rename_i d u hskip
        by_cases hcolon : d = ':'
        swap
        · simp [hcolon] at h
        subst hcolon
        simp only [not_true_eq_false, if_false] at h
        obtain ⟨read, hread, h⟩ := except_bind_eq_ok.1 h
        cases read with
        | none => contradiction
        | some found =>
            obtain ⟨v, r'⟩ := found
            refine ⟨b, name, r, u, v, r', rfl, hname, hskip, hread, ?_⟩
            simp only at h
            split at h
            · contradiction
            · rename_i e w hskip'
              by_cases hend : e = '\x7d'
              · rw [if_pos hend] at h
                obtain ⟨rfl, rfl⟩ := Prod.mk.inj (Except.ok.inj h)
                exact Or.inl ⟨hend ▸ hskip', rfl⟩
              rw [if_neg hend] at h
              by_cases hcomma : e = ','
              · rw [if_pos hcomma] at h
                exact Or.inr ⟨w, hcomma ▸ hskip', h⟩
              · rw [if_neg hcomma] at h
                contradiction

end Steps

/-! ## What is read is derived -/

theorem exists_blanks (t : Text) : ∃ g, Gap .wire g ∧ t = g ++ skipBlanks t := exists_gap .wire t

mutual

/-- A value that was read is one of the grammar, and the value read is the one denoted. -/
theorem value_of_readValue :
    ∀ {fuel : Nat} {t rest : Text} {v : Json}, readValue fuel t = .ok (some (v, rest)) →
      ∃ p, t = p ++ rest ∧ Value .wire p v
  | 0, _, _, _, h => by simp [readValue] at h
  | fuel + 1, t, rest, v, h => by
      rcases readValue_eq_ok h with hname | hnumeral | ⟨r, s, rfl, hread, rfl⟩ |
        ⟨r, vs, rfl, hread, rfl⟩ | ⟨r, fs, rfl, hread, rfl⟩
      · obtain ⟨p, rfl, hp⟩ := name_of_named? hname
        exact ⟨p, rfl, .name hp⟩
      · obtain ⟨p, rfl, hp⟩ := numeral_of_numeral? hnumeral
        exact ⟨p, rfl, .numeral hp⟩
      · obtain ⟨p, rfl, hp⟩ := body_of_stringBody hread
        exact ⟨inQuotes p, (inQuotes_append p rest).symm, .string hp⟩
      · obtain ⟨p, rfl, hp⟩ := value_of_readList hread
        exact ⟨_, rfl, hp⟩
      · obtain ⟨p, rfl, hp⟩ := value_of_readObject hread
        exact ⟨_, rfl, hp⟩

theorem value_of_readList :
    ∀ {fuel : Nat} {t rest : Text} {vs : List Json}, readList fuel t = .ok (vs, rest) →
      ∃ p, t = p ++ rest ∧ Value .wire (CodePoint.ofChar '[' :: p) (.list vs)
  | 0, _, _, _, h => by simp [readList] at h
  | fuel + 1, t, rest, vs, h => by
      obtain ⟨g, hg, ht⟩ := exists_blanks t
      rcases readList_eq_ok h with ⟨hend, rfl⟩ | hread
      · rw [hend] at ht
        exact ⟨g ++ [CodePoint.ofChar ']'], by simp [ht], .emptyList hg⟩
      · obtain ⟨i, is, hbefore, hgaps, hvalues, rfl, htext⟩ := items_of_readItems hread
        -- the blanks behind the bracket are those before the first item
        have hgaps' : ∀ j ∈ { i with before := g } :: is, j.HasGaps .wire := by
          refine List.forall_mem_cons.2 ⟨⟨hg, (hgaps i List.mem_cons_self).2⟩, fun j hj => ?_⟩
          exact hgaps j (List.mem_cons_of_mem _ hj)
        have hvalues' : ∀ j ∈ { i with before := g } :: is, Value .wire j.text j.value := by
          refine List.forall_mem_cons.2 ⟨hvalues i List.mem_cons_self, fun j hj => ?_⟩
          exact hvalues j (List.mem_cons_of_mem _ hj)
        refine ⟨_, ?_, .list (i := { i with before := g }) hgaps' hvalues'⟩
        rw [htext] at ht
        simp [ht, Item.padded, hbefore]

/-- Items that were read are values with blanks around them and commas between them. There is nothing
before the first one. -/
theorem items_of_readItems :
    ∀ {fuel : Nat} {t rest : Text} {vs : List Json}, readItems fuel t = .ok (vs, rest) →
      ∃ i is, i.before = [] ∧ (∀ j ∈ i :: is, j.HasGaps .wire) ∧
        (∀ j ∈ i :: is, Value .wire j.text j.value) ∧ vs = (i :: is).map Item.value ∧
        t = i.padded ++ (laterItems is ++ CodePoint.ofChar ']' :: rest)
  | 0, _, _, _, h => by simp [readItems] at h
  | fuel + 1, t, rest, vs, h => by
      obtain ⟨v, r, hvalue, hnext⟩ := readItems_eq_ok h
      obtain ⟨p, rfl, hp⟩ := value_of_readValue hvalue
      obtain ⟨g, hg, hr⟩ := exists_blanks r
      rcases hnext with ⟨hend, rfl⟩ | ⟨u, ws, hcomma, hlater, rfl⟩
      · refine ⟨⟨[], p, v, g⟩, [], rfl, ?_, ?_, rfl, ?_⟩
        · exact List.forall_mem_singleton.2 ⟨nofun, hg⟩
        · exact List.forall_mem_singleton.2 hp
        · rw [hr, hend]
          simp [Item.padded, laterItems]
      · obtain ⟨i, is, hbefore, hgaps, hvalues, rfl, htext⟩ := items_of_readItems hlater
        obtain ⟨g', hg', hu⟩ := exists_blanks u
        -- the blanks behind the comma are those before the next item
        refine ⟨⟨[], p, v, g⟩, { i with before := g' } :: is, rfl, ?_, ?_, rfl, ?_⟩
        · refine List.forall_mem_cons.2 ⟨⟨nofun, hg⟩, List.forall_mem_cons.2 ⟨⟨hg', ?_⟩, ?_⟩⟩
          · exact (hgaps i List.mem_cons_self).2
          · exact fun j hj => hgaps j (List.mem_cons_of_mem _ hj)
        · refine List.forall_mem_cons.2 ⟨hp, List.forall_mem_cons.2 ⟨?_, ?_⟩⟩
          · exact hvalues i List.mem_cons_self
          · exact fun j hj => hvalues j (List.mem_cons_of_mem _ hj)
        · rw [hr, hcomma, hu, htext, laterItems_cons]
          simp [Item.padded, hbefore]

theorem value_of_readObject :
    ∀ {fuel : Nat} {t rest : Text} {fs : Record Json}, readObject fuel t = .ok (fs, rest) →
      ∃ p, t = p ++ rest ∧ Value .wire (CodePoint.ofChar '\x7b' :: p) (.object fs)
  | 0, _, _, _, h => by simp [readObject] at h
  | fuel + 1, t, rest, fs, h => by
      obtain ⟨g, hg, ht⟩ := exists_blanks t
      rcases readObject_eq_ok h with ⟨hend, rfl⟩ | hread
      · rw [hend] at ht
        exact ⟨g ++ [CodePoint.ofChar '\x7d'], by simp [ht], .emptyObject hg⟩
      · obtain ⟨f, gs, hbefore, hnamed, hvalues, rfl, htext⟩ := fields_of_readFields hread
        have hnamed' : ∀ e ∈ { f with before := g } :: gs, e.IsNamed .wire := by
          refine List.forall_mem_cons.2 ⟨⟨hg, (hnamed f List.mem_cons_self).2⟩, fun e he => ?_⟩
          exact hnamed e (List.mem_cons_of_mem _ he)
        have hvalues' : ∀ e ∈ { f with before := g } :: gs, Value .wire e.item.text e.item.value := by
          refine List.forall_mem_cons.2 ⟨hvalues f List.mem_cons_self, fun e he => ?_⟩
          exact hvalues e (List.mem_cons_of_mem _ he)
        have hobject := Value.object (f := { f with before := g }) hnamed' hvalues'
        rw [← Record.ofList_eq_lastValues] at hobject
        refine ⟨_, ?_, hobject⟩
        rw [htext] at ht
        simp [ht, Field.padded, hbefore]

/-- Fields that were read have names, values with blanks around them, and commas between them. There is
nothing before the first one. -/
theorem fields_of_readFields :
    ∀ {fuel : Nat} {t rest : Text} {fields all : Record Json},
      readFields fuel fields t = .ok (all, rest) →
      ∃ f gs, f.before = [] ∧ (∀ e ∈ f :: gs, e.IsNamed .wire) ∧
        (∀ e ∈ f :: gs, Value .wire e.item.text e.item.value) ∧
        all = ((f :: gs).map Field.entry).foldl (fun r (k, v) => Record.set k v r) fields ∧
        t = f.padded ++ (laterFields gs ++ CodePoint.ofChar '\x7d' :: rest)
  | 0, _, _, _, _, h => by simp [readFields] at h
  | fuel + 1, t, rest, fields, all, h => by
      obtain ⟨b, name, r, u, v, r', rfl, hname, hcolon, hvalue, hnext⟩ := readFields_eq_ok h
      obtain ⟨body, rfl, hbody⟩ := body_of_stringBody hname
      obtain ⟨g, hg, hr⟩ := exists_blanks r
      obtain ⟨g', hg', hu⟩ := exists_blanks u
      obtain ⟨p, hp, hpvalue⟩ := value_of_readValue hvalue
      obtain ⟨g'', hg'', hr'⟩ := exists_blanks r'
      have hfirst : (⟨[], body, name, g, ⟨g', p, v, g''⟩⟩ : Field).IsNamed .wire :=
        ⟨nofun, hbody, hg, hg', hg''⟩
      rcases hnext with ⟨hend, rfl⟩ | ⟨w, hcomma, hlater⟩
      · refine ⟨⟨[], body, name, g, ⟨g', p, v, g''⟩⟩, [], rfl, ?_, ?_, rfl, ?_⟩
        · exact List.forall_mem_singleton.2 hfirst
        · exact List.forall_mem_singleton.2 hpvalue
        · rw [hr, hcolon, hu, hp, hr', hend]
          simp [Field.padded, Item.padded, laterFields, Grammar.inQuotes]
      · obtain ⟨f, gs, hbefore, hnamed, hvalues, rfl, htext⟩ := fields_of_readFields hlater
        obtain ⟨g₃, hg₃, hw⟩ := exists_blanks w
        refine ⟨⟨[], body, name, g, ⟨g', p, v, g''⟩⟩, { f with before := g₃ } :: gs, rfl, ?_, ?_, rfl,
          ?_⟩
        · refine List.forall_mem_cons.2 ⟨hfirst, List.forall_mem_cons.2 ⟨⟨hg₃, ?_⟩, ?_⟩⟩
          · exact (hnamed f List.mem_cons_self).2
          · exact fun e he => hnamed e (List.mem_cons_of_mem _ he)
        · refine List.forall_mem_cons.2 ⟨hpvalue, List.forall_mem_cons.2 ⟨?_, ?_⟩⟩
          · exact hvalues f List.mem_cons_self
          · exact fun e he => hvalues e (List.mem_cons_of_mem _ he)
        · rw [hr, hcolon, hu, hp, hr', hcomma, hw, htext, laterFields_cons]
          simp [Field.padded, Item.padded, Grammar.inQuotes, hbefore]

end

/-! ## What is derived is read -/

/-- The reader of the wire format, by the results that it gives. -/
def reader : Reader where
  value fuel t v rest := readValue fuel t = .ok (some (v, rest))
  items fuel t vs rest := readItems fuel t = .ok (vs, rest)
  fields fields fuel t all rest := readFields fuel fields t = .ok (all, rest)

theorem skipBlanks_gap {g : Text} {c : CodePoint} (hg : Gap .wire g) (hc : isSpace c = false)
    (r : Text) : skipBlanks (g ++ c :: r) = c :: r :=
  dropWhile_gap (D := .wire) hg hc r

theorem skipBlanks_solid {g t : Text} (ht : Solid .wire t) (hg : Gap .wire g) :
    skipBlanks (g ++ t) = t :=
  ht.dropWhile_gap hg

/-- Behind a value in a list its end or a comma is looked for. -/
theorem readItems_of_value {fuel : Nat} {t r : Text} {v : Json}
    (h : readValue fuel t = .ok (some (v, r))) :
    readItems (fuel + 1) t =
      match skipBlanks r with
      | [] => .error ⟨.itemComma, 0⟩
      | c :: u =>
        if c = ']' then .ok ([v], u)
        else if c = ',' then (readItems fuel (skipBlanks u)).map fun (vs, rest) => (v :: vs, rest)
        else .error ⟨.itemComma, u.length + 1⟩ := by
  rw [readItems, h]
  rfl

/-- Behind a field of an object its end or a comma is looked for. -/
theorem readFields_of_value {fuel : Nat} {fields : Record Json} {body name g g' t r : Text} {v : Json}
    (hbody : Body .wire body name) (hg : Gap .wire g) (hg' : Gap .wire g') (ht : Solid .wire t)
    (h : readValue fuel t = .ok (some (v, r))) :
    readFields (fuel + 1) fields
        (Grammar.inQuotes body ++ (g ++ CodePoint.ofChar ':' :: (g' ++ t))) =
      match skipBlanks r with
      | [] => .error ⟨.fieldComma, 0⟩
      | c :: u =>
        if c = '\x7d' then .ok (Record.set name v fields, u)
        else if c = ',' then readFields fuel (Record.set name v fields) (skipBlanks u)
        else .error ⟨.fieldComma, u.length + 1⟩ := by
  have hcolon : isSpace ':' = false := by decide
  rw [inQuotes_append, readFields.eq_def]
  -- both sides look at what follows the value
  cases hr : skipBlanks r <;>
    simp only [ne_eq, not_true_eq_false, if_false, stringBody_of_body hbody, bind, Except.bind,
      skipBlanks_gap hg hcolon, skipBlanks_solid ht hg', h, hr]

/-- The reader follows the grammar. -/
theorem reader_follows : reader.Follows .wire where
  name rest h := by
    intro fuel hfuel
    obtain ⟨f, rfl⟩ := Nat.exists_eq_add_of_le' hfuel
    exact readValue_named (named?_of_name h rest) f
  numeral h hrest := by
    intro fuel hfuel
    obtain ⟨f, rfl⟩ := Nat.exists_eq_add_of_le' hfuel
    exact readValue_numeral (named?_of_numeral h _) (numeral?_of_numeral h hrest) f
  string rest h := by
    intro fuel hfuel
    obtain ⟨f, rfl⟩ := Nat.exists_eq_add_of_le' hfuel
    change readValue (f + 1) _ = _
    rw [inQuotes_append, readValue_quote, stringBody_of_body h]
    rfl
  emptyList rest hg := by
    intro fuel hfuel
    obtain ⟨f, rfl⟩ := Nat.exists_eq_add_of_le' hfuel
    change readValue (f + 1 + 1) _ = _
    rw [readValue_bracket, readList, skipBlanks_gap hg (by decide)]
    rfl
  list hg ht h := by
    intro fuel hfuel
    obtain ⟨f, rfl⟩ := Nat.exists_eq_add_of_le' hfuel
    have hitems := h _ (Nat.le_add_left _ f)
    change readValue (f + _ + 1 + 1) _ = _
    rw [readValue_bracket, readList, skipBlanks_solid ht hg]
    obtain ⟨c, r, rfl, -, hend, -⟩ := ht
    simp only [if_neg hend]
    rw [show readItems _ _ = _ from hitems]
    rfl
  lastItem hg h := by
    intro fuel hfuel
    obtain ⟨f, rfl⟩ := Nat.exists_eq_add_of_le' hfuel
    have hvalue := h _ (Nat.le_add_left _ f)
    change readItems (f + _ + 1) _ = _
    rw [readItems_of_value hvalue, skipBlanks_gap hg (by decide)]
    rfl
  nextItem hg hg' hu h hlater := by
    intro fuel hfuel
    obtain ⟨f, rfl⟩ := Nat.exists_eq_add_of_le' hfuel
    have hvalue := h _ (Nat.le_add_left _ f)
    have hitems := hlater _ (Nat.le_add_left _ f)
    change readItems (f + _ + 1) _ = _
    rw [readItems_of_value hvalue, skipBlanks_gap hg (by decide)]
    change (readItems _ (skipBlanks _)).map _ = _
    rw [skipBlanks_solid hu hg', show readItems _ _ = _ from hitems]
    rfl
  emptyObject rest hg := by
    intro fuel hfuel
    obtain ⟨f, rfl⟩ := Nat.exists_eq_add_of_le' hfuel
    change readValue (f + 1 + 1) _ = _
    rw [readValue_brace, readObject, skipBlanks_gap hg (by decide)]
    rfl
  object hg h := by
    intro fuel hfuel
    obtain ⟨f, rfl⟩ := Nat.exists_eq_add_of_le' hfuel
    have hfields := h _ (Nat.le_add_left _ f)
    change readValue (f + _ + 1 + 1) _ = _
    rw [readValue_brace, readObject, skipBlanks_gap hg (by decide)]
    change (readFields _ [] _).map _ = _
    rw [show readFields _ _ _ = _ from hfields]
    rfl
  lastField hbody hg hg' ht hg'' h := by
    intro fuel hfuel
    obtain ⟨f, rfl⟩ := Nat.exists_eq_add_of_le' hfuel
    have hvalue := h _ (Nat.le_add_left _ f)
    change readFields (f + _ + 1) _ _ = _
    rw [readFields_of_value hbody hg hg' ht hvalue, skipBlanks_gap hg'' (by decide)]
    rfl
  nextField hbody hg hg' ht hg'' hg₃ h hlater := by
    intro fuel hfuel
    obtain ⟨f, rfl⟩ := Nat.exists_eq_add_of_le' hfuel
    have hvalue := h _ (Nat.le_add_left _ f)
    have hfields := hlater _ (Nat.le_add_left _ f)
    change readFields (f + _ + 1) _ _ = _
    rw [readFields_of_value hbody hg hg' ht hvalue, skipBlanks_gap hg'' (by decide)]
    change readFields _ _ (skipBlanks _) = _
    rw [skipBlanks_gap hg₃ (by decide)]
    exact hfields

/-! ## Documents -/

theorem parse_of_document {doc : Text} {v : Json} (h : Document .wire doc v) : parse doc = .ok v := by
  obtain ⟨before, text, after, hbefore, hvalue, hafter, rfl⟩ := h
  have hread : readValue (fuelFor (text ++ after)) (text ++ after) = .ok (some (v, after)) := by
    have hends := endsNumeral_gap hafter (t := []) rfl
    rw [List.append_nil] at hends
    refine hvalue.reads reader_follows after hends _ ?_
    rw [fuelFor, List.length_append]
    omega
  have hskip : skipBlanks after = [] := dropWhile_gap_nil (D := .wire) hafter
  rw [parse_eq, skipBlanks_solid (hvalue.solid after) hbefore]
  simp only [hread, whole, hskip]

/-- A text that is a value is read as that value. -/
theorem parse_of_value {t : Text} {v : Json} (h : Value .wire t v) : parse t = .ok v :=
  parse_of_document ⟨[], t, [], gap_nil _, h, gap_nil _, (List.append_nil t).symm⟩

end Wire

end ModuleStubs
