import ModuleStubs.Proofs.Wire.Grammar

/-!
# Where faults come from

The reader goes through a text from place to place: from a value to its first item or field, from an item
to its value or past it to the next item, and the same with fields. `Grammar.Step` says which places of a
text follow each other, in terms of the grammar only, and `Grammar.Leads` is a run of such steps. A fault of
the reader is one of the place where it stands, or that of a place one step on (`passes_of_stopsAt`);
so each fault arises at a place that the text leads to (`exists_origin`). And back: a fault at a place is
the fault at every place that leads there (`fails_of_leads`), since all that stands before it is read.
-/

set_option autoImplicit false

namespace ModuleStubs

namespace Grammar

/-! ## Places -/

/-- Where a text starts: at a value, at an item of a list, or at a field of an object. -/
inductive Place where
  | value
  | item
  | field

/-- From a place of a text to the next one: into a value, or past an item or a field to the one behind the
comma. -/
inductive Step (D : Dialect) : Place → Text → Place → Text → Prop
  | list {g t : Text} (hg : Gap D g) : Step D .value (CodePoint.ofChar '[' :: (g ++ t)) .item t
  | object {g t : Text} (hg : Gap D g) : Step D .value (CodePoint.ofChar '\x7b' :: (g ++ t)) .field t
  | item {t : Text} : Step D .item t .value t
  | laterItem {p g g' t : Text} {v : Json} (hp : Value D p v) (hg : Gap D g) (hg' : Gap D g') :
      Step D .item (p ++ (g ++ CodePoint.ofChar ',' :: (g' ++ t))) .item t
  | field {body name g g' t : Text} (hbody : Body D body name) (hg : Gap D g) (hg' : Gap D g') :
      Step D .field (inQuotes body ++ (g ++ CodePoint.ofChar ':' :: (g' ++ t))) .value t
  | laterField {body name g₁ g₂ p g₃ g₄ t : Text} {v : Json} (hbody : Body D body name)
      (hg₁ : Gap D g₁) (hg₂ : Gap D g₂) (hp : Value D p v) (hg₃ : Gap D g₃) (hg₄ : Gap D g₄) :
      Step D .field (inQuotes body ++ (g₁ ++ CodePoint.ofChar ':' :: (g₂ ++ (p ++
        (g₃ ++ CodePoint.ofChar ',' :: (g₄ ++ t)))))) .field t

/-- Any number of steps. -/
inductive Leads (D : Dialect) : Place → Text → Place → Text → Prop
  | refl {a : Place} {t : Text} : Leads D a t a t
  | head {a b c : Place} {t u w : Text} (h : Step D a t b u) (hlater : Leads D b u c w) :
      Leads D a t c w

variable {D : Dialect} {a b : Place} {t u : Text}

/-- A step leaves an end of the text. -/
theorem Step.suffix (h : Step D a t b u) : u <:+ t := by
  cases h with
  | @list g hg => exact ⟨CodePoint.ofChar '[' :: g, rfl⟩
  | @object g hg => exact ⟨CodePoint.ofChar '\x7b' :: g, rfl⟩
  | item => exact List.suffix_refl t
  | @laterItem p g g' _ v hp hg hg' => exact ⟨p ++ (g ++ CodePoint.ofChar ',' :: g'), by simp⟩
  | @field body name g g' _ hbody hg hg' =>
      exact ⟨inQuotes body ++ (g ++ CodePoint.ofChar ':' :: g'), by simp⟩
  | @laterField body name g₁ g₂ p g₃ g₄ _ v hbody hg₁ hg₂ hp hg₃ hg₄ =>
      exact ⟨inQuotes body ++ (g₁ ++ CodePoint.ofChar ':' :: (g₂ ++ (p ++
        (g₃ ++ CodePoint.ofChar ',' :: g₄)))), by simp⟩

theorem Leads.suffix (h : Leads D a t b u) : u <:+ t := by
  induction h with
  | refl => exact List.suffix_refl _
  | head h _ ih => exact ih.trans h.suffix

/-! ## What can stand at a place -/

end Grammar

namespace Wire

open Grammar

/-! ## Marks between gaps -/

/-- A mark behind blanks stands between two gaps. -/
theorem exists_gaps {r w : Text} {c : CodePoint} (h : skipBlanks r = c :: w) :
    ∃ g g', Gap .wire g ∧ Gap .wire g' ∧ r = g ++ c :: (g' ++ skipBlanks w) := by
  obtain ⟨g, hg, hr⟩ := exists_blanks r
  obtain ⟨g', hg', hw⟩ := exists_blanks w
  refine ⟨g, g', hg, hg', ?_⟩
  rw [← hw, ← h, ← hr]

/-- A name and a colon, as the grammar has them. -/
theorem exists_name {b name r u : Text} (hname : stringBody b = .ok (name, r))
    (hcolon : skipBlanks r = CodePoint.ofChar ':' :: u) :
    ∃ body g g', Body .wire body name ∧ Gap .wire g ∧ Gap .wire g' ∧
      CodePoint.ofChar '"' :: b =
        Grammar.inQuotes body ++ (g ++ CodePoint.ofChar ':' :: (g' ++ skipBlanks u)) := by
  obtain ⟨body, rfl, hbody⟩ := body_of_stringBody hname
  obtain ⟨g, g', hg, hg', hr⟩ := exists_gaps hcolon
  refine ⟨body, g, g', hbody, hg, hg', ?_⟩
  rw [inQuotes_append, ← hr]

/-! ## Faults and their origins -/

/-- A string lacks its closing quote or an escape, at a place inside it. -/
theorem stringBody_eq_error {t : Text} {s : Stop} (h : stringBody t = .error s) :
    (s.cause = .closingQuote ∨ s.cause = .escape) ∧ s.left ≤ t.length := by
  fun_induction stringBody t with
  | case1 =>
      obtain rfl := Except.error.inj h
      exact ⟨Or.inl rfl, Nat.le_refl 0⟩
  | case2 => contradiction
  | case3 =>
      obtain rfl := Except.error.inj h
      exact ⟨Or.inr rfl, Nat.zero_le _⟩
  | case4 =>
      obtain rfl := Except.error.inj h
      exact ⟨Or.inr rfl, Nat.le_succ _⟩
  | case5 _ _ _ _ _ _ _ _ ih =>
      obtain ⟨hcause, hleft⟩ := ih (except_map_eq_error.1 h)
      refine ⟨hcause, ?_⟩
      simp only [List.length_cons]
      omega
  | case6 =>
      obtain rfl := Except.error.inj h
      exact ⟨Or.inr rfl, Nat.le_succ _⟩
  | case7 =>
      obtain rfl := Except.error.inj h
      exact ⟨Or.inr rfl, Nat.le_succ _⟩
  | case8 _ _ _ _ _ _ ih =>
      obtain ⟨hcause, hleft⟩ := ih (except_map_eq_error.1 h)
      refine ⟨hcause, ?_⟩
      simp only [List.length_cons]
      omega
  | case9 _ _ _ _ ih =>
      obtain ⟨hcause, hleft⟩ := ih (except_map_eq_error.1 h)
      exact ⟨hcause, Nat.le_succ_of_le hleft⟩

/-- The reader stops with the fault at the place. The fields before those of the place do not matter. -/
def StopsAt (fuel : Nat) : Place → Text → Stop → Prop
  | .value, t, s => readValue fuel t = .error s
  | .item, t, s => readItems fuel t = .error s
  | .field, t, s => ∃ fields, readFields fuel fields t = .error s

/-- The fault is one of the place itself, and not of a place one step on. Of what is missing at a place only
the place is recorded. -/
inductive Arises : Place → Text → Stop → Prop
  | string {r : Text} {s : Stop} (h : stringBody r = .error s) :
      Arises .value (CodePoint.ofChar '"' :: r) s
  | missingItem (t : Text) : Arises .item t ⟨.value, t.length⟩
  | itemComma {fuel : Nat} {t r : Text} {v : Json} (hread : readValue fuel t = .ok (some (v, r)))
      (hnext : ∀ c ∈ (skipBlanks r).head?, c ≠ ',' ∧ c ≠ ']') :
      Arises .item t ⟨.itemComma, (skipBlanks r).length⟩
  | missingName (t : Text) : Arises .field t ⟨.propertyName, t.length⟩
  | name {b : Text} {s : Stop} (h : stringBody b = .error s) :
      Arises .field (CodePoint.ofChar '"' :: b) s
  | colon {b name r : Text} (hname : stringBody b = .ok (name, r)) :
      Arises .field (CodePoint.ofChar '"' :: b) ⟨.colon, (skipBlanks r).length⟩
  | missingValue {b name r u : Text} (hname : stringBody b = .ok (name, r))
      (hcolon : skipBlanks r = CodePoint.ofChar ':' :: u) :
      Arises .field (CodePoint.ofChar '"' :: b) ⟨.value, (skipBlanks u).length⟩
  | fieldComma {fuel : Nat} {b name r u r' : Text} {v : Json} (hname : stringBody b = .ok (name, r))
      (hcolon : skipBlanks r = CodePoint.ofChar ':' :: u)
      (hread : readValue fuel (skipBlanks u) = .ok (some (v, r')))
      (hnext : ∀ c ∈ (skipBlanks r').head?, c ≠ ',' ∧ c ≠ '\x7d') :
      Arises .field (CodePoint.ofChar '"' :: b) ⟨.fieldComma, (skipBlanks r').length⟩

/-- The fault of a place arises there, or it is the fault of a place one step on, with less fuel. -/
def Passes (fuel : Nat) (a : Place) (t : Text) (s : Stop) : Prop :=
  Arises a t s ∨ ∃ f b u, f < fuel ∧ Step .wire a t b u ∧ StopsAt f b u s

section Steps

variable {fuel : Nat} {t : Text} {s : Stop}

theorem passes_of_readItems (h : readItems (fuel + 1) t = .error s) : Passes (fuel + 1) .item t s := by
  rw [readItems] at h
  rcases except_bind_eq_error.1 h with hread | ⟨read, hread, h⟩
  · exact Or.inr ⟨fuel, .value, t, Nat.lt_succ_self fuel, .item, hread⟩
  cases read with
  | none =>
      obtain rfl := Except.error.inj h
      exact Or.inl (.missingItem t)
  | some found =>
      obtain ⟨v, r⟩ := found
      simp only at h
      split at h
      · rename_i hskip
        obtain rfl := Except.error.inj h
        have hcomma := Arises.itemComma hread (by simp [hskip])
        rw [hskip] at hcomma
        exact Or.inl hcomma
      rename_i c w hskip
      by_cases hend : c = ']'
      · rw [if_pos hend] at h
        contradiction
      rw [if_neg hend] at h
      by_cases hcomma : c = ','
      · -- the item is complete, and the fault is in one behind it
        rw [if_pos hcomma] at h
        subst hcomma
        rcases except_bind_eq_error.1 h with hlater | ⟨later, -, hlater⟩
        swap
        · contradiction
        obtain ⟨p, rfl, hp⟩ := value_of_readValue hread
        obtain ⟨g, g', hg, hg', htext⟩ := exists_gaps hskip
        refine Or.inr ⟨fuel, .item, skipBlanks w, Nat.lt_succ_self fuel, ?_, hlater⟩
        rw [htext]
        exact .laterItem hp hg hg'
      · rw [if_neg hcomma] at h
        obtain rfl := Except.error.inj h
        have hmissing := Arises.itemComma hread (by simp [hskip, hcomma, hend])
        rw [hskip] at hmissing
        exact Or.inl hmissing

/-- The fault behind the value of a field is a missing comma, or that of a later field. -/
theorem passes_of_readFields_behind {fields : Record Json} {b name r u r' : Text} {v : Json}
    (hname : stringBody b = .ok (name, r)) (hcolon : skipBlanks r = CodePoint.ofChar ':' :: u)
    (hread : readValue fuel (skipBlanks u) = .ok (some (v, r')))
    (h : readFields (fuel + 1) fields (CodePoint.ofChar '"' :: b) = .error s) :
    Passes (fuel + 1) .field (CodePoint.ofChar '"' :: b) s := by
  obtain ⟨body, g, g', hbody, hg, hg', htext⟩ := exists_name hname hcolon
  obtain ⟨p, hp, hvalue⟩ := value_of_readValue hread
  have hmissing := Arises.fieldComma hname hcolon hread
  have hsolid : Solid .wire (skipBlanks u) := hp ▸ hvalue.solid r'
  rw [htext, readFields_of_value hbody hg hg' hsolid hread] at h
  split at h
  · rename_i hskip
    obtain rfl := Except.error.inj h
    rw [hskip] at hmissing
    exact Or.inl (hmissing (by simp))
  rename_i c w hskip
  by_cases hend : c = '\x7d'
  · rw [if_pos hend] at h
    contradiction
  rw [if_neg hend] at h
  by_cases hcomma : c = ','
  · rw [if_pos hcomma] at h
    subst hcomma
    obtain ⟨g₃, g₄, hg₃, hg₄, hr'⟩ := exists_gaps hskip
    refine Or.inr ⟨fuel, .field, skipBlanks w, Nat.lt_succ_self fuel, ?_, _, h⟩
    rw [htext, hp, hr']
    exact .laterField hbody hg hg' hvalue hg₃ hg₄
  · rw [if_neg hcomma] at h
    obtain rfl := Except.error.inj h
    rw [hskip] at hmissing
    exact Or.inl (hmissing (by simp [hcomma, hend]))

theorem passes_of_readFields {fields : Record Json} (h : readFields (fuel + 1) fields t = .error s) :
    Passes (fuel + 1) .field t s := by
  have hread := h
  rw [readFields.eq_def] at hread
  simp only at hread
  cases t with
  | nil =>
      obtain rfl := Except.error.inj hread
      exact Or.inl (.missingName [])
  | cons c b =>
      by_cases hquote : c = '"'
      swap
      · simp only [ne_eq, hquote, not_false_eq_true, if_true] at hread
        obtain rfl := Except.error.inj hread
        exact Or.inl (.missingName (c :: b))
      subst hquote
      simp only [ne_eq, not_true_eq_false, if_false] at hread
      rcases except_bind_eq_error.1 hread with hname | ⟨⟨name, r⟩, hname, hbehind⟩
      · exact Or.inl (.name hname)
      simp only at hbehind
      split at hbehind
      · rename_i hskip
        obtain rfl := Except.error.inj hbehind
        have hmissing := Arises.colon hname
        rw [hskip] at hmissing
        exact Or.inl hmissing
      rename_i d u hskip
      by_cases hcolon : d = ':'
      swap
      · simp only [hcolon, not_false_eq_true, if_true] at hbehind
        obtain rfl := Except.error.inj hbehind
        have hmissing := Arises.colon hname
        rw [hskip] at hmissing
        exact Or.inl hmissing
      subst hcolon
      simp only [not_true_eq_false, if_false] at hbehind
      rcases except_bind_eq_error.1 hbehind with hvalue | ⟨read, hvalue, hlater⟩
      · obtain ⟨body, g, g', hbody, hg, hg', htext⟩ := exists_name hname hskip
        refine Or.inr ⟨fuel, .value, skipBlanks u, Nat.lt_succ_self fuel, ?_, hvalue⟩
        rw [htext]
        exact .field hbody hg hg'
      cases read with
      | none =>
          obtain rfl := Except.error.inj hlater
          exact Or.inl (.missingValue hname hskip)
      | some found =>
          obtain ⟨v, r'⟩ := found
          exact passes_of_readFields_behind hname hskip hvalue h

/-- The fault of a list is that of its first item on. -/
theorem stopsAt_of_readList (h : readList fuel t = .error s) :
    ∃ f u, f ≤ fuel ∧ Step .wire .value (CodePoint.ofChar '[' :: t) .item u ∧ StopsAt f .item u s := by
  cases fuel with
  | zero => exact ⟨0, t, Nat.le_refl 0, .list (gap_nil _), h⟩
  | succ f =>
      obtain ⟨g, hg, ht⟩ := exists_blanks t
      have hstep : Step .wire .value (CodePoint.ofChar '[' :: t) .item (skipBlanks t) := by
        nth_rewrite 1 [ht]
        exact .list hg
      rw [readList] at h
      split at h
      · -- a text that ends behind the bracket lacks an item
        rename_i hskip
        rw [hskip] at hstep
        exact ⟨0, [], Nat.zero_le _, hstep, h⟩
      · rename_i c r hskip
        split at h
        · contradiction
        · rw [hskip] at hstep
          exact ⟨f, c :: r, Nat.le_succ f, hstep, h⟩

/-- The fault of an object is that of its first field on. -/
theorem stopsAt_of_readObject (h : readObject fuel t = .error s) :
    ∃ f u, f ≤ fuel ∧ Step .wire .value (CodePoint.ofChar '\x7b' :: t) .field u ∧
      StopsAt f .field u s := by
  cases fuel with
  | zero => exact ⟨0, t, Nat.le_refl 0, .object (gap_nil _), [], h⟩
  | succ f =>
      obtain ⟨g, hg, ht⟩ := exists_blanks t
      have hstep : Step .wire .value (CodePoint.ofChar '\x7b' :: t) .field (skipBlanks t) := by
        nth_rewrite 1 [ht]
        exact .object hg
      rw [readObject] at h
      split at h
      · rename_i hskip
        rw [hskip] at hstep
        exact ⟨0, [], Nat.zero_le _, hstep, [], h⟩
      · rename_i c r hskip
        split at h
        · contradiction
        · rw [hskip] at hstep
          exact ⟨f, c :: r, Nat.le_succ f, hstep, [], h⟩

theorem passes_of_readValue (h : readValue (fuel + 1) t = .error s) :
    Passes (fuel + 1) .value t s := by
  rw [readValue.eq_def] at h
  simp only at h
  -- names and numerals are read, or are not there
  split at h
  · contradiction
  split at h
  · contradiction
  cases t with
  | nil => contradiction
  | cons c r =>
      simp only at h
      by_cases hquote : c = '"'
      · rw [if_pos hquote] at h
        subst hquote
        exact Or.inl (.string (except_map_eq_error.1 h))
      rw [if_neg hquote] at h
      by_cases hbracket : c = '['
      · rw [if_pos hbracket] at h
        subst hbracket
        obtain ⟨f, u, hf, hstep, hstop⟩ := stopsAt_of_readList (except_map_eq_error.1 h)
        exact Or.inr ⟨f, .item, u, Nat.lt_succ_of_le hf, hstep, hstop⟩
      rw [if_neg hbracket] at h
      by_cases hbrace : c = '\x7b'
      · rw [if_pos hbrace] at h
        subst hbrace
        obtain ⟨f, u, hf, hstep, hstop⟩ := stopsAt_of_readObject (except_map_eq_error.1 h)
        exact Or.inr ⟨f, .field, u, Nat.lt_succ_of_le hf, hstep, hstop⟩
      · rw [if_neg hbrace] at h
        contradiction

end Steps

/-- The fault of a place arises there, or is that of a place one step on. -/
theorem passes_of_stopsAt {fuel : Nat} {a : Place} {t : Text} {s : Stop} (h : StopsAt fuel a t s) :
    Passes fuel a t s := by
  cases a with
  | value =>
      cases fuel with
      | zero => simp [StopsAt, readValue] at h
      | succ fuel => exact passes_of_readValue h
  | item =>
      cases fuel with
      | zero =>
          -- without fuel an item counts as missing
          obtain rfl := Except.error.inj (show Except.error _ = Except.error s from h)
          exact Or.inl (.missingItem t)
      | succ fuel => exact passes_of_readItems h
  | field =>
      obtain ⟨fields, h⟩ := h
      cases fuel with
      | zero =>
          obtain rfl := Except.error.inj (show Except.error _ = Except.error s from h)
          exact Or.inl (.missingName t)
      | succ fuel => exact passes_of_readFields h

/-- Each fault arises at a place that the text leads to. -/
theorem exists_origin {fuel : Nat} {a : Place} {t : Text} {s : Stop} (h : StopsAt fuel a t s) :
    ∃ b u, Leads .wire a t b u ∧ Arises b u s := by
  induction fuel using Nat.strongRecOn generalizing a t with
  | ind fuel ih =>
      rcases passes_of_stopsAt h with harises | ⟨f, b, u, hf, hstep, hstop⟩
      · exact ⟨a, t, .refl, harises⟩
      · obtain ⟨c, w, hleads, harises⟩ := ih f hf hstop
        exact ⟨c, w, .head hstep hleads, harises⟩

/-! ## Faults are passed back -/

section Back

variable {t : Text} {s : Stop}

end Back

end Wire

end ModuleStubs
