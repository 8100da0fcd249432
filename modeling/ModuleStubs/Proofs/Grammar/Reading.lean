import ModuleStubs.Proofs.Grammar.Tokens

/-!
# Readers that follow the grammar

What a reader has to do at each form of the grammar so that it reads every value of a dialect
(`Reader.Follows`): it reads the tokens, skips the blanks around items and fields, and goes on behind a
comma. By induction over the derivation such a reader reads every value, and leaves what stands behind
it (`Value.reads`), as long as that cannot belong to a numeral. Readers recurse on fuel; twice the
length of the value is enough.
-/

set_option autoImplicit false

namespace ModuleStubs

namespace Grammar

open Json (endsNumeral endsNumeral_cons)

/-- A reader, by the results that it gives with some fuel on a text: what is read, and the rest. The
fields of an object are added to those before. -/
structure Reader where
  value : Nat → Text → Json → Text → Prop
  items : Nat → Text → List Json → Text → Prop
  fields : Record Json → Nat → Text → Record Json → Text → Prop

/-- The result is given with so much fuel, and with any more. -/
def Reads {α : Type} (read : Nat → Text → α → Text → Prop) (n : Nat) (t : Text) (a : α)
    (rest : Text) : Prop :=
  ∀ fuel, n ≤ fuel → read fuel t a rest

theorem Reads.mono {α : Type} {read : Nat → Text → α → Text → Prop} {m n : Nat} {t rest : Text}
    {a : α} (h : Reads read m t a rest) (hle : m ≤ n) : Reads read n t a rest :=
  fun fuel hfuel => h fuel (Nat.le_trans hle hfuel)

/-- The text starts with a code point of ASCII that is neither a blank nor the end of a list. -/
def Solid (D : Dialect) (t : Text) : Prop :=
  ∃ c r, t = c :: r ∧ D.isGap c = false ∧ c ≠ ']' ∧ c.val < 128

/-- What a reader does at each form of the grammar. -/
structure Reader.Follows (R : Reader) (D : Dialect) : Prop where
  name {t : Text} {v : Json} (rest : Text) : Name t v → Reads R.value 1 (t ++ rest) v rest
  numeral {t rest : Text} {v : Json} : Numeral t v → endsNumeral rest = true →
    Reads R.value 1 (t ++ rest) v rest
  string {t s : Text} (rest : Text) : Body D t s → Reads R.value 1 (inQuotes t ++ rest) (.str s) rest
  emptyList {g : Text} (rest : Text) : Gap D g →
    Reads R.value 2 (CodePoint.ofChar '[' :: (g ++ CodePoint.ofChar ']' :: rest)) (.list []) rest
  list {g t rest : Text} {vs : List Json} {n : Nat} : Gap D g → Solid D t →
    Reads R.items n t vs rest →
    Reads R.value (n + 2) (CodePoint.ofChar '[' :: (g ++ t)) (.list vs) rest
  lastItem {g t rest : Text} {v : Json} {n : Nat} : Gap D g →
    Reads R.value n t v (g ++ CodePoint.ofChar ']' :: rest) → Reads R.items (n + 1) t [v] rest
  nextItem {g g' t u rest : Text} {v : Json} {vs : List Json} {n : Nat} : Gap D g → Gap D g' →
    Solid D u → Reads R.value n t v (g ++ CodePoint.ofChar ',' :: (g' ++ u)) →
    Reads R.items n u vs rest → Reads R.items (n + 1) t (v :: vs) rest
  emptyObject {g : Text} (rest : Text) : Gap D g →
    Reads R.value 2 (CodePoint.ofChar '\x7b' :: (g ++ CodePoint.ofChar '\x7d' :: rest)) (.object [])
      rest
  object {g t rest : Text} {fs : Record Json} {n : Nat} : Gap D g →
    Reads (R.fields []) n (CodePoint.ofChar '"' :: t) fs rest →
    Reads R.value (n + 2) (CodePoint.ofChar '\x7b' :: (g ++ CodePoint.ofChar '"' :: t)) (.object fs)
      rest
  lastField {body name g₁ g₂ g₃ t rest : Text} {fields : Record Json} {v : Json} {n : Nat} :
    Body D body name → Gap D g₁ → Gap D g₂ → Solid D t → Gap D g₃ →
    Reads R.value n t v (g₃ ++ CodePoint.ofChar '\x7d' :: rest) →
    Reads (R.fields fields) (n + 1) (inQuotes body ++ (g₁ ++ CodePoint.ofChar ':' :: (g₂ ++ t)))
      (Record.set name v fields) rest
  nextField {body name g₁ g₂ g₃ g₄ t u rest : Text} {fields all : Record Json} {v : Json} {n : Nat} :
    Body D body name → Gap D g₁ → Gap D g₂ → Solid D t → Gap D g₃ → Gap D g₄ →
    Reads R.value n t v (g₃ ++ CodePoint.ofChar ',' :: (g₄ ++ CodePoint.ofChar '"' :: u)) →
    Reads (R.fields (Record.set name v fields)) n (CodePoint.ofChar '"' :: u) all rest →
    Reads (R.fields fields) (n + 1) (inQuotes body ++ (g₁ ++ CodePoint.ofChar ':' :: (g₂ ++ t))) all
      rest

variable {D : Dialect} {R : Reader}

/-! ## How values start -/

/-- The code points with which values start. -/
def starts : Text := lit "\"\x7b[-0123456789ntfNI"

theorem mem_starts_of_isDigit {c : CodePoint} (h : c.isDigit = true) : c ∈ starts := by
  have hall : ∀ d : Fin 10, digitPoint d.val ∈ starts := by decide
  simp [CodePoint.isDigit] at h
  have hc : c = digitPoint (c.val - 48) := by
    rw [digitPoint, Nat.add_sub_cancel' h.1, CodePoint.ofNat_val]
  rw [hc]
  exact hall ⟨c.val - 48, by omega⟩

theorem Value.exists_mem_starts {t : Text} {v : Json} (h : Value D t v) :
    ∃ c r, t = c :: r ∧ c ∈ starts := by
  cases h with
  | name h => cases h <;> exact ⟨_, _, rfl, by decide⟩
  | numeral h =>
      obtain ⟨negative, w, f, e, fraction, exponent, rfl, hw, -, -, -⟩ := h.exists_parts
      obtain ⟨c, ds, rfl, hc⟩ := hw.exists_cons
      cases negative with
      | true => exact ⟨_, _, rfl, by decide⟩
      | false => exact ⟨_, _, rfl, mem_starts_of_isDigit hc⟩
  | string h => exact ⟨_, _, rfl, by decide⟩
  | emptyList h => exact ⟨_, _, rfl, by decide⟩
  | list hgaps h => exact ⟨_, _, rfl, by decide⟩
  | emptyObject h => exact ⟨_, _, rfl, by decide⟩
  | object hnamed h => exact ⟨_, _, rfl, by decide⟩

theorem Dialect.isGap_eq_false {c : CodePoint} (h : isSpace c = false) : D.isGap c = false := by
  cases hgap : D.isGap c with
  | false => rfl
  | true => exact absurd (D.isSpace_of_isGap c hgap) (by simp [h])

/-- A value starts with a code point of ASCII that is neither a blank nor the end of a list. -/
theorem Value.solid {t : Text} {v : Json} (h : Value D t v) (rest : Text) :
    Solid D (t ++ rest) := by
  have hall : ∀ c ∈ starts, isSpace c = false ∧ c ≠ ']' ∧ c.val < 128 := by decide
  obtain ⟨c, r, rfl, hc⟩ := h.exists_mem_starts
  obtain ⟨hspace, hend, hascii⟩ := hall c hc
  exact ⟨c, r ++ rest, rfl, D.isGap_eq_false hspace, hend, hascii⟩

/-- A text that starts neither with a blank nor as values do is no document. -/
theorem not_document_cons {c : CodePoint} (hspace : isSpace c = false) (hc : c ∉ starts) (t : Text)
    (v : Json) : ¬Document D (c :: t) v := by
  rintro ⟨before, text, after, hbefore, hvalue, -, heq⟩
  cases before with
  | nil =>
      obtain ⟨d, r, rfl, hd⟩ := hvalue.exists_mem_starts
      obtain ⟨rfl, -⟩ := List.cons.inj heq
      exact hc hd
  | cons d before =>
      obtain ⟨rfl, -⟩ := List.cons.inj heq
      have hgap := hbefore c List.mem_cons_self
      rw [D.isGap_eq_false hspace] at hgap
      contradiction

theorem Value.length_pos {t : Text} {v : Json} (h : Value D t v) : 0 < t.length := by
  obtain ⟨c, r, heq, -⟩ := h.solid []
  rw [List.append_nil] at heq
  rw [heq]
  exact Nat.succ_pos _

/-! ## Skipping blanks -/

/-- What is skipped at the start of a text is a run of blanks. -/
theorem exists_gap (D : Dialect) (t : Text) : ∃ g, Gap D g ∧ t = g ++ t.dropWhile D.isGap :=
  ⟨t.takeWhile D.isGap, fun c hc => List.all_eq_true.1 List.all_takeWhile c hc,
    List.takeWhile_append_dropWhile.symm⟩

theorem dropWhile_gap {g : Text} {c : CodePoint} (hg : Gap D g) (hc : D.isGap c = false) (r : Text) :
    (g ++ c :: r).dropWhile D.isGap = c :: r := by
  rw [List.dropWhile_append_of_pos hg, List.dropWhile_cons, if_neg (by simp [hc])]

theorem Solid.dropWhile_gap {g t : Text} (ht : Solid D t) (hg : Gap D g) :
    (g ++ t).dropWhile D.isGap = t := by
  obtain ⟨c, r, rfl, hc, -⟩ := ht
  exact Grammar.dropWhile_gap hg hc r

theorem dropWhile_gap_nil {g : Text} (hg : Gap D g) : g.dropWhile D.isGap = [] := by
  rw [← List.append_nil g, List.dropWhile_append_of_pos hg]
  rfl

/-! ## What follows a value -/

/-- Blanks end a numeral. -/
theorem endsNumeral_gap {g t : Text} (hg : Gap D g) (ht : endsNumeral t = true) :
    endsNumeral (g ++ t) = true := by
  cases g with
  | nil => exact ht
  | cons c g =>
      have hspace := D.isSpace_of_isGap c (hg c List.mem_cons_self)
      simp [isSpace] at hspace
      refine endsNumeral_cons.2 ⟨?_, ?_, ?_, ?_⟩
      · simp [CodePoint.isDigit]
        omega
      all_goals
        rintro rfl
        simp [CodePoint.ofChar] at hspace

/-! ## Items -/

theorem laterItems_cons (i : Item) (is : List Item) (t : Text) :
    laterItems (i :: is) ++ t =
      CodePoint.ofChar ',' :: (i.before ++ (i.text ++ (i.after ++ (laterItems is ++ t)))) := by
  simp [laterItems, Item.padded]

/-- The items of a list are read from the first one on, if each of them is read where it stands. -/
theorem reads_items (hR : R.Follows D) :
    ∀ (is : List Item) (i : Item), (∀ j ∈ i :: is, j.HasGaps D) →
      (∀ j ∈ i :: is, ∀ rest, Solid D (j.text ++ rest)) →
      (∀ j ∈ i :: is, ∀ rest, endsNumeral rest = true →
        Reads R.value (2 * j.text.length) (j.text ++ rest) j.value rest) →
      ∀ rest, Reads R.items (2 * (i.text.length + (laterItems is).length) + 1)
        (i.text ++ (i.after ++ (laterItems is ++ CodePoint.ofChar ']' :: rest)))
        ((i :: is).map Item.value) rest
  | [], i, hgaps, _, hreads, rest => by
      have hafter := (hgaps i List.mem_cons_self).2
      have hvalue := hreads i List.mem_cons_self _
        (endsNumeral_gap hafter (show endsNumeral (CodePoint.ofChar ']' :: rest) = true from rfl))
      exact hR.lastItem hafter (hvalue.mono (by omega))
  | j :: js, i, hgaps, hsolid, hreads, rest => by
      have hafter := (hgaps i List.mem_cons_self).2
      have hbefore := (hgaps j (by simp)).1
      have hlater := reads_items hR js j (fun k hk => hgaps k (List.mem_cons_of_mem _ hk))
        (fun k hk => hsolid k (List.mem_cons_of_mem _ hk))
        (fun k hk => hreads k (List.mem_cons_of_mem _ hk)) rest
      have hvalue := hreads i List.mem_cons_self
        (i.after ++ (laterItems (j :: js) ++ CodePoint.ofChar ']' :: rest))
        (endsNumeral_gap hafter rfl)
      have hlength := congrArg List.length (laterItems_cons j js [])
      simp only [List.append_nil, List.length_append, List.length_cons] at hlength
      -- the value before the comma and the items behind it share the fuel
      rw [laterItems_cons] at hvalue ⊢
      exact hR.nextItem hafter hbefore (hsolid j (by simp) _) (hvalue.mono (by omega))
        (hlater.mono (by omega))

/-! ## Fields -/

theorem inQuotes_append (t rest : Text) :
    inQuotes t ++ rest = CodePoint.ofChar '"' :: (t ++ CodePoint.ofChar '"' :: rest) := by
  simp [inQuotes]

theorem laterFields_cons (f : Field) (fs : List Field) (t : Text) :
    laterFields (f :: fs) ++ t =
      CodePoint.ofChar ',' :: (f.before ++ CodePoint.ofChar '"' :: (f.body ++ CodePoint.ofChar '"' ::
        (f.after ++ CodePoint.ofChar ':' :: (f.item.before ++ (f.item.text ++ (f.item.after ++
          (laterFields fs ++ t))))))) := by
  simp [laterFields, Field.padded, Item.padded, inQuotes]

/-- The fields of an object are read from the first one on, if the value of each of them is read where
it stands. Each one is written to the record of those before. -/
theorem reads_fields (hR : R.Follows D) :
    ∀ (fs : List Field) (f : Field) (fields : Record Json), (∀ g ∈ f :: fs, g.IsNamed D) →
      (∀ g ∈ f :: fs, ∀ rest, Solid D (g.item.text ++ rest)) →
      (∀ g ∈ f :: fs, ∀ rest, endsNumeral rest = true →
        Reads R.value (2 * g.item.text.length) (g.item.text ++ rest) g.item.value rest) →
      ∀ rest, Reads (R.fields fields) (2 * (f.item.text.length + (laterFields fs).length) + 1)
        (inQuotes f.body ++ (f.after ++ CodePoint.ofChar ':' :: (f.item.before ++ (f.item.text ++
          (f.item.after ++ (laterFields fs ++ CodePoint.ofChar '\x7d' :: rest))))))
        (((f :: fs).map Field.entry).foldl (fun r (k, v) => Record.set k v r) fields) rest
  | [], f, fields, hnamed, hsolid, hreads, rest => by
      obtain ⟨-, hbody, hafter, hgap, hgap'⟩ := hnamed f List.mem_cons_self
      have hvalue := hreads f List.mem_cons_self _
        (endsNumeral_gap hgap' (show endsNumeral (CodePoint.ofChar '\x7d' :: rest) = true from rfl))
      exact hR.lastField hbody hafter hgap (hsolid f List.mem_cons_self _) hgap'
        (hvalue.mono (by omega))
  | e :: es, f, fields, hnamed, hsolid, hreads, rest => by
      obtain ⟨-, hbody, hafter, hgap, hgap'⟩ := hnamed f List.mem_cons_self
      have hbefore := (hnamed e (by simp)).1
      have hlater := reads_fields hR es e (Record.set f.name f.item.value fields)
        (fun g hg => hnamed g (List.mem_cons_of_mem _ hg))
        (fun g hg => hsolid g (List.mem_cons_of_mem _ hg))
        (fun g hg => hreads g (List.mem_cons_of_mem _ hg)) rest
      have hvalue := hreads f List.mem_cons_self
        (f.item.after ++ (laterFields (e :: es) ++ CodePoint.ofChar '\x7d' :: rest))
        (endsNumeral_gap hgap' rfl)
      have hlength := congrArg List.length (laterFields_cons e es [])
      simp only [List.append_nil, List.length_append, List.length_cons] at hlength
      have hsolid' := hsolid f List.mem_cons_self
        (f.item.after ++ (laterFields (e :: es) ++ CodePoint.ofChar '\x7d' :: rest))
      rw [laterFields_cons] at hvalue hsolid' ⊢
      refine hR.nextField hbody hafter hgap hsolid' hgap' hbefore (hvalue.mono (by omega)) ?_
      rw [inQuotes_append] at hlater
      exact hlater.mono (by omega)

/-! ## Values -/

/-- A reader that follows the grammar reads every value, and leaves what stands behind it. Only behind a
numeral it matters what that is. -/
theorem Value.reads_of (hR : R.Follows D) {t : Text} {v : Json} (h : Value D t v) :
    ∀ rest, (Numeral t v → endsNumeral rest = true) →
      Reads R.value (2 * t.length) (t ++ rest) v rest := by
  have hlength := h.length_pos
  induction h with
  | name h => exact fun rest _ => (hR.name rest h).mono (by omega)
  | numeral h => exact fun rest hrest => (hR.numeral h (hrest h)).mono (by omega)
  | string h => exact fun rest _ => (hR.string rest h).mono (by omega)
  | @emptyList g h =>
      intro rest _
      have hlist := hR.emptyList rest h
      simpa using hlist.mono (n := 2 * (g.length + 1 + 1)) (by omega)
  | @list i is hgaps h ih =>
      intro rest _
      have hitems := reads_items hR is i hgaps (fun j hj rest => (h j hj).solid rest)
        (fun j hj rest hrest => ih j hj (h j hj).length_pos rest fun _ => hrest) rest
      have hlist := hR.list (hgaps i List.mem_cons_self).1 ((h i List.mem_cons_self).solid _) hitems
      have htext : CodePoint.ofChar '[' :: (i.padded ++ (laterItems is ++ [CodePoint.ofChar ']'])) ++
          rest = CodePoint.ofChar '[' :: (i.before ++ (i.text ++ (i.after ++ (laterItems is ++
            CodePoint.ofChar ']' :: rest)))) := by simp [Item.padded]
      rw [htext]
      refine hlist.mono ?_
      simp only [Item.padded, List.length_cons, List.length_append]
      omega
  | @emptyObject g h =>
      intro rest _
      have hobject := hR.emptyObject rest h
      simpa using hobject.mono (n := 2 * (g.length + 1 + 1)) (by omega)
  | @object f fs hnamed h ih =>
      intro rest _
      have hfields := reads_fields hR fs f [] hnamed (fun g hg rest => (h g hg).solid rest)
        (fun g hg rest hrest => ih g hg (h g hg).length_pos rest fun _ => hrest) rest
      have hobject := hR.object (hnamed f List.mem_cons_self).1 hfields
      have htext : CodePoint.ofChar '\x7b' :: (f.padded ++ (laterFields fs ++
          [CodePoint.ofChar '\x7d'])) ++ rest = CodePoint.ofChar '\x7b' :: (f.before ++
            CodePoint.ofChar '"' :: (f.body ++ [CodePoint.ofChar '"'] ++ (f.after ++
              CodePoint.ofChar ':' :: (f.item.before ++ (f.item.text ++ (f.item.after ++
                (laterFields fs ++ CodePoint.ofChar '\x7d' :: rest))))))) := by
        simp [Field.padded, Item.padded, inQuotes]
      rw [htext, ← Record.ofList_eq_lastValues]
      refine hobject.mono ?_
      simp only [Field.padded, Item.padded, inQuotes, List.length_cons, List.length_append]
      omega

theorem Value.reads (hR : R.Follows D) {t : Text} {v : Json} (h : Value D t v) (rest : Text)
    (hrest : endsNumeral rest = true) : Reads R.value (2 * t.length) (t ++ rest) v rest :=
  h.reads_of hR rest fun _ => hrest

end Grammar

end ModuleStubs
