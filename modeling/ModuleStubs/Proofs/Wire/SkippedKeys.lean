import ModuleStubs.Proofs.Wire.Nesting

/-!
# Entries that are left out

Entries under tuples and foreign objects can be left out by the writer, or beforehand from the data
(`Datum.kept`, `Heap.kept`). Both give the same text or the same fault (`document_skipping`), for trees and for
heaps, where a container may occur in several places and may contain itself. What lies under a key that is left out
does not matter, so it may be anything.

A run is compared by its outcome, the text or the fault, because the chunks are not the same: a dictionary
that loses all its entries is written in two chunks in one run and in one chunk in the other. In the first run
it is opened, too. But such a dictionary is never open already when it is met, since nothing is inside it
(`NoneHollow`).
-/

set_option autoImplicit false

namespace ModuleStubs

namespace Wire

/-! ## Data without the entries -/

mutual

/-- A tree without the entries whose keys have no text, at every level. -/
def Datum.kept : Datum → Datum
  | .atom a => .atom a
  | .list items => .list (keptItems items)
  | .dict fields => .dict (keptFields fields)

/-- The items of a list without such entries in them. -/
def Datum.keptItems : List Datum → List Datum
  | [] => []
  | v :: vs => kept v :: keptItems vs

/-- The entries of a dictionary that have a text as key, without such entries in them. -/
def Datum.keptFields : List (Key × Datum) → List (Key × Datum)
  | [] => []
  | (k, v) :: fs => if k.hasText then (k, kept v) :: keptFields fs else keptFields fs

end

/-- A container without the entries whose keys have no text. -/
def Cell.kept : Cell → Cell
  | .items refs => .items refs
  | .fields refs => .fields (refs.filter fun e => e.1.hasText)
  | .foreign name => .foreign name

/-- A heap without such entries. -/
def Heap.kept (h : Heap) : Heap := h.map Cell.kept

/-- The options with or without leaving entries out. -/
def Options.skipping (o : Options) (skip : Bool) : Options := { o with skipKeys := skip }

section Keeps

variable {ρ σ : Type}

/-- The entries whose keys have a text, with the counterparts of their values. -/
def keptEntries (f : ρ → σ) (fs : List (Key × ρ)) : List (Key × σ) :=
  (fs.filter fun e => e.1.hasText).map fun e => (e.1, f e.2)

/-- One level of data without the entries, with the counterparts of the parts. -/
def Shape.kept (f : ρ → σ) : Shape ρ → Shape σ
  | .atom a => .atom a
  | .items parts => .items (parts.map f)
  | .fields parts => .fields (keptEntries f parts)

/-- The second store shows the data of the first one without the entries. The map takes each value to its
counterpart, and values with the same number are the same. -/
structure Keeps (s : Store ρ) (s' : Store σ) (f : ρ → σ) : Prop where
  shape : ∀ v, s'.shape (f v) = (s.shape v).kept f
  number : ∀ v, s'.number? (f v) = s.number? v
  recognised : ∀ u v n, s.number? u = some n → s.number? v = some n → s.shape u = s.shape v

end Keeps

theorem Datum.keptItems_eq (items : List Datum) : keptItems items = items.map kept := by
  induction items with
  | nil => rfl
  | cons v vs ih => rw [keptItems, ih, List.map_cons]

theorem Datum.keptFields_eq (fields : List (Key × Datum)) : keptFields fields = keptEntries kept fields := by
  induction fields with
  | nil => rfl
  | cons f fs ih =>
      obtain ⟨k, v⟩ := f
      rw [keptFields, ih]
      cases hk : k.hasText with
      | true => simp [keptEntries, hk]
      | false => simp [keptEntries, hk]

theorem Datum.keeps_kept : Keeps Datum.store Datum.store Datum.kept where
  shape d := by
    cases d with
    | atom a => rfl
    | list items => exact congrArg Shape.items (keptItems_eq items)
    | dict fields => exact congrArg Shape.fields (keptFields_eq fields)
  number _ := rfl
  recognised u v n hu _ := by contradiction

theorem Heap.keeps_kept (h : Heap) : Keeps h.store h.kept.store id where
  shape r := by
    cases r with
    | atom a => rfl
    | cell n =>
        have hcell : h.kept[n]? = h[n]?.map Cell.kept := List.getElem?_map
        simp only [Heap.store, id, hcell]
        cases h[n]? with
        | none => rfl
        | some c => cases c <;> simp [Cell.kept, Shape.kept, keptEntries]
  number _ := rfl
  recognised u v n hu hv := by
    cases u with
    | atom a => contradiction
    | cell m =>
        cases v with
        | atom a => contradiction
        | cell l => rw [Option.some.inj hu, Option.some.inj hv]

/-! ## Outcomes -/

/-- The outcome of a writing: its result and the text, or the fault. -/
def outcome {α : Type} (w : Writing α) : Except WriteFault (α × Text) :=
  w.result.map fun a => (a, Text.concat w.log)

theorem document_eq_outcome (w : Writing Open) : document w = (outcome w).map Prod.snd := by
  rw [document, outcome]
  cases w.result <;> rfl

section Outcomes

variable {α β : Type}

theorem outcome_bind (x : Writing α) (f : α → Writing β) :
    outcome (x >>= f) = (outcome x).bind fun p => (outcome (f p.1)).map fun q => (q.1, p.2 ++ q.2) := by
  obtain ⟨log, r⟩ := x
  cases r with
  | error e => rfl
  | ok a =>
      cases hresult : (f a).result with
      | error e => simp [outcome, Except.map, Except.bind, hresult]
      | ok b => simp [outcome, Except.map, Except.bind, hresult, Text.concat]

/-- The outcome of two writings one after the other depends on their outcomes only. -/
theorem outcome_bind_congr {x y : Writing α} {f g : α → Writing β} (hxy : outcome x = outcome y)
    (hfg : ∀ a, x.result = .ok a → outcome (f a) = outcome (g a)) :
    outcome (x >>= f) = outcome (y >>= g) := by
  rw [outcome_bind, outcome_bind, ← hxy]
  cases hresult : x.result with
  | error e => simp only [outcome, hresult, Except.map, Except.bind]
  | ok a =>
      have hnext := hfg a hresult
      simp only [outcome, hresult, Except.map, Except.bind] at hnext ⊢
      rw [hnext]

end Outcomes

section Runs

variable {ρ σ : Type} {o : Options} {marks : Open}

theorem outcome_between_congr {w w' : Writing Open} (h : outcome w = outcome w') (left right : Text) :
    outcome (between left right w) = outcome (between left right w') :=
  outcome_bind_congr rfl fun _ _ => outcome_bind_congr h fun _ _ => rfl

section Parts

variable {write : ρ → Open → Writing Open} {write' : σ → Open → Writing Open} {f : ρ → σ}
  (hrestores : ∀ v marks, Restores (write v marks) marks)
include hrestores

theorem outcome_writeItems_congr {vs : List ρ}
    (h : ∀ v ∈ vs, outcome (write v marks) = outcome (write' (f v) marks)) (isFirst : Bool) :
    outcome (writeItems write isFirst vs marks) = outcome (writeItems write' isFirst (vs.map f) marks) := by
  induction vs generalizing isFirst with
  | nil => rfl
  | cons v vs ih =>
      rw [List.map_cons, writeItems_cons_eq, writeItems_cons_eq]
      refine outcome_bind_congr rfl fun _ _ => outcome_bind_congr (h v List.mem_cons_self) ?_
      intro after hafter
      obtain rfl := hrestores v marks after hafter
      exact ih (fun u hu => h u (List.mem_cons_of_mem v hu)) false

theorem outcome_writeFields_congr {fs : List (Key × ρ)}
    (h : ∀ e ∈ fs, outcome (write e.2 marks) = outcome (write' (f e.2) marks)) (isFirst : Bool) :
    outcome (writeFields o write isFirst fs marks) =
      outcome (writeFields o write' isFirst (fs.map fun e => (e.1, f e.2)) marks) := by
  induction fs generalizing isFirst with
  | nil => rfl
  | cons e fs ih =>
      obtain ⟨k, v⟩ := e
      have hlater := ih fun e he => h e (List.mem_cons_of_mem _ he)
      rw [List.map_cons]
      refine outcome_bind_congr rfl fun key? _ => ?_
      cases key? with
      | none => exact hlater isFirst
      | some key =>
          have hentry : outcome (do
                Trace.say (← (writtenString o key : Except WriteFault Text))
                Trace.say (lit ":")
                let marks ← write v marks
                writeFields o write false fs marks) =
              outcome (do
                Trace.say (← (writtenString o key : Except WriteFault Text))
                Trace.say (lit ":")
                let marks ← write' (f v) marks
                writeFields o write' false (fs.map fun e => (e.1, f e.2)) marks) := by
            refine outcome_bind_congr rfl fun _ _ => outcome_bind_congr rfl fun _ _ =>
              outcome_bind_congr rfl fun _ _ => outcome_bind_congr (h (k, v) List.mem_cons_self) ?_
            intro after hafter
            obtain rfl := hrestores v marks after hafter
            exact hlater false
          cases isFirst with
          | true => exact hentry
          | false => exact outcome_bind_congr rfl fun _ _ => hentry

end Parts

/-- A key with a text has the same text with and without leaving entries out. -/
theorem keyText_skipping {k : Key} (hk : k.hasText = true) :
    keyText (o.skipping true) k = keyText (o.skipping false) k := by
  cases k with
  | tuple ks => contradiction
  | atom a =>
      cases a with
      | foreign name => contradiction
      | _ => rfl

/-- Leaving entries out is writing the others. An entry that is left out does not count as the first one. -/
theorem writeFields_skipping (write : ρ → Open → Writing Open) (isFirst : Bool) (fs : List (Key × ρ))
    (marks : Open) :
    writeFields (o.skipping true) write isFirst fs marks =
      writeFields (o.skipping false) write isFirst (fs.filter fun e => e.1.hasText) marks := by
  induction fs generalizing isFirst marks with
  | nil => rfl
  | cons e fs ih =>
      obtain ⟨k, v⟩ := e
      cases hk : k.hasText with
      | false =>
          rw [writeFields_cons_of_none write isFirst (keyText_of_hasText_eq_false hk), ih,
            List.filter_cons_of_neg (by rw [hk]; exact Bool.false_ne_true)]
      | true =>
          have hkeeps : ((k, v) :: fs).filter (fun e => e.1.hasText) =
              (k, v) :: fs.filter fun e => e.1.hasText := List.filter_cons_of_pos hk
          have hlater : writeFields (o.skipping true) write false fs =
              writeFields (o.skipping false) write false (fs.filter fun e => e.1.hasText) :=
            funext (ih false)
          rw [hkeeps, writeFields, writeFields, keyText_skipping hk, ih, hlater]
          rfl

theorem outcome_writeForeign_congr {again again' : Open → Writing Open}
    (h : outcome (again marks) = outcome (again' marks)) (name : Text) :
    outcome (writeForeign (o.skipping true) name again marks) =
      outcome (writeForeign (o.skipping false) name again' marks) := by
  rw [writeForeign.eq_def, writeForeign.eq_def]
  have hfallback : (o.skipping true).fallback = (o.skipping false).fallback := rfl
  rw [hfallback]
  split
  · rfl
  · rfl
  · exact outcome_between_congr h _ _

theorem writeForeign_wrapped (ho : o.fallback = .wrapped) (name : Text) (again : Open → Writing Open)
    (marks : Open) : writeForeign o name again marks = between (lit "[") (lit "]") (again marks) := by
  rw [writeForeign, ho]
  rfl

/-- Unless it is to be wrapped, a foreign object is not written once more. -/
theorem writeForeign_of_ne_wrapped (ho : o.fallback ≠ .wrapped) (name : Text)
    (again again' : Open → Writing Open) (marks : Open) :
    writeForeign o name again marks = writeForeign o name again' marks := by
  rw [writeForeign.eq_def, writeForeign.eq_def]
  split
  · rfl
  · rfl
  · contradiction

/-! ## Open dictionaries -/

theorem filter_hasText_eq_nil_iff {parts : List (Key × ρ)} :
    parts.filter (fun e => e.1.hasText) = [] ↔ ∀ e ∈ parts, e.1.hasText = false := by
  simp only [List.filter_eq_nil_iff, Bool.not_eq_true]

/-- A dictionary of which nothing is left. -/
def Shape.IsHollow (shape : Shape ρ) : Prop :=
  ∃ parts, shape = .fields parts ∧ ∀ e ∈ parts, e.1.hasText = false

theorem Shape.not_isHollow_atom (a : Atom) : ¬ (Shape.atom a : Shape ρ).IsHollow := by
  rintro ⟨parts, hparts, -⟩
  contradiction

theorem Shape.not_isHollow_items (items : List ρ) : ¬ (Shape.items items).IsHollow := by
  rintro ⟨parts, hparts, -⟩
  contradiction

/-- No dictionary of which nothing is left is open. -/
def NoneHollow (s : Store ρ) (marks : Open) : Prop :=
  ∀ n ∈ marks, ∀ v, s.number? v = some n → ¬ (s.shape v).IsHollow

variable {s : Store ρ} {s' : Store σ} {f : ρ → σ}

theorem noneHollow_nil (s : Store ρ) : NoneHollow s [] := by
  intro n hn
  contradiction

theorem NoneHollow.cons (h : NoneHollow s marks) (hkeeps : Keeps s s' f) {v : ρ} {n : Nat}
    (hn : s.number? v = some n) (hv : ¬ (s.shape v).IsHollow) : NoneHollow s (n :: marks) := by
  intro m hm u hu
  rcases List.mem_cons.1 hm with rfl | hm
  · rwa [hkeeps.recognised u v m hu hn]
  · exact h m hm u hu

/-- A container of which something is left is opened in both runs, or in neither. -/
theorem outcome_enclosed_congr (hkeeps : Keeps s s' f) (hmarks : NoneHollow s marks) {v : ρ}
    (hv : ¬ (s.shape v).IsHollow) {inside inside' : Open → Writing Open}
    (h : ∀ opened, NoneHollow s opened → outcome (inside opened) = outcome (inside' opened)) :
    outcome (enclosed (o.skipping true) (s.number? v) inside marks) =
      outcome (enclosed (o.skipping false) (s'.number? (f v)) inside' marks) := by
  rw [hkeeps.number]
  cases hn : s.number? v with
  | none => exact h marks hmarks
  | some n =>
      have hcheck : (o.skipping true).checkCircular = (o.skipping false).checkCircular := rfl
      rw [enclosed, enclosed, hcheck]
      split
      · exact h marks hmarks
      · split
        · rfl
        · exact outcome_bind_congr (h (n :: marks) (hmarks.cons hkeeps hn hv)) fun _ _ => rfl

/-- A container that is not open yet is opened and closed around what is written in it. -/
theorem enclosed_of_ok {number? : Option Nat} (hopen : ∀ n, number? = some n → n ∉ marks)
    (log : List Text) : enclosed o number? (fun marks => ⟨log, .ok marks⟩) marks = ⟨log, .ok marks⟩ := by
  cases number? with
  | none => rfl
  | some n =>
      have hn : marks.contains n = false := by simpa using hopen n rfl
      rw [enclosed, hn]
      split
      · rfl
      · rw [if_neg Bool.false_ne_true, Trace.bind_ok, List.erase_cons_head, Trace.pure_eq, List.append_nil]

/-- A dictionary of which nothing is left is written as an empty one. -/
theorem outcome_of_isHollow (hmarks : NoneHollow s marks) {v : ρ} (hv : (s.shape v).IsHollow) (fuel : Nat) :
    outcome (writeValue s (o.skipping true) (fuel + 1) v marks) = .ok (marks, lit "\x7b\x7d") := by
  have hopen : ∀ n, s.number? v = some n → n ∉ marks := fun n hn hmem => hmarks n hmem v hn hv
  obtain ⟨parts, hs, hparts⟩ := hv
  by_cases hempty : parts = []
  · rw [writeValue, hs, hempty]
    rfl
  · have hinside : (fun marks => between (lit "\x7b") (lit "\x7d")
        (writeFields (o.skipping true) (writeValue s (o.skipping true) fuel) true parts marks)) =
        fun marks => ⟨[lit "\x7b", lit "\x7d"], .ok marks⟩ := by
      funext marks
      rw [writeFields_skipping, filter_hasText_eq_nil_iff.2 hparts]
      rfl
    rw [writeValue_fields hs hempty, hinside, enclosed_of_ok hopen]
    rfl

/-! ## Runs on both stores -/

/-- The two runs have the same outcome. -/
theorem outcome_writeValue (hkeeps : Keeps s s' f) (fuel : Nat) :
    ∀ (v : ρ) (marks : Open), NoneHollow s marks →
      outcome (writeValue s (o.skipping true) fuel v marks) =
        outcome (writeValue s' (o.skipping false) fuel (f v) marks) := by
  induction fuel with
  | zero => exact fun v marks _ => rfl
  | succ fuel ih =>
      intro v marks hmarks
      have hshape := hkeeps.shape v
      cases hs : s.shape v with
      | atom a =>
          have hsolid : ¬ (s.shape v).IsHollow := by
            rw [hs]
            exact Shape.not_isHollow_atom a
          rw [hs] at hshape
          cases a with
          | foreign name =>
              rw [writeValue, writeValue, hs, hshape]
              exact outcome_enclosed_congr hkeeps hmarks hsolid fun opened hopened =>
                outcome_writeForeign_congr (ih v opened hopened) name
          | _ =>
              rw [writeValue, writeValue, hs, hshape]
              rfl
      | items parts =>
          have hsolid : ¬ (s.shape v).IsHollow := by
            rw [hs]
            exact Shape.not_isHollow_items parts
          rw [hs] at hshape
          by_cases hempty : parts = []
          · rw [writeValue, writeValue, hs, hshape, hempty]
            rfl
          · rw [writeValue_items hs hempty, writeValue_items hshape (mt List.map_eq_nil_iff.1 hempty)]
            refine outcome_enclosed_congr hkeeps hmarks hsolid fun opened hopened => ?_
            refine outcome_between_congr ?_ _ _
            exact outcome_writeItems_congr (restores_writeValue s fuel) (fun u _ => ih u opened hopened) true
      | fields parts =>
          rw [hs] at hshape
          -- with nothing left the one run opens the dictionary and the other does not, as it finds it empty
          by_cases hhollow : parts.filter (fun e => e.1.hasText) = []
          · have hnone : (s.shape v).IsHollow := ⟨parts, hs, filter_hasText_eq_nil_iff.1 hhollow⟩
            rw [outcome_of_isHollow hmarks hnone, writeValue, hshape, Shape.kept, keptEntries, hhollow]
            rfl
          · have hsolid : ¬ (s.shape v).IsHollow := by
              rintro ⟨entries, hentries, hnone⟩
              obtain rfl := Shape.fields.inj (hs.symm.trans hentries)
              exact hhollow (filter_hasText_eq_nil_iff.2 hnone)
            have hsome : parts ≠ [] := by
              rintro rfl
              exact hhollow List.filter_nil
            rw [writeValue_fields hs hsome, writeValue_fields hshape (mt List.map_eq_nil_iff.1 hhollow)]
            refine outcome_enclosed_congr hkeeps hmarks hsolid fun opened hopened => ?_
            rw [writeFields_skipping]
            refine outcome_between_congr ?_ _ _
            exact outcome_writeFields_congr (restores_writeValue s fuel)
              (fun e _ => ih e.2 opened hopened) true

end Runs

/-! ## The depth of trees -/

namespace Datum

theorem depth_le_itemsDepth {d : Datum} {items : List Datum} (h : d ∈ items) : d.depth ≤ itemsDepth items := by
  induction items with
  | nil => contradiction
  | cons v vs ih =>
      rw [itemsDepth]
      rcases List.mem_cons.1 h with rfl | h
      · exact Nat.le_max_left _ _
      · exact Nat.le_trans (ih h) (Nat.le_max_right _ _)

theorem depth_le_fieldsDepth {e : Key × Datum} {fields : List (Key × Datum)} (h : e ∈ fields) :
    e.2.depth ≤ fieldsDepth fields := by
  induction fields with
  | nil => contradiction
  | cons f fs ih =>
      rw [fieldsDepth]
      rcases List.mem_cons.1 h with rfl | h
      · exact Nat.le_max_left _ _
      · exact Nat.le_trans (ih h) (Nat.le_max_right _ _)

mutual

/-- A tree does not grow. -/
theorem depth_kept_le : ∀ d : Datum, d.kept.depth ≤ d.depth
  | .atom _ => Nat.le_refl _
  | .list items => Nat.succ_le_succ (itemsDepth_keptItems_le items)
  | .dict fields => Nat.succ_le_succ (fieldsDepth_keptFields_le fields)

theorem itemsDepth_keptItems_le : ∀ items : List Datum, itemsDepth (keptItems items) ≤ itemsDepth items
  | [] => Nat.le_refl _
  | v :: vs => by
      have hfirst := depth_kept_le v
      have hlater := itemsDepth_keptItems_le vs
      simp only [keptItems, itemsDepth]
      omega

theorem fieldsDepth_keptFields_le :
    ∀ fields : List (Key × Datum), fieldsDepth (keptFields fields) ≤ fieldsDepth fields
  | [] => Nat.le_refl _
  | (k, v) :: fs => by
      have hfirst := depth_kept_le v
      have hlater := fieldsDepth_keptFields_le fs
      rw [keptFields]
      split
      · simp only [fieldsDepth]
        omega
      · rw [fieldsDepth]
        omega

end

/-- In a tree a foreign object that is to be wrapped has no end. -/
theorem result_wrapped {o : Options} (ho : o.fallback = .wrapped) (name : Text) (fuel : Nat) (marks : Open) :
    (writeValue store o fuel (.atom (.foreign name)) marks).result = .error .endless := by
  induction fuel generalizing marks with
  | zero => rfl
  | succ fuel ih =>
      have hrun : writeValue store o (fuel + 1) (.atom (.foreign name)) marks =
          between (lit "[") (lit "]") (writeValue store o fuel (.atom (.foreign name)) marks) := by
        rw [writeValue]
        exact writeForeign_wrapped ho name _ marks
      rw [hrun, between, Trace.say_eq, Trace.bind_ok, Trace.result_bind, ih]
      rfl

/-- A depth beyond that of the tree changes nothing. -/
theorem outcome_writeValue_of_depth_le {o : Options} (fuel : Nat) :
    ∀ (fuel' : Nat) (d : Datum) (marks : Open), d.depth ≤ fuel → d.depth ≤ fuel' →
      outcome (writeValue store o fuel d marks) = outcome (writeValue store o fuel' d marks) := by
  induction fuel with
  | zero =>
      intro fuel' d marks hfuel
      cases d <;> simp [depth] at hfuel
  | succ fuel ih =>
      intro fuel' d marks hfuel hfuel'
      obtain ⟨fuel', rfl⟩ : ∃ n, fuel' = n + 1 := by
        cases fuel' with
        | succ n => exact ⟨n, rfl⟩
        | zero => cases d <;> simp [depth] at hfuel'
      cases d with
      | atom a =>
          cases a with
          | foreign name =>
              by_cases ho : o.fallback = .wrapped
              · rw [outcome, outcome, result_wrapped ho, result_wrapped ho]
                rfl
              · exact congrArg outcome (writeForeign_of_ne_wrapped ho name _ _ marks)
          | _ => rfl
      | list items =>
          rw [depth] at hfuel hfuel'
          have hshape : store.shape (.list items) = .items items := rfl
          have hparts : ∀ v ∈ items, outcome (writeValue store o fuel v marks) =
              outcome (writeValue store o fuel' (id v) marks) := by
            intro v hv
            have hdepth := depth_le_itemsDepth hv
            exact ih fuel' v marks (by omega) (by omega)
          by_cases hempty : items = []
          · rw [hempty]
            rfl
          · rw [writeValue_items hshape hempty, writeValue_items hshape hempty]
            refine outcome_between_congr ?_ _ _
            rw [outcome_writeItems_congr (restores_writeValue store fuel) hparts, List.map_id]
      | dict fields =>
          rw [depth] at hfuel hfuel'
          have hshape : store.shape (.dict fields) = .fields fields := rfl
          have hparts : ∀ e ∈ fields, outcome (writeValue store o fuel e.2 marks) =
              outcome (writeValue store o fuel' (id e.2) marks) := by
            intro e he
            have hdepth := depth_le_fieldsDepth he
            exact ih fuel' e.2 marks (by omega) (by omega)
          by_cases hempty : fields = []
          · rw [hempty]
            rfl
          · rw [writeValue_fields hshape hempty, writeValue_fields hshape hempty]
            refine outcome_between_congr ?_ _ _
            have hsame : (fields.map fun e => (e.1, id e.2)) = fields := List.map_id fields
            rw [outcome_writeFields_congr (restores_writeValue store fuel) hparts, hsame]

end Datum

/-! ## Documents -/

/-- **Leaving entries out is writing data without them.** Whatever the other options, a tree is written with
entries left out as the tree without these entries is written, with the same text or the same fault. The same
holds for the data of a heap, with containers that occur in several places or contain themselves. -/
theorem document_skipping (o : Options) :
    (∀ d : Datum, d.written (o.skipping true) = d.kept.written (o.skipping false)) ∧
    (∀ (h : Heap) (root : Ref),
      document (h.chunks (o.skipping true) root) = document (h.kept.chunks (o.skipping false) root)) := by
  constructor
  · intro d
    have hrun := outcome_writeValue (o := o) Datum.keeps_kept (d.depth + 1) d [] (noneHollow_nil _)
    have hdepth := d.depth_kept_le
    have hfuel := @Datum.outcome_writeValue_of_depth_le (o.skipping false) (d.depth + 1) (d.kept.depth + 1)
      d.kept [] (by omega) (by omega)
    rw [Datum.written, Datum.written, document_eq_outcome, document_eq_outcome, Datum.chunks, Datum.chunks,
      hrun, hfuel]
  · intro h root
    have hrun := outcome_writeValue (o := o) h.keeps_kept (h.length + 2) root [] (noneHollow_nil _)
    have hlength : h.kept.length = h.length := List.length_map _
    rw [document_eq_outcome, document_eq_outcome, Heap.chunks, Heap.chunks, hlength, hrun]
    rfl

end Wire

end ModuleStubs
