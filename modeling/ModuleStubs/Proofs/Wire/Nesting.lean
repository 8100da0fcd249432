import Mathlib.Data.List.Infix
import Mathlib.Logic.Relation
import ModuleStubs.Proofs.Wire.Documents

/-!
# What is inside a container

Two facts about every run of the writer, whatever the store and the options. It leaves the table of open
containers as it found it (`Restores`, `restores_writeValue`). And what is inside a container is written inside
its chunks, without a gap: the chunks of a value that is reached from another one are a block of the chunks
of that one (`exists_block_of_reaches`), and an entry of a dictionary is its key, a colon and the chunks of the value
(`exists_entry_of_mem`).
-/

set_option autoImplicit false

namespace ModuleStubs

namespace Wire

open Relation (ReflTransGen)

variable {ρ : Type} {o : Options} {marks : Open}

/-! ## The shapes of a run -/

/-- Something written between two marks. -/
def between (left right : Text) (w : Writing Open) : Writing Open := do
  Trace.say left
  let marks ← w
  Trace.say right
  return marks

/-- A list with something in it is written between brackets. -/
theorem writeValue_items {s : Store ρ} {v : ρ} {parts : List ρ} (hs : s.shape v = .items parts)
    (hne : parts ≠ []) (fuel : Nat) (marks : Open) :
    writeValue s o (fuel + 1) v marks = enclosed o (s.number? v)
      (fun marks => between (lit "[") (lit "]") (writeItems (writeValue s o fuel) true parts marks))
      marks := by
  rw [writeValue, hs]
  cases parts with
  | nil => contradiction
  | cons p ps => rfl

/-- A dictionary with something in it is written between braces. -/
theorem writeValue_fields {s : Store ρ} {v : ρ} {parts : List (Key × ρ)} (hs : s.shape v = .fields parts)
    (hne : parts ≠ []) (fuel : Nat) (marks : Open) :
    writeValue s o (fuel + 1) v marks = enclosed o (s.number? v)
      (fun marks => between (lit "\x7b") (lit "\x7d") (writeFields o (writeValue s o fuel) true parts marks))
      marks := by
  rw [writeValue, hs]
  cases parts with
  | nil => contradiction
  | cons e es => rfl

/-! ## Open containers -/

/-- If the writing completes, the open containers are the given ones. -/
def Restores (w : Writing Open) (marks : Open) : Prop := ∀ after, w.result = .ok after → after = marks

theorem restores_say (t : Text) (marks : Open) :
    Restores (do
      Trace.say t
      return marks) marks :=
  fun _ h => (Except.ok.inj h).symm

theorem restores_fail (e : WriteFault) (marks : Open) : Restores (Trace.fail e) marks := by
  intro after h
  contradiction

theorem restores_bind {α : Type} {x : Writing α} {f : α → Writing Open}
    (h : ∀ a, x.result = .ok a → Restores (f a) marks) : Restores (x >>= f) marks := by
  intro after hafter
  obtain ⟨a, ha, hf⟩ := Trace.result_bind_eq_ok.1 hafter
  exact h a ha after hf

theorem restores_between {w : Writing Open} (h : Restores w marks) (left right : Text) :
    Restores (between left right w) marks := by
  refine restores_bind fun _ _ => restores_bind fun after hafter => ?_
  obtain rfl := h after hafter
  exact restores_say right after

/-- A container that was opened is closed again. -/
theorem restores_enclosed {number? : Option Nat} {inside : Open → Writing Open}
    (h : ∀ marks, Restores (inside marks) marks) (marks : Open) :
    Restores (enclosed o number? inside marks) marks := by
  cases number? with
  | none => exact h marks
  | some n =>
      rw [enclosed]
      split
      · exact h marks
      · split
        · exact restores_fail _ marks
        · refine restores_bind fun opened hopened after hafter => ?_
          obtain rfl := h (n :: marks) opened hopened
          rw [List.erase_cons_head] at hafter
          exact (Except.ok.inj hafter).symm

section Parts

variable {write : ρ → Open → Writing Open} (hwrite : ∀ v marks, Restores (write v marks) marks)
include hwrite

theorem restores_writeItems (isFirst : Bool) (vs : List ρ) (marks : Open) :
    Restores (writeItems write isFirst vs marks) marks := by
  induction vs generalizing isFirst with
  | nil => exact fun _ h => (Except.ok.inj h).symm
  | cons v vs ih =>
      rw [writeItems_cons_eq]
      refine restores_bind fun _ _ => restores_bind fun after hafter => ?_
      obtain rfl := hwrite v marks after hafter
      exact ih false

theorem restores_writeFields (isFirst : Bool) (fs : List (Key × ρ)) (marks : Open) :
    Restores (writeFields o write isFirst fs marks) marks := by
  induction fs generalizing isFirst with
  | nil => exact fun _ h => (Except.ok.inj h).symm
  | cons f fs ih =>
      obtain ⟨k, v⟩ := f
      refine restores_bind fun key? _ => ?_
      cases key? with
      | none => exact ih isFirst
      | some key =>
          have hlater : Restores (do
              Trace.say (← (writtenString o key : Except WriteFault Text))
              Trace.say (lit ":")
              let marks ← write v marks
              writeFields o write false fs marks) marks := by
            refine restores_bind fun _ _ => restores_bind fun _ _ => restores_bind fun _ _ =>
              restores_bind fun after hafter => ?_
            obtain rfl := hwrite v marks after hafter
            exact ih false
          cases isFirst with
          | true => exact hlater
          | false => exact restores_bind fun _ _ => hlater

end Parts

theorem restores_writeForeign {again : Open → Writing Open}
    (h : ∀ marks, Restores (again marks) marks) (name : Text) (marks : Open) :
    Restores (writeForeign o name again marks) marks := by
  rw [writeForeign.eq_def]
  split
  · exact restores_fail _ marks
  · refine restores_bind fun _ _ => restores_bind fun _ _ => restores_bind fun _ _ =>
      restores_bind fun _ _ => restores_bind fun _ _ => restores_bind fun _ _ => ?_
    exact restores_say _ marks
  · exact restores_between (h marks) _ _

/-- No container is left open. -/
theorem restores_writeValue (s : Store ρ) (fuel : Nat) :
    ∀ (v : ρ) (marks : Open), Restores (writeValue s o fuel v marks) marks := by
  induction fuel with
  | zero => exact fun v marks => restores_fail _ marks
  | succ fuel ih =>
      intro v marks
      rw [writeValue.eq_def]
      simp only
      split
      · exact restores_enclosed (restores_writeForeign (ih v) _) marks
      · exact restores_bind fun _ _ => restores_say _ marks
      · exact restores_say _ marks
      · exact restores_enclosed (fun marks => restores_between (restores_writeItems ih _ _ marks) _ _) marks
      · exact restores_say _ marks
      · exact restores_enclosed (fun marks => restores_between (restores_writeFields ih _ _ marks) _ _) marks

/-! ## Blocks -/

/-- Keys that have a text: those that are neither tuples nor foreign objects. -/
def Key.hasText : Key → Bool
  | .atom (.foreign _) => false
  | .atom _ => true
  | .tuple _ => false

/-- The second value is directly inside the first one, in a place that is written. -/
inductive Store.HasPart (s : Store ρ) (v w : ρ) : Prop
  | item {parts : List ρ} (hs : s.shape v = .items parts) (hw : w ∈ parts)
  | field {parts : List (Key × ρ)} {k : Key} (hs : s.shape v = .fields parts) (hw : (k, w) ∈ parts)
      (hk : k.hasText = true)

/-- The first writing completes, and its chunks are a block of those of the second one. -/
structure IsBlock (chunks : List Text) (part whole : Writing Open) : Prop where
  completes : part.Completes
  infix_log : chunks ++ part.log <:+: whole.log

theorem IsBlock.trans {chunks : List Text} {w part whole : Writing Open} (h : IsBlock chunks w part)
    (h' : IsBlock [] part whole) : IsBlock chunks w whole :=
  ⟨h.completes, h.infix_log.trans h'.infix_log⟩

theorem infix_log_between {w : Writing Open} (h : w.Completes) (left right : Text) :
    w.log <:+: (between left right w).log := by
  obtain ⟨after, hafter⟩ := h
  refine ⟨[left], [right], ?_⟩
  rw [between, Trace.say_eq, Trace.bind_ok, Trace.log_bind hafter]
  simp

theorem completes_of_between {w : Writing Open} {left right : Text} (h : (between left right w).Completes) :
    w.Completes := by
  obtain ⟨after, hafter⟩ := h
  obtain ⟨-, -, hinside⟩ := Trace.result_bind_eq_ok.1 hafter
  obtain ⟨marks, hmarks, -⟩ := Trace.result_bind_eq_ok.1 hinside
  exact ⟨marks, hmarks⟩

/-- What is inside a container is all that is written for it. -/
theorem exists_inside_of_enclosed {number? : Option Nat} {inside : Open → Writing Open}
    (h : (enclosed o number? inside marks).Completes) :
    ∃ opened, (inside opened).Completes ∧ (enclosed o number? inside marks).log = (inside opened).log := by
  cases number? with
  | none => exact ⟨marks, h, rfl⟩
  | some n =>
      rw [enclosed] at h ⊢
      split
      · rename_i hcheck
        rw [if_pos hcheck] at h
        exact ⟨marks, h, rfl⟩
      · rename_i hcheck
        rw [if_neg hcheck] at h
        split
        · rename_i hopen
          rw [if_pos hopen] at h
          obtain ⟨after, hafter⟩ := h
          contradiction
        · rename_i hopen
          rw [if_neg hopen] at h
          obtain ⟨after, hafter⟩ := h
          obtain ⟨opened, hopened, -⟩ := Trace.result_bind_eq_ok.1 hafter
          refine ⟨n :: marks, ⟨opened, hopened⟩, ?_⟩
          rw [Trace.log_bind hopened, Trace.pure_eq, List.append_nil]

theorem exists_block_of_mem_items {write : ρ → Open → Writing Open} {vs : List ρ} {w : ρ} (hw : w ∈ vs)
    {isFirst : Bool} {marks : Open} (h : (writeItems write isFirst vs marks).Completes) :
    ∃ marks', IsBlock [] (write w marks') (writeItems write isFirst vs marks) := by
  induction vs generalizing isFirst marks with
  | nil => contradiction
  | cons v vs ih =>
      rw [writeItems_cons_eq] at h ⊢
      obtain ⟨after, hafter⟩ := h
      obtain ⟨-, -, hparts⟩ := Trace.result_bind_eq_ok.1 hafter
      obtain ⟨middle, hv, hvs⟩ := Trace.result_bind_eq_ok.1 hparts
      rw [Trace.bind_ok, Trace.log_bind hv]
      rcases List.mem_cons.1 hw with rfl | hw
      · exact ⟨marks, ⟨middle, hv⟩, separator isFirst, _, by rw [List.nil_append, List.append_assoc]⟩
      · obtain ⟨marks', hcompletes, hblock⟩ := ih hw ⟨after, hvs⟩
        refine ⟨marks', hcompletes, hblock.trans ?_⟩
        rw [← List.append_assoc]
        exact (List.suffix_append _ _).isInfix

/-- Without a text a key is left out or refused. -/
theorem keyText_of_hasText_eq_false {k : Key} (hk : k.hasText = false) :
    keyText o k = if o.skipKeys then .ok none else .error (.key k) := by
  cases k with
  | tuple ks => rfl
  | atom a =>
      cases a with
      | foreign name => rfl
      | _ => contradiction

/-- A key with a text is never left out. -/
theorem keyText_ne_none {k : Key} (hk : k.hasText = true) : keyText o k ≠ .ok none := by
  intro hnone
  cases k with
  | tuple ks => contradiction
  | atom a =>
      cases a with
      | foreign name => contradiction
      | float x odd =>
          obtain ⟨t, -, ht⟩ := except_map_eq_ok.1 hnone
          contradiction
      | _ => simp [keyText] at hnone

/-- An entry of a dictionary is written as its key, a colon and its value. -/
theorem exists_entry_of_mem {write : ρ → Open → Writing Open} {fs : List (Key × ρ)} {k : Key} {w : ρ}
    (hw : (k, w) ∈ fs) (hk : k.hasText = true) {isFirst : Bool} {marks : Open}
    (h : (writeFields o write isFirst fs marks).Completes) :
    ∃ key t marks', keyText o k = .ok (some key) ∧ writtenString o key = .ok t ∧
      IsBlock [t, lit ":"] (write w marks') (writeFields o write isFirst fs marks) := by
  induction fs generalizing isFirst marks with
  | nil => contradiction
  | cons f fs ih =>
      obtain ⟨l, v⟩ := f
      obtain ⟨after, hafter⟩ := h
      obtain ⟨key?, hkey, hwritten⟩ := Trace.result_bind_eq_ok.1 hafter
      have hkey : keyText o l = .ok key? := hkey
      cases key? with
      | none =>
          -- an entry that is left out is not the one that is looked for
          rw [writeFields_cons_of_none write isFirst hkey] at hafter ⊢
          rcases List.mem_cons.1 hw with heq | hw
          · obtain ⟨rfl, rfl⟩ := Prod.mk.inj heq
            exact absurd hkey (keyText_ne_none hk)
          · exact ih hw ⟨after, hafter⟩
      | some key =>
          obtain ⟨t, ht⟩ : ∃ t, writtenString o key = .ok t := by
            cases hstring : writtenString o key with
            | ok t => exact ⟨t, rfl⟩
            | error e =>
                simp only [hstring] at hwritten
                cases isFirst <;> simp at hwritten
          rw [writeFields_cons_of_some write isFirst hkey ht] at hafter ⊢
          obtain ⟨-, -, hparts⟩ := Trace.result_bind_eq_ok.1 hafter
          obtain ⟨middle, hv, hfs⟩ := Trace.result_bind_eq_ok.1 hparts
          rcases List.mem_cons.1 hw with heq | hw
          · obtain ⟨rfl, rfl⟩ := Prod.mk.inj heq
            refine ⟨key, t, marks, hkey, ht, ⟨middle, hv⟩, ?_⟩
            rw [Trace.bind_ok, Trace.log_bind hv, ← List.append_assoc, List.append_assoc (separator _)]
            exact List.infix_append _ _ _
          · obtain ⟨key', t', marks', hkey', ht', hcompletes, hblock⟩ := ih hw ⟨after, hfs⟩
            refine ⟨key', t', marks', hkey', ht', hcompletes, hblock.trans ?_⟩
            rw [Trace.bind_ok, Trace.log_bind hv, ← List.append_assoc]
            exact (List.suffix_append _ _).isInfix

section Values

variable {s : Store ρ} {fuel : Nat} {u v w : ρ}

theorem exists_succ_of_completes (h : (writeValue s o fuel v marks).Completes) : ∃ n, fuel = n + 1 := by
  cases fuel with
  | succ n => exact ⟨n, rfl⟩
  | zero =>
      obtain ⟨after, hafter⟩ := h
      contradiction

/-- An entry of a dictionary is written inside the chunks of the dictionary. -/
theorem exists_entry_of_fields (h : (writeValue s o fuel v marks).Completes) {fields : List (Key × ρ)}
    (hs : s.shape v = .fields fields) {k : Key} (hw : (k, w) ∈ fields) (hk : k.hasText = true) :
    ∃ key t fuel' marks', keyText o k = .ok (some key) ∧ writtenString o key = .ok t ∧
      IsBlock [t, lit ":"] (writeValue s o fuel' w marks') (writeValue s o fuel v marks) := by
  obtain ⟨fuel, rfl⟩ := exists_succ_of_completes h
  rw [writeValue_fields hs (List.ne_nil_of_mem hw)] at h ⊢
  obtain ⟨opened, hinside, hlog⟩ := exists_inside_of_enclosed h
  have hfields := completes_of_between hinside
  obtain ⟨key, t, marks', hkey, ht, hcompletes, hblock⟩ := exists_entry_of_mem hw hk hfields
  refine ⟨key, t, fuel, marks', hkey, ht, hcompletes, ?_⟩
  rw [hlog]
  exact hblock.trans (infix_log_between hfields _ _)

/-- A value inside another one is written inside its chunks. -/
theorem exists_block_of_hasPart (h : (writeValue s o fuel v marks).Completes) (hpart : s.HasPart v w) :
    ∃ fuel' marks', IsBlock [] (writeValue s o fuel' w marks') (writeValue s o fuel v marks) := by
  cases hpart with
  | item hs hw =>
      obtain ⟨fuel, rfl⟩ := exists_succ_of_completes h
      rw [writeValue_items hs (List.ne_nil_of_mem hw)] at h ⊢
      obtain ⟨opened, hinside, hlog⟩ := exists_inside_of_enclosed h
      have hitems := completes_of_between hinside
      obtain ⟨marks', hcompletes, hblock⟩ := exists_block_of_mem_items hw hitems
      refine ⟨fuel, marks', hcompletes, ?_⟩
      rw [hlog]
      exact hblock.trans (infix_log_between hitems _ _)
  | field hs hw hk =>
      obtain ⟨key, t, fuel', marks', -, -, hcompletes, hblock⟩ := exists_entry_of_fields h hs hw hk
      exact ⟨fuel', marks', hcompletes, (List.suffix_append _ _).isInfix.trans hblock⟩

/-- A value that is reached from another one is written inside its chunks, however deep it lies. -/
theorem exists_block_of_reaches (h : (writeValue s o fuel v marks).Completes)
    (hreach : ReflTransGen s.HasPart v u) :
    ∃ fuel' marks', IsBlock [] (writeValue s o fuel' u marks') (writeValue s o fuel v marks) := by
  induction hreach with
  | refl => exact ⟨fuel, marks, h, List.infix_rfl⟩
  | tail _ hpart ih =>
      obtain ⟨fuel', marks', hblock⟩ := ih
      obtain ⟨fuel'', marks'', hlast⟩ := exists_block_of_hasPart hblock.completes hpart
      exact ⟨fuel'', marks'', hlast.trans hblock⟩

end Values

end Wire

end ModuleStubs
