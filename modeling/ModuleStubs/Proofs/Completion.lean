import ModuleStubs.Progress

/-!
# Computations that complete

A trace or a change that ends without a failure is the sum of its parts: each part ended without a
failure, the values are those of the parts, and the logs follow one another. The lemmas here peel
such computations apart, one for each way in which they are put together
(`Trace.result_bind_eq_ok`, `Trace.result_each_eq_ok`, `Progress.failure_andThen_eq_none`,
`Progress.failure_walk_eq_none`).
-/

set_option autoImplicit false

namespace ModuleStubs

/-- Two steps one after the other give a result if both do. -/
theorem except_bind_eq_ok {ε α β : Type} {x : Except ε α} {f : α → Except ε β} {b : β} :
    x >>= f = .ok b ↔ ∃ a, x = .ok a ∧ f a = .ok b := by
  cases x with
  | error e => simp [bind, Except.bind]
  | ok a => simp [bind, Except.bind]

theorem except_map_eq_ok {ε α β : Type} {x : Except ε α} {f : α → β} {b : β} :
    x.map f = .ok b ↔ ∃ a, x = .ok a ∧ f a = b := by
  cases x with
  | error e => simp [Except.map]
  | ok a => simp [Except.map]

@[simp] theorem except_mapError_ok {ε ε' α : Type} (f : ε → ε') (a : α) :
    (Except.ok a : Except ε α).mapError f = .ok a := rfl

@[simp] theorem except_mapError_error {ε ε' α : Type} (f : ε → ε') (e : ε) :
    (Except.error e : Except ε α).mapError f = .error (f e) := rfl

/-- Two steps one after the other fail if one of them does. -/
theorem except_bind_eq_error {ε α β : Type} {x : Except ε α} {f : α → Except ε β} {e : ε} :
    (x >>= f) = .error e ↔ x = .error e ∨ ∃ a, x = .ok a ∧ f a = .error e := by
  cases x <;> simp [bind, Except.bind]

theorem except_map_eq_error {ε α β : Type} {x : Except ε α} {f : α → β} {e : ε} :
    x.map f = .error e ↔ x = .error e := by
  cases x <;> simp [Except.map]

/-- A list computed element by element has an origin for each element. -/
theorem exists_of_mem_mapM {α β ε : Type} {g : α → Except ε β} {as : List α} {bs : List β}
    (h : as.mapM g = .ok bs) : ∀ b ∈ bs, ∃ a ∈ as, g a = .ok b := by
  induction as generalizing bs with
  | nil =>
      obtain rfl := Except.ok.inj h
      exact nofun
  | cons a as ih =>
      rw [List.mapM_cons] at h
      obtain ⟨b, hb, h⟩ := except_bind_eq_ok.1 h
      obtain ⟨rest, hrest, h⟩ := except_bind_eq_ok.1 h
      obtain rfl := Except.ok.inj h
      intro c hc
      rcases List.mem_cons.1 hc with rfl | hc
      · exact ⟨a, List.mem_cons_self, hb⟩
      · obtain ⟨a', ha', hg⟩ := ih hrest c hc
        exact ⟨a', List.mem_cons_of_mem a ha', hg⟩

/-- Whether a computation without a result completes can be decided. -/
instance decidableEqOk {ε : Type} (x : Except ε Unit) : Decidable (x = .ok ()) :=
  match x with
  | .ok () => isTrue rfl
  | .error _ => isFalse (by simp)

/-- A closed computation is evaluated to a value, which is compared. -/
theorem except_eq_ok_of_toOption {ε α : Type} {x : Except ε α} {a : α} (h : x.toOption = some a) :
    x = .ok a := by
  cases x with
  | error e => contradiction
  | ok b => rw [Option.some.inj h]

namespace Trace

variable {μ ε α β : Type}

@[simp] theorem liftM_eq (r : Except ε α) : (liftM r : Trace μ ε α) = ⟨[], r⟩ := rfl

theorem liftM_ok (a : α) : (liftM (.ok a : Except ε α) : Trace μ ε α) = pure a := rfl

theorem liftM_error_bind (e : ε) (f : α → Trace μ ε β) :
    ((liftM (.error e : Except ε α) : Trace μ ε α) >>= f) = fail e := rfl

@[simp] theorem say_eq (entry : μ) : (say entry : Trace μ ε Unit) = ⟨[entry], .ok ()⟩ := rfl

@[simp] theorem fail_eq (e : ε) : (fail e : Trace μ ε α) = ⟨[], .error e⟩ := rfl

/-- The result of two computations one after the other follows from their results. -/
theorem result_bind (x : Trace μ ε α) (f : α → Trace μ ε β) :
    (x >>= f).result = x.result.bind fun a => (f a).result := by
  obtain ⟨log, r⟩ := x
  cases r <;> rfl

/-- Two computations one after the other complete if both do. -/
theorem result_bind_eq_ok {x : Trace μ ε α} {f : α → Trace μ ε β} {b : β} :
    (x >>= f).result = .ok b ↔ ∃ a, x.result = .ok a ∧ (f a).result = .ok b := by
  obtain ⟨log, r⟩ := x
  cases r with
  | error e => simp
  | ok a => simp

/-- Two computations one after the other fail if one of them does. -/
theorem result_bind_eq_error {x : Trace μ ε α} {f : α → Trace μ ε β} {e : ε} :
    (x >>= f).result = .error e ↔
      x.result = .error e ∨ ∃ a, x.result = .ok a ∧ (f a).result = .error e := by
  obtain ⟨log, r⟩ := x
  cases r with
  | error e' => simp
  | ok a => simp

/-- A list computed element by element holds what the elements give, and nothing else. -/
theorem mem_of_mapM {f : α → Trace μ ε β} {as : List α} {bs : List β}
    (h : (as.mapM f).result = .ok bs) {b : β} : b ∈ bs ↔ ∃ a ∈ as, (f a).result = .ok b := by
  induction as generalizing bs with
  | nil =>
      obtain rfl := Except.ok.inj h
      simp
  | cons a as ih =>
      rw [List.mapM_cons] at h
      obtain ⟨c, hc, h⟩ := result_bind_eq_ok.1 h
      obtain ⟨rest, hrest, h⟩ := result_bind_eq_ok.1 h
      obtain rfl := Except.ok.inj h
      simp [ih hrest, hc, eq_comm]

/-- A list can be computed element by element if each of the elements gives a result. -/
theorem mapM_completes_iff {f : α → Trace μ ε β} {as : List α} :
    (∃ bs, (as.mapM f).result = .ok bs) ↔ ∀ a ∈ as, ∃ b, (f a).result = .ok b := by
  induction as with
  | nil => exact iff_of_true ⟨[], rfl⟩ (by simp)
  | cons a as ih =>
      rw [List.forall_mem_cons, ← ih, List.mapM_cons]
      constructor
      · rintro ⟨bs, h⟩
        obtain ⟨b, hb, h⟩ := result_bind_eq_ok.1 h
        obtain ⟨rest, hrest, -⟩ := result_bind_eq_ok.1 h
        exact ⟨⟨b, hb⟩, rest, hrest⟩
      · rintro ⟨⟨b, hb⟩, rest, hrest⟩
        exact ⟨b :: rest, result_bind_eq_ok.2 ⟨b, hb, result_bind_eq_ok.2 ⟨rest, hrest, rfl⟩⟩⟩

theorem log_mapM {f : α → Trace μ ε β} {as : List α} {bs : List β}
    (h : (as.mapM f).result = .ok bs) : (as.mapM f).log = as.flatMap fun a => (f a).log := by
  induction as generalizing bs with
  | nil => rfl
  | cons a as ih =>
      rw [List.mapM_cons] at h ⊢
      obtain ⟨b, hb, h⟩ := result_bind_eq_ok.1 h
      obtain ⟨rest, hrest, -⟩ := result_bind_eq_ok.1 h
      rw [log_bind hb, log_bind hrest, ih hrest, List.flatMap_cons]
      simp

/-- A list computed element by element fails as one of its elements does. -/
theorem exists_of_mapM_eq_error {f : α → Trace μ ε β} {as : List α} {e : ε}
    (h : (as.mapM f).result = .error e) : ∃ a ∈ as, (f a).result = .error e := by
  induction as with
  | nil => contradiction
  | cons a as ih =>
      rw [List.mapM_cons] at h
      rcases result_bind_eq_error.1 h with ha | ⟨b, -, h⟩
      · exact ⟨a, List.mem_cons_self, ha⟩
      · rcases result_bind_eq_error.1 h with hrest | ⟨bs, -, h⟩
        · obtain ⟨a', ha', heq⟩ := ih hrest
          exact ⟨a', List.mem_cons_of_mem a ha', heq⟩
        · contradiction

theorem mapM_congr {f g : α → Trace μ ε β} {as : List α} (h : ∀ a ∈ as, f a = g a) :
    as.mapM f = as.mapM g := by
  induction as with
  | nil => rfl
  | cons a as ih =>
      rw [List.mapM_cons, List.mapM_cons, h a List.mem_cons_self,
        ih fun b hb => h b (List.mem_cons_of_mem a hb)]

/-- A computation that completes is its result with its log. -/
theorem eq_of_result {x : Trace μ ε α} {a : α} (h : x.result = .ok a) : x = ⟨x.log, .ok a⟩ := by
  rw [← h]

theorem result_bind_of_ok {x : Trace μ ε α} {a : α} (h : x.result = .ok a)
    (f : α → Trace μ ε β) : (x >>= f).result = (f a).result := by
  rw [result_bind, h]
  rfl

/-- The computation gives a result. -/
def Completes (x : Trace μ ε α) : Prop := ∃ a, x.result = .ok a

theorem completes_pure (a : α) : (pure a : Trace μ ε α).Completes := ⟨a, rfl⟩

theorem completes_bind {x : Trace μ ε α} {f : α → Trace μ ε β} (hx : x.Completes)
    (hf : ∀ a, (f a).Completes) : (x >>= f).Completes := by
  obtain ⟨a, ha⟩ := hx
  obtain ⟨b, hb⟩ := hf a
  exact ⟨b, result_bind_eq_ok.2 ⟨a, ha, hb⟩⟩

/-- What holds of all entries of two computations holds of those of both, one after the other. -/
theorem forall_mem_log_bind_ok {P : μ → Prop} {x : Trace μ ε α} {f : α → Trace μ ε β}
    (hx : ∀ e ∈ x.log, P e) (hf : ∀ a, x.result = .ok a → ∀ e ∈ (f a).log, P e) :
    ∀ e ∈ (x >>= f).log, P e := by
  obtain ⟨log, r⟩ := x
  cases r with
  | error e => exact hx
  | ok a =>
      intro e he
      rcases List.mem_append.1 he with he | he
      · exact hx e he
      · exact hf a rfl e he

theorem forall_mem_log_bind {P : μ → Prop} {x : Trace μ ε α} {f : α → Trace μ ε β}
    (hx : ∀ e ∈ x.log, P e) (hf : ∀ a, ∀ e ∈ (f a).log, P e) : ∀ e ∈ (x >>= f).log, P e :=
  forall_mem_log_bind_ok hx fun a _ => hf a

@[simp] theorem each_nil (f : α → Trace μ ε Unit) : each f [] = ⟨[], .ok ()⟩ := rfl

@[simp] theorem each_cons (f : α → Trace μ ε Unit) (a : α) (as : List α) :
    each f (a :: as) = f a >>= fun _ => each f as := rfl

theorem each_append (f : α → Trace μ ε Unit) (as bs : List α) :
    each f (as ++ bs) = each f as >>= fun _ => each f bs := by
  induction as with
  | nil => simp
  | cons a as ih => rw [List.cons_append, each_cons, each_cons, ih, bind_assoc]

/-- A computation for each element completes if it does for every element. -/
theorem forall_mem_log_each {P : μ → Prop} {f : α → Trace μ ε Unit} {as : List α}
    (h : ∀ a ∈ as, ∀ e ∈ (f a).log, P e) : ∀ e ∈ (each f as).log, P e := by
  induction as with
  | nil => simp
  | cons a as ih =>
      exact forall_mem_log_bind (h a List.mem_cons_self) fun _ =>
        ih fun b hb => h b (List.mem_cons_of_mem a hb)

theorem result_each_eq_ok {f : α → Trace μ ε Unit} {as : List α} :
    (each f as).result = .ok () ↔ ∀ a ∈ as, (f a).result = .ok () := by
  induction as with
  | nil => simp
  | cons a as ih =>
      rw [each_cons, result_bind_eq_ok, List.forall_mem_cons, ← ih]
      constructor
      · rintro ⟨⟨⟩, ha, has⟩
        exact ⟨ha, has⟩
      · rintro ⟨ha, has⟩
        exact ⟨(), ha, has⟩

/-- It logs what it logs for the elements, one after the other. -/
theorem log_each {f : α → Trace μ ε Unit} {as : List α}
    (h : ∀ a ∈ as, (f a).result = .ok ()) : (each f as).log = as.flatMap fun a => (f a).log := by
  induction as with
  | nil => rfl
  | cons a as ih =>
      have ha := h a List.mem_cons_self
      rw [each_cons, log_bind ha, ih fun b hb => h b (List.mem_cons_of_mem _ hb), List.flatMap_cons]

end Trace

namespace Progress

variable {μ ε α β : Type}

@[simp] theorem failure_map (f : α → β) (p : Progress μ ε α) : (p.map f).failure = p.failure := rfl

@[simp] theorem value_map (f : α → β) (p : Progress μ ε α) : (p.map f).value = f p.value := rfl

@[simp] theorem log_map (f : α → β) (p : Progress μ ε α) : (p.map f).log = p.log := rfl

/-! ## Changes made at once -/

theorem failure_step_eq_none {f : α → Trace μ ε α} {a : α} :
    (step f a).failure = none ↔ ∃ b, (f a).result = .ok b := by
  rw [step]
  rcases f a with ⟨log, r⟩
  cases r with
  | error e => simp
  | ok b => simp

theorem step_of_ok {f : α → Trace μ ε α} {a b : α} (h : (f a).result = .ok b) :
    step f a = ⟨b, (f a).log, none⟩ := by
  rw [step, Trace.eq_of_result h]

/-! ## Changes one after the other -/

theorem failure_andThen_eq_none {p : Progress μ ε α} {f : α → Progress μ ε α} :
    (p.andThen f).failure = none ↔ p.failure = none ∧ (f p.value).failure = none := by
  rw [andThen]
  cases hp : p.failure with
  | some e => simp [hp]
  | none => simp

theorem andThen_of_completed {p : Progress μ ε α} (h : p.failure = none)
    (f : α → Progress μ ε α) :
    p.andThen f = ⟨(f p.value).value, p.log ++ (f p.value).log, (f p.value).failure⟩ := by
  rw [andThen, h]

/-- What every change of a list preserves is preserved by all of them together. -/
theorem run_invariant {P : α → Prop} {fs : List (α → Progress μ ε α)}
    (hstep : ∀ f ∈ fs, ∀ a, P a → (f a).failure = none → P (f a).value) {a : α} (ha : P a)
    (h : (run fs a).failure = none) : P (run fs a).value := by
  induction fs generalizing a with
  | nil => exact ha
  | cons f fs ih =>
      rw [run_cons] at h ⊢
      obtain ⟨hf, hfs⟩ := failure_andThen_eq_none.1 h
      rw [andThen_of_completed hf]
      exact ih (fun g hg => hstep g (List.mem_cons_of_mem _ hg))
        (hstep f List.mem_cons_self a ha hf) hfs

/-! ## Entries of the log -/

theorem forall_mem_log_step {P : μ → Prop} {f : α → Trace μ ε α} {a : α}
    (h : ∀ e ∈ (f a).log, P e) : ∀ e ∈ (step f a).log, P e := by
  rw [step]
  rcases hf : f a with ⟨log, r⟩
  rw [hf] at h
  cases r with
  | error e => exact h
  | ok b => exact h

theorem forall_mem_log_run {P : μ → Prop} {fs : List (α → Progress μ ε α)}
    (h : ∀ f ∈ fs, ∀ a, ∀ e ∈ (f a).log, P e) : ∀ a, ∀ e ∈ (run fs a).log, P e := by
  induction fs with
  | nil => simp [done]
  | cons f fs ih =>
      intro a
      have hf := h f List.mem_cons_self a
      -- a change that fails ends the log with its own entries
      rw [run_cons, andThen]
      cases (f a).failure with
      | some e => exact hf
      | none =>
          intro e he
          rcases List.mem_append.1 he with he | he
          · exact hf e he
          · exact ih (fun g hg => h g (List.mem_cons_of_mem _ hg)) _ e he

theorem forall_mem_log_walk {P : μ → Prop} {f : α → Progress μ ε α}
    (h : ∀ a, ∀ e ∈ (f a).log, P e) (as : List α) : ∀ e ∈ (walk f as).log, P e := by
  induction as with
  | nil => simp [walk, done]
  | cons a as ih =>
      rw [walk]
      cases (f a).failure with
      | some e => exact h a
      | none =>
          intro e he
          rcases List.mem_append.1 he with he | he
          · exact h a e he
          · exact ih e he

/-! ## The elements of a list -/

theorem walk_cons_of_completed {f : α → Progress μ ε α} {a : α} (h : (f a).failure = none)
    (as : List α) :
    walk f (a :: as) =
      ⟨(f a).value :: (walk f as).value, (f a).log ++ (walk f as).log, (walk f as).failure⟩ := by
  rw [walk, h]

/-- A walk completes if the change of every element does. -/
theorem failure_walk_eq_none {f : α → Progress μ ε α} {as : List α} :
    (walk f as).failure = none ↔ ∀ a ∈ as, (f a).failure = none := by
  induction as with
  | nil => simp [walk, done]
  | cons a as ih =>
      cases ha : (f a).failure with
      | some e => simp [walk, ha]
      | none => rw [walk_cons_of_completed ha]; simp [ha, ih]

/-- Its value has the changed elements in their places. -/
theorem value_walk {f : α → Progress μ ε α} {as : List α} (h : ∀ a ∈ as, (f a).failure = none) :
    (walk f as).value = as.map fun a => (f a).value := by
  induction as with
  | nil => rfl
  | cons a as ih =>
      rw [walk_cons_of_completed (h a List.mem_cons_self), List.map_cons,
        ← ih fun b hb => h b (List.mem_cons_of_mem _ hb)]

/-- Its log has the logs of the changes in the order of the elements. -/
theorem log_walk {f : α → Progress μ ε α} {as : List α} (h : ∀ a ∈ as, (f a).failure = none) :
    (walk f as).log = as.flatMap fun a => (f a).log := by
  induction as with
  | nil => rfl
  | cons a as ih =>
      rw [walk_cons_of_completed (h a List.mem_cons_self), List.flatMap_cons,
        ← ih fun b hb => h b (List.mem_cons_of_mem _ hb)]

end Progress

end ModuleStubs
