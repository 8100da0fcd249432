import ModuleStubs.Trace

/-!
# Progress

A change of a value that can stop midway: the value as far as it was changed,
what was logged, and what stopped the change, if anything did. `Progress.run`
makes a list of changes one after the other, `Progress.walk` changes the elements
of a list one after the other. Both stop at the first failure and keep what was
changed before it (`walk_length` says that no element is lost).
-/

set_option autoImplicit false

namespace ModuleStubs

/-- A value as far as it was changed. -/
structure Progress (μ ε α : Type) where
  value : α
  log : List μ
  failure : Option ε

namespace Progress

variable {μ ε α β : Type}

/-- No change. -/
def done (a : α) : Progress μ ε α := ⟨a, [], none⟩

/-- No change because of a failure. -/
def stopped (a : α) (e : ε) : Progress μ ε α := ⟨a, [], some e⟩

/-- A change that is made at once: the value stays as it was if it fails. -/
def step (f : α → Trace μ ε α) (a : α) : Progress μ ε α :=
  match f a with
  | ⟨log, .ok b⟩ => ⟨b, log, none⟩
  | ⟨log, .error e⟩ => ⟨a, log, some e⟩

/-- One change after the other. -/
def andThen (p : Progress μ ε α) (f : α → Progress μ ε α) : Progress μ ε α :=
  match p.failure with
  | some _ => p
  | none =>
    let q := f p.value
    ⟨q.value, p.log ++ q.log, q.failure⟩

/-- The changed value seen as part of something else. -/
def map (f : α → β) (p : Progress μ ε α) : Progress μ ε β := ⟨f p.value, p.log, p.failure⟩

/-- Changes one after the other. -/
def run : List (α → Progress μ ε α) → α → Progress μ ε α
  | [], a => done a
  | f :: fs, a => (f a).andThen (run fs)

/-- The elements of a list changed one after the other. -/
def walk (f : α → Progress μ ε α) : List α → Progress μ ε (List α)
  | [] => done []
  | a :: as =>
    let p := f a
    match p.failure with
    | some e => ⟨p.value :: as, p.log, some e⟩
    | none =>
      let q := walk f as
      ⟨p.value :: q.value, p.log ++ q.log, q.failure⟩

/-! ## Laws -/

@[simp] theorem run_nil (a : α) : run ([] : List (α → Progress μ ε α)) a = done a := rfl

@[simp] theorem run_cons (f : α → Progress μ ε α) (fs : List (α → Progress μ ε α)) (a : α) :
    run (f :: fs) a = (f a).andThen (run fs) := rfl

/-- Walking a list neither drops nor adds an element. -/
theorem walk_length (f : α → Progress μ ε α) (as : List α) :
    (walk f as).value.length = as.length := by
  induction as with
  | nil => rfl
  | cons a as ih =>
    rw [walk]
    cases h : (f a).failure with
    | some e => simp
    | none => simp [ih]

end Progress

end ModuleStubs
