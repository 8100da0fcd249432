/-!
# Traces

A computation that leaves a log, also when it fails: what was logged before a
failure stays. Two computations one after the other log what they log, one after
the other (`log_bind`). Where the log goes out entry by entry and an entry is refused,
the computation ends there (`stopAt`); whether each part of it is stopped or the whole
makes no difference (`stopAt_bind`).
-/

set_option autoImplicit false

namespace ModuleStubs

/-- A log and a result. -/
structure Trace (μ ε α : Type) where
  log : List μ
  result : Except ε α

namespace Trace

variable {μ ε α β : Type}

/-- Nothing logged. -/
protected def pure (a : α) : Trace μ ε α := ⟨[], .ok a⟩

/-- One after the other; a failure ends the computation. -/
protected def bind (x : Trace μ ε α) (f : α → Trace μ ε β) : Trace μ ε β :=
  match x.result with
  | .ok a =>
    let y := f a
    ⟨x.log ++ y.log, y.result⟩
  | .error e => ⟨x.log, .error e⟩

instance : Monad (Trace μ ε) where
  pure := Trace.pure
  bind := Trace.bind

/-- An entry of the log. -/
def say (entry : μ) : Trace μ ε Unit := ⟨[entry], .ok ()⟩

/-- A failure. -/
def fail (e : ε) : Trace μ ε α := ⟨[], .error e⟩

/-- A result with nothing logged. -/
def lift (r : Except ε α) : Trace μ ε α := ⟨[], r⟩

instance : MonadLift (Except ε) (Trace μ ε) := ⟨lift⟩

/-- The computation with its log entries renamed. -/
def mapLog {ν : Type} (f : μ → ν) (x : Trace μ ε α) : Trace ν ε α := ⟨x.log.map f, x.result⟩

/-- The same computation for each element in turn. -/
def each (f : α → Trace μ ε Unit) : List α → Trace μ ε Unit
  | [] => pure ()
  | a :: as => do
    f a
    each f as

/-- Entries that go out one after the other, and what comes of it, up to the first one
that is refused. -/
def emit (refusal : μ → Option ε) : List μ → Except ε α → Trace μ ε α
  | [], r => ⟨[], r⟩
  | m :: log, r =>
    match refusal m with
    | some e => ⟨[], .error e⟩
    | none => ⟨m :: (emit refusal log r).log, (emit refusal log r).result⟩

/-- The computation up to the first entry that is refused. -/
def stopAt (refusal : μ → Option ε) (x : Trace μ ε α) : Trace μ ε α := emit refusal x.log x.result

/-! ## Laws -/

@[simp] theorem pure_eq (a : α) : (pure a : Trace μ ε α) = ⟨[], .ok a⟩ := rfl

theorem bind_eq (x : Trace μ ε α) (f : α → Trace μ ε β) : (x >>= f) = Trace.bind x f := rfl

@[simp] theorem bind_ok (log : List μ) (a : α) (f : α → Trace μ ε β) :
    ((⟨log, .ok a⟩ : Trace μ ε α) >>= f) = ⟨log ++ (f a).log, (f a).result⟩ := rfl

@[simp] theorem bind_error (log : List μ) (e : ε) (f : α → Trace μ ε β) :
    ((⟨log, .error e⟩ : Trace μ ε α) >>= f) = ⟨log, .error e⟩ := rfl

/-- A computation that succeeds logs its own entries before those of the next. -/
theorem log_bind {x : Trace μ ε α} {a : α} (h : x.result = .ok a) (f : α → Trace μ ε β) :
    (x >>= f).log = x.log ++ (f a).log := by
  rw [bind_eq, Trace.bind, h]

theorem map_id (x : Trace μ ε α) : id <$> x = x := by
  obtain ⟨log, r⟩ := x
  cases r <;> simp [Functor.map, Trace.bind, Trace.pure]

theorem bind_assoc {γ : Type} (x : Trace μ ε α) (f : α → Trace μ ε β) (g : β → Trace μ ε γ) :
    (x >>= f) >>= g = x >>= fun a => f a >>= g := by
  obtain ⟨log, r⟩ := x
  cases r with
  | error e => simp
  | ok a =>
    simp only [bind_ok]
    cases h : f a with
    | mk log' r' => cases r' <;> simp

instance : LawfulMonad (Trace μ ε) :=
  LawfulMonad.mk' (Trace μ ε) map_id (fun a f => by simp) bind_assoc

section StopAt

variable {refusal : μ → Option ε}

@[simp] theorem stopAt_pure (a : α) : (pure a : Trace μ ε α).stopAt refusal = pure a := rfl

theorem stopAt_say (m : μ) :
    (say m : Trace μ ε Unit).stopAt refusal = (refusal m).elim (say m) fail := by
  rw [stopAt, say, emit]
  cases refusal m <;> rfl

theorem stopAt_cons (m : μ) (log : List μ) (r : Except ε α) :
    stopAt refusal ⟨m :: log, r⟩ =
      (say m : Trace μ ε Unit).stopAt refusal >>= fun _ => stopAt refusal ⟨log, r⟩ := by
  rw [stopAt_say, stopAt, emit]
  cases refusal m <;> rfl

/-- Two computations one after the other are stopped where the first one is, or else where
the second one is. -/
theorem stopAt_bind (x : Trace μ ε α) (f : α → Trace μ ε β) :
    (x >>= f).stopAt refusal = x.stopAt refusal >>= fun a => (f a).stopAt refusal := by
  obtain ⟨log, r⟩ := x
  induction log with
  | nil => cases r <;> rfl
  | cons m log ih =>
    have hfirst : (⟨m :: log, r⟩ : Trace μ ε α) >>= f =
        ⟨m :: ((⟨log, r⟩ : Trace μ ε α) >>= f).log, ((⟨log, r⟩ : Trace μ ε α) >>= f).result⟩ := by
      cases r <;> rfl
    rw [hfirst, stopAt_cons, stopAt_cons, bind_assoc, ← ih]

theorem stopAt_of_refused {m : μ} {e : ε} (h : refusal m = some e) (log : List μ) (r : Except ε α) :
    stopAt refusal ⟨m :: log, r⟩ = ⟨[], .error e⟩ := by
  rw [stopAt, emit, h]

theorem stopAt_of_passed {m : μ} (h : refusal m = none) (log : List μ) (r : Except ε α) :
    stopAt refusal ⟨m :: log, r⟩ =
    ⟨m :: (stopAt refusal ⟨log, r⟩).log, (stopAt refusal ⟨log, r⟩).result⟩ := by
  rw [stopAt, emit, h]
  rfl

/-- Where no entry is refused, nothing is stopped. -/
theorem stopAt_eq_self {x : Trace μ ε α} (h : ∀ m ∈ x.log, refusal m = none) :
    x.stopAt refusal = x := by
  obtain ⟨log, r⟩ := x
  induction log with
  | nil => rfl
  | cons m log ih =>
    rw [stopAt_of_passed (h m List.mem_cons_self), ih fun k hk => h k (List.mem_cons_of_mem m hk)]

/-- A computation completes exactly if it would and no entry is refused. -/
theorem result_stopAt_eq_ok {x : Trace μ ε α} {a : α} :
    (x.stopAt refusal).result = .ok a ↔ x.result = .ok a ∧ ∀ m ∈ x.log, refusal m = none := by
  obtain ⟨log, r⟩ := x
  induction log with
  | nil => simp [stopAt, emit]
  | cons m log ih =>
    cases h : refusal m with
    | some e => simp [stopAt_of_refused h, h]
    | none => simpa [stopAt_of_passed h, h] using ih

/-- What went out was not refused. -/
theorem forall_mem_log_stopAt (x : Trace μ ε α) :
    ∀ m ∈ (x.stopAt refusal).log, refusal m = none := by
  obtain ⟨log, r⟩ := x
  induction log with
  | nil => simp [stopAt, emit]
  | cons m log ih =>
    cases h : refusal m with
    | some e => simp [stopAt_of_refused h]
    | none =>
        rw [stopAt_of_passed h]
        exact List.forall_mem_cons.2 ⟨h, ih⟩

end StopAt

end Trace

end ModuleStubs
