import ModuleStubs.Number.Decimal
import ModuleStubs.Text.Quoted

/-!
# Templates

A template is text with replacement fields in braces: `{}` takes the next
argument, a number takes the argument of that index, and a doubled brace stands
for itself. Fields are filled from left to right, so the first fault in the text
is the one reported. An argument that is absent is written `None`.

Fields that convert or format their argument, or take an attribute or an item of it, are
not modelled. They are refused with a fault of their own (`Fault.unsupported`).
-/

set_option autoImplicit false

namespace ModuleStubs

namespace Template

/-- What can go wrong in filling a template. -/
inductive Fault where
  | singleOpen
  | singleClose
  | openInField
  | unclosedField
  | manualThenAutomatic
  | automaticThenManual
  | indexOutOfRange (index : Nat)
  | unknownName (name : Text)
  /-- A field that does more than taking an argument. -/
  | unsupported
deriving DecidableEq

/-- The wording of a fault. -/
def Fault.message : Fault → Text
  | .singleOpen => lit "Single '\x7b' encountered in format string"
  | .singleClose => lit "Single '\x7d' encountered in format string"
  | .openInField => lit "unexpected '\x7b' in field name"
  | .unclosedField => lit "expected '\x7d' before end of string"
  | .manualThenAutomatic =>
    lit "cannot switch from manual field specification to automatic field numbering"
  | .automaticThenManual =>
    lit "cannot switch from automatic field numbering to manual field specification"
  | .indexOutOfRange i =>
    lit "Replacement index " ++ decimal i ++ lit " out of range for positional args tuple"
  | .unknownName name => Text.quoted name
  | .unsupported => lit "unsupported format string"

/-- How fields have been numbered so far: not at all, automatically up to a next
index, or by explicit numbers. -/
inductive Numbering where
  | fresh
  | automatic (next : Nat)
  | manual
deriving DecidableEq

/-- The text of an argument. -/
def argument (args : List (Option Text)) (index : Nat) : Except Fault Text :=
  match args[index]? with
  | none => .error (.indexOutOfRange index)
  | some none => .ok (lit "None")
  | some (some t) => .ok t

/-- The text of a field, and the numbering after it. -/
def field (args : List (Option Text)) (numbering : Numbering) (name : Text) :
    Except Fault (Text × Numbering) :=
  if name.isEmpty then
    match numbering with
    | .manual => .error .manualThenAutomatic
    | .fresh => (argument args 0).map fun t => (t, .automatic 1)
    | .automatic n => (argument args n).map fun t => (t, .automatic (n + 1))
  else if name.all CodePoint.isDigit then
    match numbering with
    | .automatic _ => .error .automaticThenManual
    | _ => (argument args (digitsValue name)).map fun t => (t, .manual)
  else .error (.unknownName name)

/-- The name of a field and the text after its closing brace. -/
def fieldName : Text → Except Fault (Text × Text)
  | [] => .error .unclosedField
  | c :: t =>
    if c = '\x7d' then .ok ([], t)
    else if c = '\x7b' then .error .openInField
    else if c = ':' ∨ c = '!' ∨ c = '.' ∨ c = '[' then .error .unsupported
    else (fieldName t).map fun (name, rest) => (c :: name, rest)

theorem fieldName_length {t name rest : Text} (h : fieldName t = .ok (name, rest)) :
    rest.length < t.length := by
  induction t generalizing name with
  | nil => simp [fieldName] at h
  | cons c t ih =>
    rw [fieldName] at h
    split at h
    · simp only [Except.ok.injEq, Prod.mk.injEq] at h
      simp [← h.2]
    · split at h
      · simp at h
      · split at h
        · simp at h
        · cases hf : fieldName t with
          | error e => simp [hf, Except.map] at h
          | ok r =>
            obtain ⟨n, r⟩ := r
            simp only [hf, Except.map, Except.ok.injEq, Prod.mk.injEq] at h
            obtain ⟨-, rfl⟩ := h
            exact Nat.lt_succ_of_lt (ih hf)

/-- The text with its fields filled, under a numbering. -/
def fillFrom (args : List (Option Text)) (numbering : Numbering) (t : Text) : Except Fault Text :=
  match t with
  | [] => .ok []
  | c :: rest =>
    if c = '\x7d' then
      match rest with
      | [] => .error .singleClose
      | d :: rest' =>
        if d = '\x7d' then (fillFrom args numbering rest').map (c :: ·) else .error .singleClose
    else if c = '\x7b' then
      match rest with
      | [] => .error .singleOpen
      | d :: rest' =>
        if d = '\x7b' then (fillFrom args numbering rest').map (c :: ·)
        else
          match hf : fieldName (d :: rest') with
          | .error e => .error e
          | .ok (name, after) =>
            have : after.length < (d :: rest').length := fieldName_length hf
            match field args numbering name with
            | .error e => .error e
            | .ok (value, numbering') =>
              (fillFrom args numbering' after).map (value ++ ·)
    else (fillFrom args numbering rest).map (c :: ·)
termination_by t.length
decreasing_by
  all_goals simp only [List.length_cons] at *
  all_goals omega

/-- The text with its fields filled. -/
def fill (args : List (Option Text)) (t : Text) : Except Fault Text := fillFrom args .fresh t

end Template

end ModuleStubs
