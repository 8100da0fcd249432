import Mathlib.Data.List.Nodup
import ModuleStubs.Proofs.Signature.Arguments

/-!
# The names of arguments

An argument has the name that its text gives only where that is a bare word: a single word that is not
surely a type. An argument with types is named after its index, `arg0`, `arg1` and so on, whatever name
its text has. So the names of a signature are determined by its bare words (`names_of_readJson`).

A name that came before is complained of and kept. The parameters of a function, with `self` in front
for a method, are distinct exactly if no bare word occurs twice, none is the numbered name of an argument
with types, and none is `self` in a method (`DistinctWords`, `nodup_parameters_iff`).
-/

set_option autoImplicit false

namespace ModuleStubs

namespace Signature

variable {verbosity : Int} {ctx : TypeContext} {path shown text : Text}

/-- The text of an argument if it is one word and not surely a type. -/
def bareWord? (ctx : TypeContext) (text : Text) : Option Text :=
  if (Text.strip text).contains (CodePoint.ofChar ' ') then none
  else
    match ctx.translateType (Text.strip text) with
    | .ok (main, alternative) =>
      if surelyTypes ctx main alternative then none else some (Text.strip text)
    | .error _ => none

/-- The bare words among the arguments of a signature text, each in its place. -/
def bareWords (ctx : TypeContext) (v : Json) : List (Option Text) :=
  (argumentTexts v).map (bareWord? ctx)

/-- The names of arguments from an index on. -/
def namesFrom : Nat → List (Option Text) → List Text
  | _, [] => []
  | i, word :: words => word.getD (argumentName i) :: namesFrom (i + 1) words

/-! ## Reading -/

/-- An argument is named by its bare word, or else by its index. -/
theorem name_of_readArgument {index : Int} {arg : Argument}
    (h : (readArgument verbosity ctx path text index).result = .ok (some arg)) :
    arg.name = (bareWord? ctx text).getD (argumentName index) := by
  rw [bareWord?]
  cases argumentOf_readArgument h with
  | type hword htypes hsure => simp [hword, htypes, hsure, typedArgument]
  | word hword htypes hsure => simp [hword, htypes, hsure]
  | annotated hwords => simp [hwords, typedArgument]
  | named hwords => simp [hwords, typedArgument]

theorem names_of_readArguments :
    ∀ (texts : List Text) (index : Nat) (seen : List Text) {args : List Argument},
      (readArguments verbosity ctx path shown index seen texts).result = .ok (some args) →
      args.map Argument.name = namesFrom index (texts.map (bareWord? ctx))
  | [], index, seen, args, h => by
      obtain rfl := Option.some.inj (Except.ok.inj h)
      rfl
  | t :: ts, index, seen, args, h => by
      obtain ⟨first, hfirst, hlater⟩ := readArguments_cons_completed h
      cases first with
      | none => simp at hlater
      | some a =>
          obtain ⟨rest, hrest, hargs⟩ := hlater
          obtain ⟨as, rfl, rfl⟩ := Option.map_eq_some_iff.1 hargs
          rw [List.map_cons, List.map_cons, namesFrom, name_of_readArgument hfirst,
            names_of_readArguments ts (index + 1) (a.name :: seen) hrest]

/-- The names of a signature follow from its bare words. -/
theorem names_of_readJson {v : Json} {s : Signature}
    (h : (readJson verbosity ctx path v).result = .ok (some s)) :
    s.arguments.map Argument.name = namesFrom 0 (bareWords ctx v) :=
  names_of_readArguments _ 0 [] (readArguments_of_readJson h)

/-! ## Distinct names -/

/-- Distinct indices give distinct names. -/
theorem argumentName_inj {i j : Nat} (h : argumentName i = argumentName j) : i = j := by
  have hdigits : decimal i = decimal j := List.append_cancel_left h
  rw [← digitsValue_decimal i, hdigits, digitsValue_decimal]

theorem argumentName_ne_self (i : Int) : argumentName i ≠ lit "self" := by
  intro h
  -- they differ in the first letter already
  have hhead : CodePoint.ofChar 'a' = CodePoint.ofChar 's' := (List.cons.inj h).1
  exact absurd hhead (by decide)

theorem getElem?_namesFrom (words : List (Option Text)) (k i : Nat) :
    (namesFrom k words)[i]? = words[i]?.map (Option.getD · (argumentName (k + i : Nat))) := by
  induction words generalizing k i with
  | nil => rfl
  | cons word words ih =>
      cases i with
      | zero => rfl
      | succ i =>
          rw [namesFrom, List.getElem?_cons_succ, List.getElem?_cons_succ, ih (k + 1) i,
            Nat.add_right_comm, Nat.add_assoc]

/-- No bare word occurs twice, and none is the name of an argument with types. -/
structure DistinctWords (words : List (Option Text)) : Prop where
  once : ∀ (i j : Nat) (w : Text), words[i]? = some (some w) → words[j]? = some (some w) → i = j
  unnumbered : ∀ i : Nat, words[i]? = some none → some (argumentName i) ∉ words

/-- Arguments of the same name are the same argument. -/
theorem DistinctWords.eq_of_name {words : List (Option Text)} (h : DistinctWords words) {i j : Nat}
    {word word' : Option Text} (hi : words[i]? = some word) (hj : words[j]? = some word')
    (hname : word.getD (argumentName i) = word'.getD (argumentName j)) : i = j := by
  cases word with
  | none =>
      cases word' with
      | none => exact argumentName_inj hname
      | some w =>
          obtain rfl : argumentName i = w := hname
          exact absurd (List.mem_of_getElem? hj) (h.unnumbered i hi)
  | some w =>
      cases word' with
      | none =>
          obtain rfl : w = argumentName j := hname
          exact absurd (List.mem_of_getElem? hi) (h.unnumbered j hj)
      | some w' =>
          obtain rfl : w = w' := hname
          exact h.once i j w hi hj

theorem nodup_namesFrom_iff (words : List (Option Text)) :
    (namesFrom 0 words).Nodup ↔ DistinctWords words := by
  have hget : ∀ (i : Nat), (namesFrom 0 words)[i]? = words[i]?.map (Option.getD · (argumentName i)) := by
    intro i
    rw [getElem?_namesFrom, Nat.zero_add]
  constructor
  · intro hnodup
    -- what has the same name is the same argument, whether or not it is a bare word
    have hsame : ∀ (i j : Nat) (word word' : Option Text), words[i]? = some word →
        words[j]? = some word' → word.getD (argumentName i) = word'.getD (argumentName j) → i = j := by
      intro i j word word' hi hj hname
      have hi' : (namesFrom 0 words)[i]? = some (word.getD (argumentName i)) := by rw [hget, hi]; rfl
      have hj' : (namesFrom 0 words)[j]? = some (word'.getD (argumentName j)) := by rw [hget, hj]; rfl
      obtain ⟨hlt, -⟩ := List.getElem?_eq_some_iff.1 hi'
      exact (List.getElem?_inj hlt hnodup).1 (by rw [hi', hj', hname])
    refine ⟨?_, ?_⟩
    · intro i j w hi hj
      exact hsame i j _ _ hi hj rfl
    · intro i hi hmem
      obtain ⟨j, hj⟩ := List.mem_iff_getElem?.1 hmem
      obtain rfl := hsame i j _ _ hi hj rfl
      simp [hi] at hj
  · intro hdistinct
    rw [List.nodup_iff_getElem?_ne_getElem?]
    intro i j hij hj heq
    obtain ⟨word', hword', hname'⟩ := Option.map_eq_some_iff.1 ((hget j).symm.trans
      (List.getElem?_eq_getElem hj))
    obtain ⟨word, hword, hname⟩ := Option.map_eq_some_iff.1 ((hget i).symm.trans
      (heq.trans (List.getElem?_eq_getElem hj)))
    exact absurd (hdistinct.eq_of_name hword hword' (hname.trans hname'.symm)) (Nat.ne_of_lt hij)

theorem self_mem_namesFrom_iff (words : List (Option Text)) (k : Nat) :
    lit "self" ∈ namesFrom k words ↔ some (lit "self") ∈ words := by
  induction words generalizing k with
  | nil => simp [namesFrom]
  | cons word words ih =>
      rw [namesFrom, List.mem_cons, List.mem_cons, ih (k + 1)]
      cases word with
      | none => simp [(argumentName_ne_self k).symm]
      | some w => simp

/-- The parameters are distinct exactly if the bare words are, and if none of them is the `self` of a
method. -/
theorem nodup_parameters_iff (isMethod : Bool) (words : List (Option Text)) :
    ((if isMethod then [lit "self"] else []) ++ namesFrom 0 words).Nodup ↔
      DistinctWords words ∧ (isMethod = true → some (lit "self") ∉ words) := by
  cases isMethod with
  | false => simp [nodup_namesFrom_iff]
  | true => simp [nodup_namesFrom_iff, self_mem_namesFrom_iff, and_comm]

end Signature

end ModuleStubs
