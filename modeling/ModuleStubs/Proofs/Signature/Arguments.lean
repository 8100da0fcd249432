import ModuleStubs.Proofs.Completion
import ModuleStubs.Signature.Parser

/-!
# Where the arguments of a signature come from

Each argument of a signature was read from the text in its place between the commas of the parentheses
(`exists_text_of_readArguments`), in one of four ways (`ArgumentOf`). Such an argument has a type to show,
`Any` for a name alone. There is one exception: a single word whose annotation is a known type while its
main part has no Python type counts as a type all the same (`isHalfTyped`), and shows nothing.
-/

set_option autoImplicit false

namespace ModuleStubs

/-- The type of an argument in a type comment: `Any` where only the name is known, and nothing
where there are types but no Python type. -/
def Argument.shown? (a : Argument) : Option Text :=
  match a.type with
  | none => some (lit "Any")
  | some t => t.main

namespace Signature

/-- The texts that the arguments of a signature are read from. -/
def argumentTexts (v : Json) : List Text :=
  match roughSplitJson v with
  | .ok (some (_, second)) => if second.isEmpty then [] else Text.splitOn ',' second
  | _ => []

/-- The argument is one word, its main part has no Python type, and its annotation is a known
type. -/
def isHalfTyped (ctx : TypeContext) (text : Text) : Bool :=
  !(Text.strip text).contains (CodePoint.ofChar ' ') &&
    match ctx.translateType (Text.strip text) with
    | .ok (none, some alternative) => ctx.known alternative
    | _ => false

variable {verbosity : Int} {ctx : TypeContext} {path shown text : Text}

/-! ## One argument -/

/-- The ways in which a text is read as the argument at an index. Where it has types, the argument is
named after the index. -/
inductive ArgumentOf (ctx : TypeContext) (text : Text) (index : Int) : Argument → Prop
  /-- One word that is surely a type. -/
  | type {main alternative : Option Text}
      (hword : CodePoint.ofChar ' ' ∉ Text.strip text)
      (htypes : ctx.translateType (Text.strip text) = .ok (main, alternative))
      (hsure : surelyTypes ctx main alternative = true) :
      ArgumentOf ctx text index (typedArgument index main alternative)
  /-- One word that is not, and that can be a name. -/
  | word {main alternative : Option Text}
      (hword : CodePoint.ofChar ' ' ∉ Text.strip text)
      (htypes : ctx.translateType (Text.strip text) = .ok (main, alternative))
      (hsure : surelyTypes ctx main alternative = false)
      (hname : isIdentifier (Text.strip text) = true) :
      ArgumentOf ctx text index ⟨Text.strip text, none⟩
  /-- Several words that are a type and its alternative. -/
  | annotated {main alternative : Option Text}
      (hwords : CodePoint.ofChar ' ' ∈ Text.strip text)
      (htypes : ctx.translateType (Text.strip text) = .ok (main, alternative))
      (hmain : main.isSome = true) :
      ArgumentOf ctx text index (typedArgument index main alternative)
  /-- Several words of which the last one is a name. -/
  | named {before after : Text} {main alternative : Option Text}
      (hwords : CodePoint.ofChar ' ' ∈ Text.strip text)
      (hparts : (Text.cutLast ' ' (Text.strip text)).getD (Text.strip text, []) = (before, after))
      (htypes : ctx.translateType (Text.strip before) = .ok (main, alternative))
      (hmain : main.isSome = true) :
      ArgumentOf ctx text index (typedArgument index main alternative)

theorem argumentOf_oneWordArgument {index : Int} {arg : Argument}
    (hword : CodePoint.ofChar ' ' ∉ Text.strip text)
    (h : (oneWordArgument verbosity ctx path (Text.strip text) index).result = .ok (some arg)) :
    ArgumentOf ctx text index arg := by
  obtain ⟨⟨main, alternative⟩, htypes, h⟩ := Trace.result_bind_eq_ok.1 h
  rw [Trace.liftM_eq] at htypes
  dsimp only at h
  split at h
  · rename_i hsure
    obtain rfl := Option.some.inj (Except.ok.inj h)
    exact .type hword htypes hsure
  · rename_i hsure
    split at h
    · rename_i hname
      obtain rfl := Option.some.inj (Except.ok.inj h)
      exact .word hword htypes (Bool.eq_false_iff.2 hsure) hname
    · simp at h

theorem argumentOf_namedArgument {index : Int} {arg : Argument}
    (hwords : CodePoint.ofChar ' ' ∈ Text.strip text)
    (h : (namedArgument verbosity ctx path (Text.strip text) index).result = .ok (some arg)) :
    ArgumentOf ctx text index arg := by
  rw [namedArgument] at h
  generalize hparts : (Text.cutLast ' ' (Text.strip text)).getD (Text.strip text, []) = parts at h
  obtain ⟨before, after⟩ := parts
  obtain ⟨⟨main, alternative⟩, htypes, h⟩ := Trace.result_bind_eq_ok.1 h
  rw [Trace.liftM_eq] at htypes
  dsimp only at h
  split at h
  · simp at h
  · rename_i hmain
    split at h
    · obtain rfl := Option.some.inj (Except.ok.inj h)
      exact .named hwords hparts htypes (by simpa [Option.isSome_iff_ne_none] using hmain)
    · simp at h

/-- An argument was read in one of these ways. -/
theorem argumentOf_readArgument {index : Int} {arg : Argument}
    (h : (readArgument verbosity ctx path text index).result = .ok (some arg)) :
    ArgumentOf ctx text index arg := by
  rw [readArgument] at h
  dsimp only at h
  split at h
  · rename_i hspace
    exact argumentOf_oneWordArgument (by simpa using hspace) h
  · rename_i hspace
    have hwords : CodePoint.ofChar ' ' ∈ Text.strip text := by simpa using hspace
    obtain ⟨⟨main, alternative⟩, htypes, h⟩ := Trace.result_bind_eq_ok.1 h
    rw [Trace.liftM_eq] at htypes
    dsimp only at h
    split at h
    · rename_i hboth
      obtain rfl := Option.some.inj (Except.ok.inj h)
      exact .annotated hwords htypes (Bool.and_eq_true_iff.1 hboth).1
    · exact argumentOf_namedArgument hwords h

/-- A single word that is read as two types is half typed exactly if it is surely a type without a
Python type. -/
theorem isHalfTyped_of_oneWord {main alternative : Option Text}
    (hword : CodePoint.ofChar ' ' ∉ Text.strip text)
    (htypes : ctx.translateType (Text.strip text) = .ok (main, alternative)) :
    isHalfTyped ctx text = (main.isNone && surelyTypes ctx main alternative) := by
  cases main <;> cases alternative <;> simp [isHalfTyped, htypes, hword, surelyTypes]

/-- Several words are not half typed. -/
theorem isHalfTyped_of_words (hwords : CodePoint.ofChar ' ' ∈ Text.strip text) :
    isHalfTyped ctx text = false := by
  simp [isHalfTyped, hwords]

/-- An argument has no type to show exactly if it was read from a half typed word. -/
theorem isSome_shown?_iff_of_readArgument {index : Int} {arg : Argument}
    (h : (readArgument verbosity ctx path text index).result = .ok (some arg)) :
    arg.shown?.isSome = true ↔ isHalfTyped ctx text = false := by
  cases argumentOf_readArgument h with
  | @type main alternative hword htypes hsure =>
      rw [isHalfTyped_of_oneWord hword htypes, hsure, Bool.and_true]
      change main.isSome = true ↔ _
      cases main <;> simp
  | word hword htypes hsure =>
      rw [isHalfTyped_of_oneWord hword htypes, hsure, Bool.and_false]
      exact iff_of_true rfl rfl
  | annotated hwords _ hmain => exact iff_of_true hmain (isHalfTyped_of_words hwords)
  | named hwords _ _ hmain => exact iff_of_true hmain (isHalfTyped_of_words hwords)

/-! ## All arguments -/

/-- The first argument is read on its own, and the others after it, if it is one. -/
theorem result_readArguments_cons (t : Text) (ts : List Text) (index : Nat) (seen : List Text) :
    (readArguments verbosity ctx path shown index seen (t :: ts)).result =
      (readArgument verbosity ctx (path ++ lit "/arg" ++ decimal index) t index).result.bind fun first =>
        match first with
        | none => .ok none
        | some a => (readArguments verbosity ctx path shown (index + 1) (a.name :: seen) ts).result.map
            (Option.map (a :: ·)) := by
  rw [readArguments, Trace.result_bind]
  congr 1
  funext first
  cases first with
  | none => rfl
  | some a =>
      have hgo : (readArguments verbosity ctx path shown (index + 1) (a.name :: seen) ts >>=
          fun rest => pure (rest.map (a :: ·))).result =
          (readArguments verbosity ctx path shown (index + 1) (a.name :: seen) ts).result.map
            (Option.map (a :: ·)) := by
        rw [Trace.result_bind]
        cases (readArguments verbosity ctx path shown (index + 1) (a.name :: seen) ts).result <;> rfl
      -- a repeated name is only complained of: both branches go on with the same rest
      dsimp only
      split
      · rw [sayFrom_eq, Trace.bind_ok]
        exact hgo
      · exact hgo

theorem readArguments_cons_completed {t : Text} {ts : List Text} {index : Nat} {seen : List Text}
    {result : Option (List Argument)}
    (h : (readArguments verbosity ctx path shown index seen (t :: ts)).result = .ok result) :
    ∃ first,
      (readArgument verbosity ctx (path ++ lit "/arg" ++ decimal index) t index).result = .ok first ∧
      match first with
      | none => result = none
      | some a => ∃ rest,
          (readArguments verbosity ctx path shown (index + 1) (a.name :: seen) ts).result = .ok rest ∧
          rest.map (a :: ·) = result := by
  rw [result_readArguments_cons] at h
  cases hfirst : (readArgument verbosity ctx (path ++ lit "/arg" ++ decimal index) t index).result with
  | error e =>
      rw [hfirst] at h
      contradiction
  | ok first =>
      rw [hfirst] at h
      refine ⟨first, rfl, ?_⟩
      cases first with
      | none => exact (Except.ok.inj h).symm
      | some a =>
          cases hrest : (readArguments verbosity ctx path shown (index + 1) (a.name :: seen) ts).result with
          | error e => simp [hrest, Except.bind, Except.map] at h
          | ok rest =>
              simp only [hrest, Except.bind, Except.map] at h
              exact ⟨rest, hrest, Except.ok.inj h⟩

/-- The arguments of the texts from an index on: as many as there are texts, each read from the text
in its place. -/
theorem exists_text_of_readArguments :
    ∀ (texts : List Text) (index : Nat) (seen : List Text) {args : List Argument},
      (readArguments verbosity ctx path shown index seen texts).result = .ok (some args) →
      args.length = texts.length ∧ ∀ (i : Nat) arg, args[i]? = some arg →
        ∃ text, texts[i]? = some text ∧
          ∃ p, (readArgument verbosity ctx p text (index + i : Nat)).result = .ok (some arg)
  | [], index, seen, args, h => by
      obtain rfl := Option.some.inj (Except.ok.inj h)
      exact ⟨rfl, by simp⟩
  | t :: ts, index, seen, args, h => by
      obtain ⟨first, hfirst, hlater⟩ := readArguments_cons_completed h
      cases first with
      | none => simp at hlater
      | some a =>
          obtain ⟨rest, hrest, hargs⟩ := hlater
          obtain ⟨as, rfl, rfl⟩ := Option.map_eq_some_iff.1 hargs
          obtain ⟨hlength, hall⟩ := exists_text_of_readArguments ts (index + 1) (a.name :: seen) hrest
          refine ⟨by simp [hlength], ?_⟩
          intro i arg harg
          cases i with
          | zero =>
              obtain rfl := Option.some.inj harg
              exact ⟨t, rfl, _, hfirst⟩
          | succ i =>
              have := hall i arg harg
              rwa [Nat.add_right_comm, Nat.add_assoc] at this

/-- Each of the arguments was read from one of the texts. -/
theorem exists_text_of_mem_readArguments (texts : List Text) (index : Nat) (seen : List Text)
    {args : List Argument}
    (h : (readArguments verbosity ctx path shown index seen texts).result = .ok (some args)) :
    ∀ arg ∈ args, ∃ text ∈ texts, ∃ p i, (readArgument verbosity ctx p text i).result = .ok (some arg) := by
  intro arg harg
  obtain ⟨i, hi⟩ := List.mem_iff_getElem?.1 harg
  obtain ⟨text, htext, p, hread⟩ := (exists_text_of_readArguments texts index seen h).2 i arg hi
  exact ⟨text, List.mem_of_getElem? htext, p, _, hread⟩

/-! ## Both parts -/

/-- The name of the function at the end of the text before the arguments is taken off. -/
theorem dropFunctionName_append {name : Text} (hname : name ≠ []) (before : Text) :
    dropFunctionName name (before ++ name) = Text.strip before := by
  have hends : Text.endsWith (before ++ name) name = true :=
    List.isSuffixOf_iff_suffix.2 ⟨before, rfl⟩
  have hempty : name.isEmpty = false := by simpa using hname
  have htake : (before ++ name).take ((before ++ name).length - name.length) = before := by
    rw [List.length_append, Nat.add_sub_cancel, List.take_left]
  rw [dropFunctionName, if_pos hends, hempty, htake]
  rfl

theorem dropFunctionName_of_not_suffix {name first : Text} (h : ¬ name <:+ first) :
    dropFunctionName name first = first := by
  rw [dropFunctionName, if_neg]
  exact fun hends => h (List.isSuffixOf_iff_suffix.1 hends)

/-- The types that a signature returns, or nothing if they cannot be read. No text is no type. -/
def readReturned (verbosity : Int) (ctx : TypeContext) (path shown returnText : Text) :
    Reading (Option (Option Text × Option Text)) :=
  if returnText.isEmpty then return some (none, none)
  else do
    let (main, alternative) ← ctx.translateType returnText
    match main with
    | some m => return some (some m, alternative)
    | none =>
      sayFrom 3 verbosity (complaint path (lit "signature") shown
        (lit "invalid return type '" ++ returnText ++ lit "'"))
      return none

/-- A signature is read in two parts, the types returned and the arguments. -/
theorem readParts_eq (ctx : TypeContext) (path shown first second : Text) :
    readParts verbosity ctx path shown first second = (do
      let returned ← readReturned verbosity ctx path shown
        (dropFunctionName (Text.lastPiece '.' path) first)
      match returned with
      | none => return none
      | some (main, alternative) =>
        let arguments ← readArguments verbosity ctx path shown 0 []
          (if second.isEmpty then [] else Text.splitOn ',' second)
        return arguments.map fun as => ⟨main, alternative, as⟩) := by
  rw [readParts, readReturned]
  generalize dropFunctionName (Text.lastPiece '.' path) first = returnText
  -- with or without a text for the type returned, the arguments are read next
  dsimp only
  split
  · simp only [pure_bind]
  · cases ctx.translateType returnText with
    | error e => rfl
    | ok types =>
        obtain ⟨main, alternative⟩ := types
        cases main with
        | none => simp
        | some m => rfl

theorem readParts_completed {first second : Text} {s : Signature}
    (h : (readParts verbosity ctx path shown first second).result = .ok (some s)) :
    (readArguments verbosity ctx path shown 0 []
      (if second.isEmpty then [] else Text.splitOn ',' second)).result = .ok (some s.arguments) := by
  rw [readParts_eq] at h
  obtain ⟨returned, -, h⟩ := Trace.result_bind_eq_ok.1 h
  cases returned with
  | none => simp at h
  | some types =>
      obtain ⟨main, alternative⟩ := types
      obtain ⟨args, hargs, h⟩ := Trace.result_bind_eq_ok.1 h
      obtain ⟨as, rfl, rfl⟩ := Option.map_eq_some_iff.1 (Except.ok.inj h)
      exact hargs

/-- The arguments of a signature are those of its argument texts. -/
theorem readArguments_of_readJson {v : Json} {s : Signature}
    (h : (readJson verbosity ctx path v).result = .ok (some s)) :
    (readArguments verbosity ctx path v.display 0 [] (argumentTexts v)).result = .ok (some s.arguments) := by
  obtain ⟨split, hsplit, h⟩ := Trace.result_bind_eq_ok.1 h
  rw [Trace.liftM_eq] at hsplit
  cases split with
  | none => simp [readSplit] at h
  | some parts =>
      obtain ⟨first, second⟩ := parts
      have htexts : argumentTexts v = if second.isEmpty then [] else Text.splitOn ',' second := by
        rw [argumentTexts, show roughSplitJson v = .ok (some (first, second)) from hsplit]
      rw [htexts]
      exact readParts_completed h

/-- Each argument of a signature was read from one of its argument texts. -/
theorem exists_text_of_mem_arguments {v : Json} {s : Signature}
    (h : (readJson verbosity ctx path v).result = .ok (some s)) :
    ∀ arg ∈ s.arguments, ∃ text ∈ argumentTexts v, ∃ p i,
      (readArgument verbosity ctx p text i).result = .ok (some arg) :=
  exists_text_of_mem_readArguments _ 0 [] (readArguments_of_readJson h)

/-- Each of the argument texts of a signature gave the argument in its place. -/
theorem exists_argument_of_mem_argumentTexts {v : Json} {s : Signature}
    (h : (readJson verbosity ctx path v).result = .ok (some s)) :
    ∀ text ∈ argumentTexts v, ∃ arg ∈ s.arguments, ∃ p i,
      (readArgument verbosity ctx p text i).result = .ok (some arg) := by
  intro text htext
  obtain ⟨hlength, hall⟩ := exists_text_of_readArguments _ 0 [] (readArguments_of_readJson h)
  obtain ⟨i, hi⟩ := List.mem_iff_getElem?.1 htext
  have hbound : i < s.arguments.length := hlength ▸ (List.getElem?_eq_some_iff.1 hi).1
  have harg := List.getElem?_eq_getElem hbound
  obtain ⟨text', htext', p, hread⟩ := hall i _ harg
  obtain rfl := Option.some.inj (hi.symm.trans htext')
  exact ⟨_, List.mem_of_getElem? harg, p, _, hread⟩

/-- A signature has a type to show for each argument exactly if none of its argument texts is a half
typed word. -/
theorem forall_shown_iff_of_readJson {v : Json} {s : Signature}
    (h : (readJson verbosity ctx path v).result = .ok (some s)) :
    (∀ arg ∈ s.arguments, arg.shown?.isSome = true) ↔
      ∀ text ∈ argumentTexts v, isHalfTyped ctx text = false := by
  constructor
  · intro hshown text htext
    obtain ⟨arg, harg, p, i, hread⟩ := exists_argument_of_mem_argumentTexts h text htext
    exact (isSome_shown?_iff_of_readArgument hread).1 (hshown arg harg)
  · intro hhalf arg harg
    obtain ⟨text, htext, p, i, hread⟩ := exists_text_of_mem_arguments h arg harg
    exact (isSome_shown?_iff_of_readArgument hread).2 (hhalf text htext)

end Signature

end ModuleStubs
