import ModuleStubs.Proofs.CType.Plain
import ModuleStubs.Proofs.Signature.Arguments
import ModuleStubs.Proofs.Signature.Parentheses
import ModuleStubs.Proofs.Text.Cut

/-!
# Signatures that are declarations

A declaration `R f(T1 n1, ..., Tk nk)` has a return type, the function's name and, for each
parameter, a type and a name, where types are single words. Read as a signature it gives back its
return type and the types of its parameters, in order and none dropped (`read_declaration`),
provided that no override speaks about texts with a space. The guesses on the way are all settled
by the form: the last top-level parentheses are the only ones, the function's name stands before
them, and a type with a name behind it has no alternative type of its own
(`translateType_text`), so that the name is always split off.
-/

set_option autoImplicit false

namespace ModuleStubs

/-- The Python type of an argument, if it has one. -/
def Argument.main? (a : Argument) : Option Text := a.type.bind ArgumentType.main

namespace Signature

/-- A parameter of a declaration. -/
structure Parameter where
  type : Text
  name : Text

/-- Code points of one-word types: no blanks, commas, parentheses, hyphens and slashes. -/
def isTypePoint (c : CodePoint) : Bool :=
  !isBlank c && c != CodePoint.ofChar ',' && c != CodePoint.ofChar '(' &&
    c != CodePoint.ofChar ')' && c != CodePoint.ofChar '-' && c != CodePoint.ofChar '/'

/-- A type of one word. -/
def isTypeWord (t : Text) : Bool := !t.isEmpty && t.all isTypePoint

/-- A parameter with a type of one word, other than `const`, and with an identifier as its
name. -/
def Parameter.isPlain (p : Parameter) : Bool :=
  isTypeWord p.type && decide (p.type ≠ lit "const") && isIdentifier p.name

/-- A parameter in a declaration. -/
def Parameter.text (p : Parameter) : Text := p.type ++ lit " " ++ p.name

/-- The parameters of a declaration between their parentheses. -/
def parameterTexts (ps : List Parameter) : Text := Text.join (lit ", ") (ps.map Parameter.text)

/-- The declaration of a function. -/
def declaration (returned name : Text) (ps : List Parameter) : Text :=
  returned ++ lit " " ++ name ++ lit "(" ++ parameterTexts ps ++ lit ")"

/-! ## Words and names in a declaration -/

theorem ne_nil_of_isTypeWord {t : Text} (h : isTypeWord t = true) : t ≠ [] := by
  rintro rfl
  simp [isTypeWord] at h

theorem isTypePoint_of_mem {t : Text} (h : isTypeWord t = true) : ∀ c ∈ t, isTypePoint c = true := by
  have : ¬ t = [] ∧ ∀ c ∈ t, isTypePoint c = true := by simpa [isTypeWord] using h
  exact this.2

theorem isBlank_of_isTypePoint {c : CodePoint} (h : isTypePoint c = true) : isBlank c = false := by
  simp only [isTypePoint, Bool.and_eq_true, Bool.not_eq_true'] at h
  exact h.1.1.1.1.1

/-- A character that no one-word type may have is in none. -/
theorem not_mem_of_isTypeWord {t : Text} (h : isTypeWord t = true) {c : Char}
    (hc : isTypePoint c = false) : CodePoint.ofChar c ∉ t := by
  intro hm
  have := isTypePoint_of_mem h _ hm
  rw [hc] at this
  exact Bool.noConfusion this

theorem isTypePoint_of_isIdentifierPart {c : CodePoint} (h : isIdentifierPart c = true) :
    isTypePoint c = true := by
  have hne : ∀ d : Char, d.toNat < 48 → c ≠ CodePoint.ofChar d := fun d =>
    ne_ofChar_of_isIdentifierPart h
  simp [isTypePoint, isBlank_of_isIdentifierPart h, hne]

/-- A name is made of the same code points as a one-word type. -/
theorem isTypeWord_of_isIdentifier {t : Text} (h : isIdentifier t = true) : isTypeWord t = true := by
  have hpoints : ∀ c ∈ t, isTypePoint c = true := fun c hc =>
    isTypePoint_of_isIdentifierPart (isIdentifierPart_of_mem h c hc)
  simpa [isTypeWord, ne_nil_of_isIdentifier h] using hpoints

/-- Two words with a space between them have no blanks at the ends. -/
theorem strip_words {s t : Text} (hs : isTypeWord s = true) (ht : isTypeWord t = true) :
    Text.strip (s ++ lit " " ++ t) = s ++ lit " " ++ t := by
  apply Text.strip_eq_self
  · intro c hc
    cases s with
    | nil => exact absurd rfl (ne_nil_of_isTypeWord hs)
    | cons d s =>
        obtain rfl : d = c := by simpa using hc
        exact isBlank_of_isTypePoint (isTypePoint_of_mem hs _ List.mem_cons_self)
  · intro c hc
    rw [List.getLast?_append, Option.or_of_isSome (by simpa using ne_nil_of_isTypeWord ht)] at hc
    exact isBlank_of_isTypePoint (isTypePoint_of_mem ht _ (List.mem_of_getLast? hc))

theorem strip_word {t : Text} (h : isTypeWord t = true) : Text.strip t = t :=
  Text.strip_of_solid fun c hc => isBlank_of_isTypePoint (isTypePoint_of_mem h c hc)

end Signature

/-! ## Overrides and spaces -/

namespace TypeContext

/-- No override of the context applies to a text with a space. -/
def IgnoresSpaced (ctx : TypeContext) : Prop :=
  ∀ o ∈ ctx.overrides, ∀ t : Text, CodePoint.ofChar ' ' ∈ t → o.pattern.fullMatch? t = none

theorem override?_eq_none {ctx : TypeContext} (hctx : ctx.IgnoresSpaced) {t : Text}
    (h : CodePoint.ofChar ' ' ∈ t) : ctx.override? t = none := by
  rw [override?, List.findSome?_eq_none_iff]
  intro o ho
  rw [hctx o ho t h]
  split <;> rfl

end TypeContext

namespace Signature

/-- What a plain parameter is made of. -/
theorem Parameter.isPlain_iff {p : Parameter} : p.isPlain = true ↔
    isTypeWord p.type = true ∧ p.type ≠ lit "const" ∧ isIdentifier p.name = true := by
  simp [Parameter.isPlain, and_assoc]

theorem dropMarks_text {p : Parameter} (hname : isIdentifier p.name = true) :
    CType.dropMarks p.text = p.text :=
  CType.dropMarks_append_identifier hname _

theorem dropConst_text {p : Parameter} (htype : isTypeWord p.type = true)
    (hconst : p.type ≠ lit "const") : CType.dropConst p.text = p.text := by
  have hspace : CodePoint.ofChar ' ' ∉ p.type := not_mem_of_isTypeWord htype (by decide)
  simpa [Parameter.text, lit] using CType.dropConst_spaced hspace hconst p.name

/-- Cleaning leaves a type with a name behind it as it is. -/
theorem clean_text {p : Parameter} (h : p.isPlain = true) : CType.clean p.text = p.text := by
  obtain ⟨htype, hconst, hname⟩ := Parameter.isPlain_iff.1 h
  rw [CType.clean, dropMarks_text hname, dropConst_text htype hconst]
  exact strip_words htype (isTypeWord_of_isIdentifier hname)

theorem space_mem_text (p : Parameter) : CodePoint.ofChar ' ' ∈ p.text := by
  simp [Parameter.text, lit]

/-- A type with a name behind it is no type, unless it is the name of a built-in type. -/
theorem translate_text {ctx : TypeContext} (hctx : ctx.IgnoresSpaced) {p : Parameter}
    (h : p.isPlain = true) (alternative : Bool) :
    ctx.translate alternative p.text = .ok (CType.builtin? p.text) := by
  rw [TypeContext.translate, clean_text h]
  cases hb : CType.builtin? p.text with
  | some r => rfl
  | none =>
      have hid : identifier? p.text = none := by
        rw [identifier?, if_neg]
        intro hi
        exact not_mem_of_isIdentifier hi (c := ' ') (by decide) (space_mem_text p)
      simp only [hb, TypeContext.override?_eq_none hctx (space_mem_text p), hid]

theorem not_mem_text {p : Parameter} (h : p.isPlain = true) {c : Char} (hc : isTypePoint c = false)
    (hspace : c ≠ ' ') : CodePoint.ofChar c ∉ p.text := by
  obtain ⟨htype, -, hname⟩ := Parameter.isPlain_iff.1 h
  have h₁ := not_mem_of_isTypeWord htype hc
  have h₂ := not_mem_of_isTypeWord (isTypeWord_of_isIdentifier hname) hc
  simp [Parameter.text, lit, h₁, h₂, hspace]

/-- It has no alternative type. This is what sends it to the form of a type and a name. -/
theorem translateType_text {ctx : TypeContext} (hctx : ctx.IgnoresSpaced) {p : Parameter}
    (h : p.isPlain = true) : ctx.translateType p.text = .ok (CType.builtin? p.text, none) := by
  rw [ctx.translateType_of_plain (not_mem_text h (by decide) (by decide))
    (not_mem_text h (by decide) (by decide)), translate_text hctx h, translate_text hctx h]
  simp [bind, Except.bind, pure, Except.pure]

/-- A type of one word whose main type is known beforehand. -/
theorem translateType_word {ctx : TypeContext} {t r : Text} (h : isTypeWord t = true)
    (hr : ctx.translate false t = .ok (some r)) {pair : Option Text × Option Text}
    (hp : ctx.translateType t = .ok pair) : pair.1 = some r := by
  rw [ctx.translateType_of_plain (not_mem_of_isTypeWord h (by decide))
    (not_mem_of_isTypeWord h (by decide)), hr] at hp
  cases ha : ctx.translate true t with
  | error e => simp [ha, bind, Except.bind] at hp
  | ok a =>
      simp only [ha, bind, Except.bind, pure, Except.pure, Except.ok.injEq] at hp
      rw [← hp]

/-! ## Arguments -/

theorem dropMark_of_isIdentifier {t : Text} (h : isIdentifier t = true) {mark : Char}
    (hm : isIdentifierPart mark = false) : dropMark mark t = t := by
  cases t with
  | nil => rfl
  | cons c t =>
      have hne : c ≠ CodePoint.ofChar mark := by
        rintro rfl
        exact not_mem_of_isIdentifier h hm List.mem_cons_self
      rw [dropMark, if_neg hne]

variable {verbosity : Int}

/-- The argument of a type and a name has the type. -/
theorem readArgument_text {ctx : TypeContext} (hctx : ctx.IgnoresSpaced) {p : Parameter}
    (h : p.isPlain = true) {r : Text} (hr : ctx.translate false p.type = .ok (some r))
    {path text : Text} (htext : Text.strip text = p.text) {index : Int}
    {result : Option Argument} (hres : (readArgument verbosity ctx path text index).result = .ok result) :
    ∃ a, result = some a ∧ a.main? = some r := by
  obtain ⟨htype, -, hname⟩ := Parameter.isPlain_iff.1 h
  have hcut : Text.cutLast ' ' p.text = some (p.type, p.name) := by
    have hspace : CodePoint.ofChar ' ' ∉ p.name := not_mem_of_isIdentifier hname (by decide)
    simpa [Parameter.text, lit] using Text.cutLast_eq_some p.type hspace
  -- the space rules out the form of one word, the missing alternative that of a type alone
  have hnamed : (namedArgument verbosity ctx path p.text index).result = .ok result := by
    simpa [readArgument, htext, space_mem_text p, translateType_text hctx h] using hres
  have hstar : dropMark '*' p.name = p.name := dropMark_of_isIdentifier hname (by decide)
  have hamp : dropMark '&' p.name = p.name := dropMark_of_isIdentifier hname (by decide)
  rw [namedArgument, hcut] at hnamed
  simp only [Option.getD_some, strip_word htype, strip_word (isTypeWord_of_isIdentifier hname),
    hstar, hamp, hname, if_true] at hnamed
  obtain ⟨pair, hpair, hrest⟩ := Trace.result_bind_eq_ok.1 hnamed
  have hmain := translateType_word htype hr hpair
  rw [hmain] at hrest
  refine ⟨typedArgument index (some r) pair.2, ?_, rfl⟩
  simpa [hmain] using hrest.symm

/-- The arguments of a list of parameters have their types, in order and none dropped. -/
theorem readArguments_texts {ctx : TypeContext} (hctx : ctx.IgnoresSpaced) {python : Text → Text}
    {path shown : Text} :
    ∀ (ps : List Parameter) (texts : List Text) (index : Nat) (seen : List Text)
      {result : Option (List Argument)},
      (∀ p ∈ ps, p.isPlain = true ∧ ctx.translate false p.type = .ok (some (python p.type))) →
      texts.map Text.strip = ps.map Parameter.text →
      (readArguments verbosity ctx path shown index seen texts).result = .ok result →
      ∃ args, result = some args ∧ args.map Argument.main? = ps.map fun p => some (python p.type)
  | [], texts, index, seen, result, _, htexts, hres => by
      obtain rfl : texts = [] := by simpa using htexts
      refine ⟨[], ?_, rfl⟩
      simpa [readArguments] using hres.symm
  | p :: ps, texts, index, seen, result, hps, htexts, hres => by
      cases texts with
      | nil => simp at htexts
      | cons t ts =>
          obtain ⟨ht, hts⟩ := List.cons.inj htexts
          obtain ⟨hplain, hpython⟩ := hps p List.mem_cons_self
          obtain ⟨r, hr, hlater⟩ := readArguments_cons_completed hres
          obtain ⟨a, rfl, ha⟩ := readArgument_text hctx hplain hpython ht hr
          obtain ⟨rest, hrest, rfl⟩ := hlater
          obtain ⟨args, rfl, hargs⟩ := readArguments_texts hctx ps ts (index + 1) (a.name :: seen)
            (fun q hq => hps q (List.mem_cons_of_mem _ hq)) hts hrest
          refine ⟨a :: args, rfl, ?_⟩
          rw [List.map_cons, List.map_cons, ha, hargs]

/-! ## The rough shape -/

theorem dropFunctionName_declared {returned name : Text} (hr : isTypeWord returned = true)
    (hn : isIdentifier name = true) :
    dropFunctionName name (returned ++ lit " " ++ name) = returned := by
  rw [dropFunctionName_append (ne_nil_of_isIdentifier hn)]
  exact (Text.strip_append_of_isBlank (by decide)).trans (strip_word hr)

theorem parameterTexts_cons (p : Parameter) (ps : List Parameter) :
    parameterTexts (p :: ps) = p.text ++ (ps.flatMap fun q => lit ", " ++ q.text) := by
  induction ps generalizing p with
  | nil => simp [parameterTexts, Text.join]
  | cons q qs ih =>
      have hq := ih q
      simp only [parameterTexts, List.map_cons] at hq ⊢
      rw [Text.join_cons_cons, hq]
      simp

/-- Characters other than spaces and commas that no type and no name has are not in the
parameters. -/
theorem not_mem_parameterTexts {ps : List Parameter} (h : ∀ p ∈ ps, p.isPlain = true) {c : Char}
    (hc : isTypePoint c = false) (hspace : c ≠ ' ') (hcomma : c ≠ ',') :
    CodePoint.ofChar c ∉ parameterTexts ps := by
  cases ps with
  | nil => simp [parameterTexts, Text.join]
  | cons p ps =>
      rw [parameterTexts_cons]
      intro hm
      rcases List.mem_append.1 hm with hm | hm
      · exact not_mem_text (h p List.mem_cons_self) hc hspace hm
      · obtain ⟨q, hq, hm⟩ := List.mem_flatMap.1 hm
        rcases List.mem_append.1 hm with hm | hm
        · simp [lit, hspace, hcomma] at hm
        · exact not_mem_text (h q (List.mem_cons_of_mem _ hq)) hc hspace hm

theorem strip_text {p : Parameter} (h : p.isPlain = true) : Text.strip p.text = p.text := by
  obtain ⟨htype, -, hname⟩ := Parameter.isPlain_iff.1 h
  exact strip_words htype (isTypeWord_of_isIdentifier hname)

theorem text_ne_nil (p : Parameter) : p.text ≠ [] := by
  simp [Parameter.text, lit]

/-- The parameters end as the last one of them does. -/
theorem getLast?_parameterTexts : ∀ (p : Parameter) (ps : List Parameter),
    ∃ q ∈ p :: ps, (parameterTexts (p :: ps)).getLast? = q.text.getLast?
  | p, [] => ⟨p, List.mem_cons_self, by simp [parameterTexts, Text.join]⟩
  | p, q :: qs => by
      obtain ⟨r, hr, hlast⟩ := getLast?_parameterTexts q qs
      refine ⟨r, List.mem_cons_of_mem _ hr, ?_⟩
      have hne : parameterTexts (q :: qs) ≠ [] := by
        rw [parameterTexts_cons]
        simp [text_ne_nil]
      have hsplit : parameterTexts (p :: q :: qs) =
          p.text ++ lit ", " ++ parameterTexts (q :: qs) := rfl
      rw [hsplit, List.getLast?_append, Option.or_of_isSome (by simpa using hne), hlast]

theorem strip_parameterTexts {ps : List Parameter} (h : ∀ p ∈ ps, p.isPlain = true) :
    Text.strip (parameterTexts ps) = parameterTexts ps := by
  cases ps with
  | nil => rfl
  | cons p ps =>
      apply Text.strip_eq_self
      · intro c hc
        rw [parameterTexts_cons, List.head?_append,
          Option.or_of_isSome (by simpa using text_ne_nil p)] at hc
        refine Text.head?_strip p.text c ?_
        rwa [strip_text (h p List.mem_cons_self)]
      · intro c hc
        obtain ⟨q, hq, hlast⟩ := getLast?_parameterTexts p ps
        rw [hlast, ← strip_text (h q hq)] at hc
        exact Text.getLast?_stripEnd _ c hc

/-- The pieces between the commas are the parameters, blanks apart. -/
theorem map_strip_splitOn {p : Parameter} {ps : List Parameter}
    (h : ∀ q ∈ p :: ps, q.isPlain = true) :
    (Text.splitOn ',' (parameterTexts (p :: ps))).map Text.strip = (p :: ps).map Parameter.text := by
  have hcomma : ∀ u ∈ (p :: ps).map Parameter.text, CodePoint.ofChar ',' ∉ u := by
    intro u hu
    obtain ⟨q, hq, rfl⟩ := List.mem_map.1 hu
    exact not_mem_text (h q hq) (by decide) (by decide)
  have hpad : CodePoint.ofChar ',' ∉ lit " " := by decide
  have hsplit : Text.splitOn ',' (parameterTexts (p :: ps)) =
      p.text :: (ps.map Parameter.text).map (lit " " ++ ·) :=
    Text.splitOn_join hpad p.text (ps.map Parameter.text) hcomma
  rw [hsplit, List.map_cons, List.map_cons, strip_text (h p List.mem_cons_self), List.map_map,
    List.map_map]
  congr 1
  apply List.map_congr_left
  intro q hq
  have hblank : Text.strip (lit " " ++ q.text) = Text.strip q.text :=
    Text.strip_cons_of_isBlank q.text (by decide)
  exact hblank.trans (strip_text (h q (List.mem_cons_of_mem _ hq)))

/-- The pieces that are read as arguments, also where there are none. -/
theorem map_strip_pieces {ps : List Parameter} (h : ∀ p ∈ ps, p.isPlain = true) :
    (if (parameterTexts ps).isEmpty then [] else Text.splitOn ',' (parameterTexts ps)).map Text.strip =
      ps.map Parameter.text := by
  cases ps with
  | nil => rfl
  | cons p ps =>
      rw [if_neg, map_strip_splitOn h]
      rw [parameterTexts_cons]
      simp [text_ne_nil]

theorem balanced_parameterTexts {ps : List Parameter} (h : ∀ p ∈ ps, p.isPlain = true) :
    (parameterTexts ps).Balanced :=
  Text.balanced_of_not_mem (not_mem_parameterTexts h (by decide) (by decide) (by decide))
    (not_mem_parameterTexts h (by decide) (by decide) (by decide))

/-! ## Declarations -/

theorem roughSplit_declaration {returned name : Text} (hr : isTypeWord returned = true)
    (hn : isIdentifier name = true) {ps : List Parameter} (hps : ∀ p ∈ ps, p.isPlain = true) :
    roughSplit (declaration returned name ps) =
      some (returned ++ lit " " ++ name, parameterTexts ps) := by
  have hwords : ∀ c : Char, isTypePoint c = false → c ≠ ' ' →
      CodePoint.ofChar c ∉ returned ++ lit " " ++ name := by
    intro c hc hspace
    have h₁ := not_mem_of_isTypeWord hr hc
    have h₂ := not_mem_of_isTypeWord (isTypeWord_of_isIdentifier hn) hc
    simp [lit, h₁, h₂, hspace]
  have hfirst : (returned ++ lit " " ++ name).Balanced :=
    Text.balanced_of_not_mem (hwords '(' (by decide) (by decide)) (hwords ')' (by decide) (by decide))
  rw [declaration, roughSplit_call hfirst (balanced_parameterTexts hps),
    strip_words hr (isTypeWord_of_isIdentifier hn), strip_parameterTexts hps]

/-- A declaration read at a path of its function gives a signature with its return type and the
types of its parameters. -/
theorem read_declaration {ctx : TypeContext} (hctx : ctx.IgnoresSpaced) {python : Text → Text}
    {path returned name : Text} {ps : List Parameter} (hpath : Text.lastPiece '.' path = name)
    (hn : isIdentifier name = true) (hr : isTypeWord returned = true)
    (hpr : ctx.translate false returned = .ok (some (python returned)))
    (hps : ∀ p ∈ ps, p.isPlain = true ∧ ctx.translate false p.type = .ok (some (python p.type)))
    {result : Option Signature}
    (hres : (read verbosity ctx path (declaration returned name ps)).result = .ok result) :
    ∃ s, result = some s ∧ s.returnType = some (python returned) ∧
      s.arguments.map Argument.main? = ps.map fun p => some (python p.type) := by
  have hplain : ∀ p ∈ ps, p.isPlain = true := fun p hp => (hps p hp).1
  have hreturn : returned.isEmpty = false := by simpa using ne_nil_of_isTypeWord hr
  rw [read, roughSplit_declaration hr hn hplain, readSplit, readParts, hpath,
    dropFunctionName_declared hr hn, hreturn] at hres
  obtain ⟨⟨main, alternative⟩, hpair, hres⟩ := Trace.result_bind_eq_ok.1 hres
  obtain rfl : main = some (python returned) := translateType_word hr hpr hpair
  simp only [pure_bind] at hres
  obtain ⟨args, hargs, hres⟩ := Trace.result_bind_eq_ok.1 hres
  obtain ⟨as, rfl, has⟩ := readArguments_texts hctx ps _ 0 [] hps
    (map_strip_pieces hplain) hargs
  exact ⟨_, (Except.ok.inj hres).symm, rfl, has⟩

end Signature

end ModuleStubs
