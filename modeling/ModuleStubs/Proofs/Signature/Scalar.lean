import ModuleStubs.Proofs.CType.Origins
import ModuleStubs.Proofs.Json.Canonical
import ModuleStubs.Proofs.Pattern.Captures
import ModuleStubs.Proofs.Signature.Arguments
import ModuleStubs.Proofs.Signature.Parentheses
import ModuleStubs.Proofs.Text.Utf8

/-!
# Signatures without halves of surrogate pairs

All texts of a signature are pieces of the text it was read from, templates of the type context filled
with such pieces, or ASCII. So where neither the text nor the templates have half of a surrogate pair in
them, the signature has none, and its stored form can be written to a file and read again
(`isRestorable_of_readJson`).

The steps of the reading are of two kinds. Those that cut a text up give parts of it, which is stated as
an inclusion of code points; those that make a new text are followed one by one.
-/

set_option autoImplicit false

namespace ModuleStubs

namespace Text

/-! ## Cuts -/

theorem subset_of_mem_splitOn {sep : CodePoint} {t p : Text} (h : p ∈ splitOn sep t) : p ⊆ t := by
  induction t generalizing p with
  | nil =>
      obtain rfl := List.mem_singleton.1 h
      exact List.Subset.refl _
  | cons c t ih =>
      rw [splitOn] at h
      split at h
      · rcases List.mem_cons.1 h with rfl | hlater
        · exact List.nil_subset _
        · exact List.subset_cons_of_subset c (ih hlater)
      · -- the first piece is longer by one code point
        split at h
        · rename_i hnil
          exact absurd hnil (splitOn_ne_nil sep t)
        · rename_i q qs hpieces
          rw [hpieces] at ih
          rcases List.mem_cons.1 h with rfl | hlater
          · exact List.cons_subset_cons c (ih List.mem_cons_self)
          · exact List.subset_cons_of_subset c (ih (List.mem_cons_of_mem q hlater))

theorem subset_of_cutLast {sep : CodePoint} {t a b : Text} (h : cutLast sep t = some (a, b)) :
    a ⊆ t ∧ b ⊆ t := by
  obtain ⟨rfl, -⟩ := cutLast_append h
  exact ⟨List.subset_append_left a _, List.subset_append_of_subset_right a (List.subset_cons_self sep b)⟩

theorem subset_of_afterPrefix? {p t rest : Text} (h : afterPrefix? p t = some rest) : rest ⊆ t := by
  obtain rfl := afterPrefix?_eq_some.1 h
  exact List.subset_append_right p rest

end Text

/-- The two parts of a cut at a parenthesis are the pieces again. -/
theorem append_of_cutAtLastOpen {pieces : List Text} {depth : Nat} {a : Text} {s : Option Text}
    (h : cutAtLastOpen depth pieces = some (a, s)) : a ++ s.getD [] = pieces.flatten := by
  induction pieces generalizing depth a s with
  | nil =>
      rw [cutAtLastOpen] at h
      split at h
      · obtain ⟨rfl, rfl⟩ := Prod.mk.inj (Option.some.inj h)
        rfl
      · contradiction
  | cons p ps ih =>
      have hmap : ∀ {d : Nat}, (cutAtLastOpen d ps).map (fun r => (p ++ r.1, r.2)) = some (a, s) →
          a ++ s.getD [] = p ++ ps.flatten := by
        intro d hd
        obtain ⟨⟨b, r⟩, hcut, heq⟩ := Option.map_eq_some_iff.1 hd
        obtain ⟨rfl, rfl⟩ := Prod.mk.inj heq
        rw [List.append_assoc, ih hcut]
      rw [List.flatten_cons]
      rw [cutAtLastOpen.eq_def] at h
      simp only at h
      split at h
      · split at h
        · contradiction
        · rename_i b t hcut
          obtain ⟨rfl, rfl⟩ := Prod.mk.inj (Option.some.inj h)
          rw [← ih hcut, List.append_assoc]
        · rename_i b hcut
          -- the parenthesis itself starts the second part, if it is the last one on the top level
          split at h
          all_goals
            obtain ⟨rfl, rfl⟩ := Prod.mk.inj (Option.some.inj h)
            simp [← ih hcut]
      · split at h
        · split at h
          · contradiction
          · exact hmap h
        · exact hmap h

theorem subset_of_roughSplitPieces {pieces : List Text} {first second : Text}
    (h : roughSplitPieces pieces = some (first, second)) :
    first ⊆ pieces.flatten ∧ second ⊆ pieces.flatten := by
  rw [roughSplitPieces_eq] at h
  obtain ⟨⟨a, r⟩, hcut, h⟩ := Option.bind_eq_some_iff.1 h
  obtain ⟨s, rfl, h⟩ := Option.map_eq_some_iff.1 h
  obtain ⟨rfl, rfl⟩ := Prod.mk.inj h
  rw [← append_of_cutAtLastOpen hcut]
  have htrim : Text.trimEnds s ⊆ s :=
    List.Subset.trans (List.dropLast_subset _) (List.drop_subset 1 s)
  constructor
  · exact List.subset_append_of_subset_left _ (Text.strip_subset a)
  · exact List.subset_append_of_subset_right a (List.Subset.trans (Text.strip_subset _) htrim)

/-! ## Types -/

namespace CType

theorem clean_subset (t : Text) : clean t ⊆ t := by
  have hmarks : dropMarks t ⊆ t := by
    intro c hc
    have hc' := (List.dropWhile_suffix _).subset (List.mem_reverse.1 hc)
    exact List.mem_reverse.1 hc'
  have hconst : dropConst (dropMarks t) ⊆ dropMarks t := by
    rw [dropConst]
    split
    · exact List.drop_subset 6 _
    · exact List.Subset.refl _
  exact List.Subset.trans (Text.strip_subset _) (List.Subset.trans hconst hmarks)

theorem subset_of_soleWord? {inWord : CodePoint → Bool} {t word : Text}
    (h : soleWord? inWord t = some word) : word ⊆ t := by
  rw [soleWord?] at h
  split at h
  · obtain ⟨c, hc, rfl⟩ := Option.map_eq_some_iff.1 h
    exact List.cons_subset.2
      ⟨List.mem_reverse.1 (List.mem_of_find?_eq_some hc), List.nil_subset t⟩
  · dsimp only at h
    split at h
    · obtain rfl := Option.some.inj h
      exact List.Subset.trans (List.takeWhile_subset _) (List.dropWhile_suffix _).subset
    · contradiction

theorem subset_of_parenthesised? {t main annotation : Text}
    (h : parenthesised? t = some (main, annotation)) : main ⊆ t ∧ annotation ⊆ t := by
  obtain ⟨⟨before, after⟩, hcut, h⟩ := Option.bind_eq_some_iff.1 h
  obtain ⟨hbefore, hafter⟩ := Text.subset_of_cutLast hcut
  dsimp only at h
  split at h
  · obtain ⟨inside, hinside, h⟩ := Option.bind_eq_some_iff.1 h
    obtain rfl := Option.some.inj hinside
    split at h
    · obtain ⟨word, hword, h⟩ := Option.bind_eq_some_iff.1 h
      obtain ⟨rfl, rfl⟩ := Prod.mk.inj (Option.some.inj h)
      have hinside : word ⊆ after :=
        List.Subset.trans (subset_of_soleWord? hword) (List.dropLast_subset after)
      exact ⟨List.Subset.trans (List.takeWhile_subset _) hbefore, List.Subset.trans hinside hafter⟩
    · contradiction
  · obtain ⟨inside, hinside, -⟩ := Option.bind_eq_some_iff.1 h
    contradiction

theorem subset_of_comment? {t annotation : Text} (h : comment? t = some annotation) :
    annotation ⊆ t := by
  obtain ⟨body, hbody, h⟩ := Option.bind_eq_some_iff.1 h
  obtain ⟨inside, hinside, hword⟩ := Option.bind_eq_some_iff.1 h
  intro c hc
  have hreverse := List.mem_reverse.1 (subset_of_soleWord? hword hc)
  have hmem := List.mem_reverse.1 (Text.subset_of_afterPrefix? hinside hreverse)
  exact (List.dropWhile_suffix _).subset (Text.subset_of_afterPrefix? hbody hmem)

theorem subset_of_beforeComment? {t main annotation : Text} {n : Nat}
    (h : beforeComment? t n = some (main, annotation)) : main ⊆ t ∧ annotation ⊆ t := by
  induction n with
  | zero => contradiction
  | succ n ih =>
      rw [beforeComment?] at h
      split at h
      · rename_i found hfound
        obtain ⟨rfl, rfl⟩ := Prod.mk.inj (Option.some.inj h)
        exact ⟨List.take_subset _ t,
          List.Subset.trans (subset_of_comment? hfound) (List.drop_subset _ t)⟩
      · exact ih h

/-- The parts of an annotated type are parts of its text. -/
theorem subset_of_annotated? {t main annotation : Text}
    (h : annotated? t = some (main, annotation)) : main ⊆ t ∧ annotation ⊆ t := by
  rw [annotated?] at h
  split at h
  · rename_i r hr
    obtain rfl := Option.some.inj h
    exact subset_of_parenthesised? hr
  · exact subset_of_beforeComment? h

theorem isScalar_of_builtin? {t r : Text} (h : builtin? t = some r) : r.isScalar = true := by
  have hall : builtins.all (fun e => e.2.isScalar) = true := by simp [builtins]
  obtain ⟨e, he, hr⟩ := List.any_eq_true.1 (isBuiltinName_of_builtin? h)
  rw [← eq_of_beq hr]
  exact List.all_eq_true.1 hall e he

end CType

/-! ## Templates -/

namespace Template

/-- The arguments that are there have no half of a surrogate pair. -/
def ScalarArguments (args : List (Option Text)) : Prop := ∀ t, some t ∈ args → t.isScalar = true

variable {args : List (Option Text)}

theorem isScalar_of_argument (hargs : ScalarArguments args) {index : Nat} {t : Text}
    (h : argument args index = .ok t) : t.isScalar = true := by
  rw [argument] at h
  split at h
  · contradiction
  · obtain rfl := Except.ok.inj h
    decide
  · rename_i u hu
    obtain rfl := Except.ok.inj h
    exact hargs u (List.mem_of_getElem? hu)

theorem isScalar_of_field (hargs : ScalarArguments args) {numbering next : Numbering}
    {name t : Text} (h : field args numbering name = .ok (t, next)) : t.isScalar = true := by
  have hmap : ∀ {index : Nat} {n : Numbering},
      (argument args index).map (fun t => (t, n)) = .ok (t, next) → t.isScalar = true := by
    intro index n hn
    obtain ⟨u, hu, heq⟩ := except_map_eq_ok.1 hn
    obtain ⟨rfl, -⟩ := Prod.mk.inj heq
    exact isScalar_of_argument hargs hu
  rw [field.eq_def] at h
  split at h
  · split at h
    · contradiction
    · exact hmap h
    · exact hmap h
  · split at h
    · split at h
      · contradiction
      · exact hmap h
    · contradiction

theorem subset_of_fieldName {t name rest : Text} (h : fieldName t = .ok (name, rest)) : rest ⊆ t := by
  induction t generalizing name with
  | nil => contradiction
  | cons c t ih =>
      rw [fieldName] at h
      split at h
      · obtain ⟨-, rfl⟩ := Prod.mk.inj (Except.ok.inj h)
        exact List.subset_cons_self c _
      · split at h
        · contradiction
        · split at h
          · contradiction
          · obtain ⟨⟨name', rest'⟩, hname, heq⟩ := except_map_eq_ok.1 h
            obtain ⟨-, rfl⟩ := Prod.mk.inj heq
            exact List.subset_cons_of_subset c (ih hname)

/-- A template is filled with its own code points and with those of the arguments. -/
theorem isScalar_of_fillFrom (hargs : ScalarArguments args) {numbering : Numbering} {t r : Text}
    (ht : t.isScalar = true) (h : fillFrom args numbering t = .ok r) : r.isScalar = true := by
  -- a code point that stands for itself
  have hcons : ∀ {c : CodePoint} {u : Text} {n : Numbering}, c.isSurrogate = false →
      (∀ {r : Text}, fillFrom args n u = .ok r → r.isScalar = true) →
      ∀ {r : Text}, (fillFrom args n u).map (c :: ·) = .ok r → r.isScalar = true := by
    intro c u n hc ih r hr
    obtain ⟨s, hs, rfl⟩ := except_map_eq_ok.1 hr
    exact Text.isScalar_cons.2 ⟨hc, ih hs⟩
  fun_induction fillFrom args numbering t generalizing r with
  | case1 =>
      obtain rfl := Except.ok.inj h
      exact ht
  | case3 numbering rest ih | case6 numbering rest _ ih =>
      obtain ⟨hc, ht⟩ := Text.isScalar_cons.1 ht
      exact hcons hc (ih (Text.isScalar_cons.1 ht).2) h
  | case9 numbering d rest _ name after hname _ value next hfield _ ih =>
      obtain ⟨u, hu, rfl⟩ := except_map_eq_ok.1 h
      have hafter := Text.isScalar_of_subset (subset_of_fieldName hname) (Text.isScalar_cons.1 ht).2
      exact Text.isScalar_append.2 ⟨isScalar_of_field hargs hfield, ih hafter hu⟩
  | case10 numbering c t _ _ ih =>
      obtain ⟨hc, ht⟩ := Text.isScalar_cons.1 ht
      exact hcons hc (ih ht) h
  | _ => contradiction

end Template

theorem Pattern.scalarArguments_of_fullMatch? {p : Pattern} {t : Text} {groups : List (Option Text)}
    (h : p.fullMatch? t = some groups) (ht : t.isScalar = true) : Template.ScalarArguments groups :=
  fun _ hg => Text.isScalar_of_subset (isInfix_of_fullMatch? h hg).subset ht

namespace Json

@[simp] theorem every_hasScalarTexts_str {t : Text} :
    (Json.str t).every hasScalarTexts = true ↔ t.isScalar = true := by
  simp [every, hasScalarTexts, ownTexts]

theorem isScalar_of_fillTemplate {v : Json} {groups : List (Option Text)} {r : Text}
    (hv : v.every hasScalarTexts = true) (hgroups : Template.ScalarArguments groups)
    (h : v.fillTemplate groups = .ok r) : r.isScalar = true := by
  obtain ⟨t, htext, h⟩ := except_bind_eq_ok.1 h
  rw [textFor_eq_ok htext, every_hasScalarTexts_str] at hv
  split at h
  · rename_i u hfill
    obtain rfl := Except.ok.inj h
    exact Template.isScalar_of_fillFrom hgroups hv hfill
  · contradiction

/-- The elements of a value have no other texts than the value. -/
theorem every_hasScalarTexts_of_mem_elements {v w : Json} {parts : List Json}
    (hv : v.every hasScalarTexts = true) (h : v.elements = .ok parts) (hw : w ∈ parts) :
    w.every hasScalarTexts = true := by
  cases v with
  | list items =>
      obtain rfl := Except.ok.inj h
      exact (every_list.1 hv).2 w hw
  | object fields =>
      obtain rfl := Except.ok.inj h
      obtain ⟨key, hkey, rfl⟩ := List.mem_map.1 hw
      exact every_hasScalarTexts_str.2 (List.all_eq_true.1 (every_self hv) key hkey)
  | str s =>
      obtain rfl := Except.ok.inj h
      obtain ⟨c, hc, rfl⟩ := List.mem_map.1 hw
      have hs := Text.isScalar_iff.1 (every_hasScalarTexts_str.1 hv) c hc
      exact every_hasScalarTexts_str.2 (Text.isScalar_cons.2 ⟨hs, rfl⟩)
  | _ => contradiction

end Json

/-! ## Types in a context -/

namespace TypeContext

/-- No template of an override has half of a surrogate pair. -/
def IsScalar (ctx : TypeContext) : Prop :=
  ∀ o ∈ ctx.overrides,
    o.main.every Json.hasScalarTexts = true ∧ o.alternative.every Json.hasScalarTexts = true

variable {ctx : TypeContext} (hctx : ctx.IsScalar)
include hctx

theorem isScalar_of_override? {cleaned r : Text} {o : TypeOverride} {groups : List (Option Text)}
    {alternative : Bool} (hcleaned : cleaned.isScalar = true)
    (ho : ctx.override? cleaned = some (o, groups))
    (h : o.apply alternative cleaned groups = .ok r) : r.isScalar = true := by
  have hfirst := override?_eq_some_iff.1 ho
  obtain ⟨hmain, halternative⟩ := hctx o hfirst.mem
  have hgroups := Pattern.scalarArguments_of_fullMatch? hfirst.applies.matched hcleaned
  rw [TypeOverride.apply] at h
  split at h
  · split at h
    · obtain rfl := Except.ok.inj h
      exact hcleaned
    · exact Json.isScalar_of_fillTemplate halternative hgroups h
  · exact Json.isScalar_of_fillTemplate hmain hgroups h

/-- The types of a text are those of the table, filled templates and identifiers. -/
theorem isScalar_of_translate {alternative : Bool} {t : Text} {r : Option Text}
    (ht : t.isScalar = true) (h : ctx.translate alternative t = .ok r) :
    ∀ s ∈ r, s.isScalar = true := by
  have hcleaned := Text.isScalar_of_subset (CType.clean_subset t) ht
  rw [translate] at h
  split at h
  · -- the text is in the table
    rename_i u hu
    obtain rfl := Except.ok.inj h
    exact fun s hs => Option.some.inj hs ▸ CType.isScalar_of_builtin? hu
  dsimp only at h
  split at h
  · -- the cleaned text is
    rename_i u hu
    obtain rfl := Except.ok.inj h
    exact fun s hs => Option.some.inj hs ▸ CType.isScalar_of_builtin? hu
  split at h
  · -- an override gives the type
    rename_i o groups ho
    obtain ⟨u, hu, rfl⟩ := except_map_eq_ok.1 h
    exact fun s hs => Option.some.inj hs ▸ isScalar_of_override? hctx hcleaned ho hu
  · -- the cleaned text stands for itself
    obtain rfl := Except.ok.inj h
    intro s hs
    rw [identifier?] at hs
    split at hs
    · exact Option.some.inj hs ▸ hcleaned
    · contradiction

theorem isScalar_of_translateType {t : Text} {main alternative : Option Text}
    (ht : t.isScalar = true) (h : ctx.translateType t = .ok (main, alternative)) :
    (∀ s ∈ main, s.isScalar = true) ∧ ∀ s ∈ alternative, s.isScalar = true := by
  obtain ⟨⟨m, a⟩, hpair, h⟩ := except_bind_eq_ok.1 h
  obtain ⟨rfl, rfl⟩ := Prod.mk.inj (Except.ok.inj h)
  have hparts : ((CType.annotated? t).getD (t, t)).1 ⊆ t ∧ ((CType.annotated? t).getD (t, t)).2 ⊆ t := by
    cases hannotated : CType.annotated? t with
    | none => exact ⟨List.Subset.refl t, List.Subset.refl t⟩
    | some parts => exact CType.subset_of_annotated? hannotated
  obtain ⟨m', hm, hpair⟩ := except_bind_eq_ok.1 hpair
  obtain ⟨a', ha, hpair⟩ := except_bind_eq_ok.1 hpair
  obtain ⟨rfl, rfl⟩ := Prod.mk.inj (Except.ok.inj hpair)
  refine ⟨isScalar_of_translate hctx (Text.isScalar_of_subset hparts.1 ht) hm, fun s hs => ?_⟩
  split at hs
  · contradiction
  · exact isScalar_of_translate hctx (Text.isScalar_of_subset hparts.2 ht) ha s hs

end TypeContext

/-! ## Signatures -/

namespace Json

/-- An object with some of the names, each in its place, and values that can be restored. -/
theorem isRestorable_of_names {names : List String} (hnames : names.Nodup) {fields : Record Json}
    (hkeys : (Record.keys fields).Sublist (names.map lit))
    (hvalues : ∀ f ∈ fields, f.2.isRestorable = true) : (Json.object fields).isRestorable = true := by
  rw [isRestorable_object]
  refine ⟨(hnames.map fun _ _ => lit_inj.1).sublist hkeys, ?_, hvalues⟩
  intro k hk
  obtain ⟨name, -, rfl⟩ := List.mem_map.1 (hkeys.subset hk)
  exact Text.isScalar_lit name

theorem isRestorable_str {t : Text} (h : t.isScalar = true) : (Json.str t).isRestorable = true :=
  isRestorable_iff.2 ⟨every_hasScalarTexts_str.2 h, rfl⟩

theorem isRestorable_ofText? {t : Option Text} (h : ∀ s ∈ t, s.isScalar = true) :
    (ofText? t).isRestorable = true := by
  cases t with
  | none => rfl
  | some s => exact isRestorable_str (h s rfl)

end Json

namespace Signature

theorem isRestorable_named {name : Text} (hname : name.isScalar = true) :
    (Argument.toJson ⟨name, none⟩).isRestorable = true := by
  apply Json.isRestorable_of_names (List.nodup_singleton "name") (List.Sublist.refl _)
  exact List.forall_mem_singleton.2 (Json.isRestorable_str hname)

theorem isRestorable_typedArgument (index : Int) {main alternative : Option Text}
    (hmain : ∀ s ∈ main, s.isScalar = true) (halternative : ∀ s ∈ alternative, s.isScalar = true) :
    (typedArgument index main alternative).toJson.isRestorable = true := by
  have hname : (argumentName index).isScalar = true :=
    Text.isScalar_append.2 ⟨Text.isScalar_lit "arg", Text.isScalar_decimalInt index⟩
  have hnames : ["name", "type", "alt-type"].Nodup := by decide
  apply Json.isRestorable_of_names hnames (List.Sublist.refl _)
  simp only [List.forall_mem_cons]
  exact ⟨Json.isRestorable_str hname, Json.isRestorable_ofText? hmain,
    Json.isRestorable_ofText? halternative, nofun⟩

/-- The stored form of a signature of scalar types and restorable arguments. -/
theorem isRestorable_toJson {main alternative : Option Text} {as : List Argument}
    (hmain : ∀ s ∈ main, s.isScalar = true) (halternative : ∀ s ∈ alternative, s.isScalar = true)
    (has : ∀ a ∈ as, a.toJson.isRestorable = true) :
    (Signature.toJson ⟨main, alternative, as⟩).isRestorable = true := by
  have hargs : (Json.list (as.map Argument.toJson)).isRestorable = true :=
    Json.isRestorable_list.2 (List.forall_mem_map.2 has)
  have hnames : ["return-type", "return-type-alt", "args"].Nodup := by decide
  apply Json.isRestorable_of_names hnames
  · cases main <;> cases alternative <;> simp [Record.keys]
  · simp only [List.forall_mem_append, List.forall_mem_singleton]
    refine ⟨⟨?_, ?_⟩, hargs⟩
    · cases main with
      | none => exact List.forall_mem_nil _
      | some t => exact List.forall_mem_singleton.2 (Json.isRestorable_str (hmain t rfl))
    · cases alternative with
      | none => exact List.forall_mem_nil _
      | some t => exact List.forall_mem_singleton.2 (Json.isRestorable_str (halternative t rfl))

theorem isScalar_of_mem_leadingTexts {vs : List Json}
    (h : ∀ v ∈ vs, v.every Json.hasScalarTexts = true) :
    ∀ p ∈ (leadingTexts vs).1, p.isScalar = true := by
  fun_induction leadingTexts vs with
  | case1 => exact nofun
  | case2 s vs ts w hrest ih =>
      obtain ⟨hs, hvs⟩ := List.forall_mem_cons.1 h
      rw [hrest] at ih
      exact List.forall_mem_cons.2 ⟨Json.every_hasScalarTexts_str.1 hs, ih hvs⟩
  | case3 => exact nofun

variable {verbosity : Int} {ctx : TypeContext} (hctx : ctx.IsScalar) {path shown text : Text}
include hctx

theorem isRestorable_of_readArgument {index : Int} {arg : Argument} (htext : text.isScalar = true)
    (h : (readArgument verbosity ctx path text index).result = .ok (some arg)) :
    arg.toJson.isRestorable = true := by
  have hstrip := Text.isScalar_of_subset (Text.strip_subset text) htext
  -- where the argument has types, they are those of a part of the text
  have htyped : ∀ {part : Text} {main alternative : Option Text}, part ⊆ Text.strip text →
      ctx.translateType part = .ok (main, alternative) →
        (typedArgument index main alternative).toJson.isRestorable = true := by
    intro part main alternative hpart htypes
    obtain ⟨hmain, halternative⟩ :=
      TypeContext.isScalar_of_translateType hctx (Text.isScalar_of_subset hpart hstrip) htypes
    exact isRestorable_typedArgument index hmain halternative
  cases argumentOf_readArgument h with
  | type hword htypes => exact htyped (List.Subset.refl _) htypes
  | word => exact isRestorable_named hstrip
  | annotated hwords htypes => exact htyped (List.Subset.refl _) htypes
  | @named before _ _ _ hwords hparts htypes =>
      have hbefore : before ⊆ Text.strip text := by
        cases hcut : Text.cutLast ' ' (Text.strip text) with
        | none =>
            rw [hcut] at hparts
            obtain ⟨rfl, -⟩ := Prod.mk.inj hparts
            exact List.Subset.refl _
        | some parts =>
            rw [hcut] at hparts
            obtain rfl : parts = _ := hparts
            exact (Text.subset_of_cutLast hcut).1
      exact htyped (List.Subset.trans (Text.strip_subset before) hbefore) htypes

theorem isScalar_of_readReturned {returnText : Text} {main alternative : Option Text}
    (htext : returnText.isScalar = true)
    (h : (readReturned verbosity ctx path shown returnText).result = .ok (some (main, alternative))) :
    (∀ s ∈ main, s.isScalar = true) ∧ ∀ s ∈ alternative, s.isScalar = true := by
  rw [readReturned] at h
  split at h
  · obtain ⟨rfl, rfl⟩ := Prod.mk.inj (Option.some.inj (Except.ok.inj h))
    exact ⟨fun s hs => absurd hs (Option.not_mem_none s), fun s hs => absurd hs (Option.not_mem_none s)⟩
  · obtain ⟨⟨m, a⟩, htypes, h⟩ := Trace.result_bind_eq_ok.1 h
    cases m with
    | none => simp at h
    | some m =>
        obtain ⟨rfl, rfl⟩ := Prod.mk.inj (Option.some.inj (Except.ok.inj h))
        exact TypeContext.isScalar_of_translateType hctx htext htypes

omit hctx in
theorem dropFunctionName_subset (name first : Text) : dropFunctionName name first ⊆ first := by
  rw [dropFunctionName]
  split
  · split
    · exact List.nil_subset _
    · exact List.Subset.trans (Text.strip_subset _) (List.take_subset _ first)
  · exact List.Subset.refl _

theorem isRestorable_of_readParts {first second : Text} {s : Signature}
    (hfirst : first.isScalar = true) (hsecond : second.isScalar = true)
    (h : (readParts verbosity ctx path shown first second).result = .ok (some s)) :
    s.toJson.isRestorable = true := by
  rw [readParts_eq] at h
  obtain ⟨returned, hreturned, h⟩ := Trace.result_bind_eq_ok.1 h
  cases returned with
  | none => simp at h
  | some types =>
      obtain ⟨main, alternative⟩ := types
      obtain ⟨args, hargs, h⟩ := Trace.result_bind_eq_ok.1 h
      obtain ⟨as, rfl, rfl⟩ := Option.map_eq_some_iff.1 (Except.ok.inj h)
      obtain ⟨hmain, halternative⟩ := isScalar_of_readReturned hctx
        (Text.isScalar_of_subset (dropFunctionName_subset _ first) hfirst) hreturned
      refine isRestorable_toJson hmain halternative fun a ha => ?_
      obtain ⟨text, htext, p, i, hread⟩ := exists_text_of_mem_readArguments _ 0 [] hargs a ha
      -- the text of an argument stands between two commas
      have hpiece : text ⊆ second := by
        split at htext
        · contradiction
        · exact Text.subset_of_mem_splitOn htext
      exact isRestorable_of_readArgument hctx (Text.isScalar_of_subset hpiece hsecond) hread

omit hctx in
theorem isScalar_of_roughSplitJson {v : Json} {first second : Text}
    (hv : v.every Json.hasScalarTexts = true) (h : roughSplitJson v = .ok (some (first, second))) :
    first.isScalar = true ∧ second.isScalar = true := by
  have hpieces : ∀ {pieces : List Text}, (∀ p ∈ pieces, p.isScalar = true) →
      roughSplitPieces pieces = some (first, second) →
      first.isScalar = true ∧ second.isScalar = true := by
    intro pieces hall hsplit
    have hflat : Text.isScalar pieces.flatten = true := by
      rw [Text.isScalar_iff]
      intro c hc
      obtain ⟨p, hp, hcp⟩ := List.mem_flatten.1 hc
      exact Text.isScalar_iff.1 (hall p hp) c hcp
    obtain ⟨hfirst, hsecond⟩ := subset_of_roughSplitPieces hsplit
    exact ⟨Text.isScalar_of_subset hfirst hflat, Text.isScalar_of_subset hsecond hflat⟩
  rw [roughSplitJson.eq_def] at h
  split at h
  · rename_i t
    refine hpieces ?_ (Except.ok.inj h)
    intro p hp
    obtain ⟨c, hc, rfl⟩ := List.mem_map.1 hp
    exact Text.isScalar_of_subset (List.cons_subset.2 ⟨hc, List.nil_subset t⟩)
      (Json.every_hasScalarTexts_str.1 hv)
  · obtain ⟨parts, hparts, h⟩ := except_bind_eq_ok.1 h
    have hleading := isScalar_of_mem_leadingTexts
      fun w hw => Json.every_hasScalarTexts_of_mem_elements hv hparts hw
    dsimp only at h
    split at h
    · exact hpieces hleading (Except.ok.inj h)
    · split at h
      · cases Except.ok.inj h
      · contradiction

/-- A signature read from a scalar value in a scalar context can be written and read again. -/
theorem isRestorable_of_readJson {v : Json} {s : Signature} (hv : v.every Json.hasScalarTexts = true)
    (h : (readJson verbosity ctx path v).result = .ok (some s)) : s.toJson.isRestorable = true := by
  obtain ⟨parts, hsplit, h⟩ := Trace.result_bind_eq_ok.1 h
  cases parts with
  | none => simp [readSplit] at h
  | some parts =>
      obtain ⟨first, second⟩ := parts
      obtain ⟨hfirst, hsecond⟩ := isScalar_of_roughSplitJson hv hsplit
      exact isRestorable_of_readParts hctx hfirst hsecond h

end Signature

end ModuleStubs
