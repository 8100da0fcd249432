import ModuleStubs.Proofs.CType.Plain

/-!
# Where Python types come from

The Python type of a C++ type is taken from the table of built-in types, from a template of the first
override that applies (`TypeContext.FirstApplies`), or it is the cleaned text itself as an identifier
(`TypeContext.Origin`). There is one more way out: where the alternative type is asked for and the first
override that applies has no template for it, the cleaned text is given as it is, with no look at whether
it is a name. `translate_origin_iff` says for every context whose templates can be filled that a type has
one of the three origins exactly if it did not come by this way out.
-/

set_option autoImplicit false

namespace ModuleStubs

namespace TypeOverride

/-- The override applies to a cleaned text, with the groups of its match. -/
structure Applies (ctx : TypeContext) (o : TypeOverride) (cleaned : Text)
    (groups : List (Option Text)) : Prop where
  known : o.mustBeKnown = true → ctx.known cleaned = true
  matched : o.pattern.fullMatch? cleaned = some groups

/-- The template of the type that is asked for. There may be none for the alternative type. -/
def template? (o : TypeOverride) (alternative : Bool) : Option Json :=
  if alternative then (if o.alternative = .null then none else some o.alternative) else some o.main

theorem apply_of_template? {o : TypeOverride} {alternative : Bool} {template : Json}
    (h : o.template? alternative = some template) (cleaned : Text) (groups : List (Option Text)) :
    o.apply alternative cleaned groups = template.fillTemplate groups := by
  cases alternative with
  | false =>
      obtain rfl := Option.some.inj h
      rfl
  | true =>
      rw [template?, if_pos rfl] at h
      split at h
      · contradiction
      · rename_i hnull
        obtain rfl := Option.some.inj h
        rw [apply, if_pos rfl]
        split
        · contradiction
        · rfl

theorem template?_eq_none {o : TypeOverride} {alternative : Bool}
    (h : o.template? alternative = none) : alternative = true ∧ o.alternative = .null := by
  cases alternative with
  | false => contradiction
  | true =>
      rw [template?, if_pos rfl] at h
      split at h
      · exact ⟨rfl, by assumption⟩
      · contradiction

/-- Without a template the text stands for itself. -/
theorem apply_of_null {o : TypeOverride} (h : o.alternative = .null) (cleaned : Text)
    (groups : List (Option Text)) : o.apply true cleaned groups = .ok cleaned := by
  rw [apply, if_pos rfl, h]

end TypeOverride

namespace TypeContext

/-- The override is the first one that applies to a cleaned text. -/
structure FirstApplies (ctx : TypeContext) (cleaned : Text) (o : TypeOverride)
    (groups : List (Option Text)) : Prop where
  applies : o.Applies ctx cleaned groups
  first : ∃ before after, ctx.overrides = before ++ o :: after ∧
    ∀ p ∈ before, ∀ gs, ¬ p.Applies ctx cleaned gs

/-- What the search for an override looks at. -/
theorem search_eq_some_iff {ctx : TypeContext} {cleaned : Text} {o p : TypeOverride}
    {groups : List (Option Text)} :
    (if !p.mustBeKnown || ctx.known cleaned then (p.pattern.fullMatch? cleaned).map (p, ·) else none) =
      some (o, groups) ↔ p = o ∧ p.Applies ctx cleaned groups := by
  constructor
  · intro h
    split at h
    · rename_i hknown
      obtain ⟨gs, hmatch, heq⟩ := Option.map_eq_some_iff.1 h
      obtain ⟨rfl, rfl⟩ := Prod.mk.inj heq
      refine ⟨rfl, ?_, hmatch⟩
      intro hmust
      simpa [hmust] using hknown
    · contradiction
  · rintro ⟨rfl, hknown, hmatch⟩
    have hcondition : (!p.mustBeKnown || ctx.known cleaned) = true := by
      cases hmust : p.mustBeKnown with
      | false => rfl
      | true => simp [hknown hmust]
    rw [if_pos hcondition, hmatch, Option.map_some]

theorem override?_eq_some_iff {ctx : TypeContext} {cleaned : Text} {o : TypeOverride}
    {groups : List (Option Text)} :
    ctx.override? cleaned = some (o, groups) ↔ ctx.FirstApplies cleaned o groups := by
  rw [override?, List.findSome?_eq_some_iff]
  constructor
  · rintro ⟨before, p, after, hsplit, hfound, hbefore⟩
    obtain ⟨rfl, happlies⟩ := search_eq_some_iff.1 hfound
    refine ⟨happlies, before, after, hsplit, ?_⟩
    intro q hq gs hq'
    have hnone := hbefore q hq
    rw [search_eq_some_iff.2 ⟨rfl, hq'⟩] at hnone
    contradiction
  · rintro ⟨happlies, before, after, hsplit, hbefore⟩
    refine ⟨before, o, after, hsplit, search_eq_some_iff.2 ⟨rfl, happlies⟩, ?_⟩
    intro q hq
    rw [Option.eq_none_iff_forall_ne_some]
    rintro ⟨p, gs⟩ hfound
    obtain ⟨-, hq'⟩ := search_eq_some_iff.1 hfound
    exact hbefore q hq gs hq'

/-- Whatever the overrides apply to, their templates can be filled, and with valid types only. -/
def FormatsTo (ctx : TypeContext) (Valid : Text → Prop) : Prop :=
  ∀ o ∈ ctx.overrides, ∀ cleaned groups, o.Applies ctx cleaned groups →
    ∀ alternative template, o.template? alternative = some template →
      ∃ r, template.fillTemplate groups = .ok r ∧ Valid r

/-- The origins of a Python type. -/
inductive Origin (ctx : TypeContext) (Valid : Text → Prop) (alternative : Bool) (t : Text) :
    Text → Prop
  /-- The table of built-in types has it. -/
  | builtin {r : Text} (h : CType.isBuiltinName r = true) : Origin ctx Valid alternative t r
  /-- It is a filled template of the first override that applies, and valid. -/
  | formatted {o : TypeOverride} {groups : List (Option Text)} {template : Json} {r : Text}
      (hfirst : ctx.FirstApplies (CType.clean t) o groups)
      (htemplate : o.template? alternative = some template)
      (hfilled : template.fillTemplate groups = .ok r) (hvalid : Valid r) :
      Origin ctx Valid alternative t r
  /-- It is an identifier. -/
  | identifier {r : Text} (h : isIdentifier r = true) : Origin ctx Valid alternative t r

/-- The cleaned text is given as it is, and is neither an identifier nor in the table: the alternative type
is asked for, the text is not built-in, and the first override that applies has no template for
alternative types. -/
structure PassesThrough (ctx : TypeContext) (alternative : Bool) (t : Text) : Prop where
  alternative_asked : alternative = true
  not_builtin : CType.builtin? t = none
  not_builtin_clean : CType.builtin? (CType.clean t) = none
  untemplated : ∃ o groups, ctx.FirstApplies (CType.clean t) o groups ∧ o.alternative = .null
  not_identifier : isIdentifier (CType.clean t) = false
  not_name : CType.isBuiltinName (CType.clean t) = false

/-- The first override that applies is one of the overrides, and there is no other first one. -/
theorem FirstApplies.unique {ctx : TypeContext} {cleaned : Text} {o p : TypeOverride}
    {groups gs : List (Option Text)} (h : ctx.FirstApplies cleaned o groups)
    (h' : ctx.FirstApplies cleaned p gs) : o = p ∧ groups = gs :=
  Prod.mk.inj (Option.some.inj
    ((override?_eq_some_iff.2 h).symm.trans (override?_eq_some_iff.2 h')))

theorem FirstApplies.mem {ctx : TypeContext} {cleaned : Text} {o : TypeOverride}
    {groups : List (Option Text)} (h : ctx.FirstApplies cleaned o groups) : o ∈ ctx.overrides := by
  obtain ⟨before, after, hsplit, -⟩ := h.first
  rw [hsplit]
  exact List.mem_append_right before List.mem_cons_self

section

variable {ctx : TypeContext} {Valid : Text → Prop} {alternative : Bool} {t : Text}

/-- A text that is passed through has none of the origins. -/
theorem PassesThrough.not_origin (h : ctx.PassesThrough alternative t) :
    ¬ ctx.Origin Valid alternative t (CType.clean t) := by
  intro horigin
  obtain ⟨o, groups, hfirst, hnull⟩ := h.untemplated
  cases horigin with
  | builtin hname =>
      rw [h.not_name] at hname
      contradiction
  | formatted hfirst' htemplate _ _ =>
      obtain ⟨rfl, -⟩ := hfirst.unique hfirst'
      rw [h.alternative_asked, TypeOverride.template?, if_pos rfl, if_pos hnull] at htemplate
      contradiction
  | identifier hid =>
      rw [h.not_identifier] at hid
      contradiction

theorem translate_of_firstApplies (hbuiltin : CType.builtin? t = none)
    (hclean : CType.builtin? (CType.clean t) = none) {o : TypeOverride} {groups : List (Option Text)}
    (hfirst : ctx.FirstApplies (CType.clean t) o groups) :
    ctx.translate alternative t = (o.apply alternative (CType.clean t) groups).map some := by
  simp only [translate, hbuiltin, hclean, override?_eq_some_iff.2 hfirst]

theorem translate_of_passesThrough (h : ctx.PassesThrough alternative t) :
    ctx.translate alternative t = .ok (some (CType.clean t)) := by
  obtain ⟨o, groups, hfirst, hnull⟩ := h.untemplated
  rw [translate_of_firstApplies h.not_builtin h.not_builtin_clean hfirst, h.alternative_asked,
    TypeOverride.apply_of_null hnull]
  rfl

/-- What the first override that applies gives has an origin. -/
theorem origin_of_firstApplies (hctx : ctx.FormatsTo Valid) (hpass : ¬ ctx.PassesThrough alternative t)
    (hbuiltin : CType.builtin? t = none) (hclean : CType.builtin? (CType.clean t) = none)
    {o : TypeOverride} {groups : List (Option Text)}
    (hfirst : ctx.FirstApplies (CType.clean t) o groups) :
    ∃ m, ctx.translate alternative t = .ok (some m) ∧ ctx.Origin Valid alternative t m := by
  rw [translate_of_firstApplies hbuiltin hclean hfirst]
  cases htemplate : o.template? alternative with
  | some template =>
      obtain ⟨r, hfilled, hvalid⟩ :=
        hctx o hfirst.mem _ _ hfirst.applies alternative template htemplate
      rw [TypeOverride.apply_of_template? htemplate, hfilled]
      exact ⟨r, rfl, .formatted hfirst htemplate hfilled hvalid⟩
  | none =>
      obtain ⟨rfl, hnull⟩ := TypeOverride.template?_eq_none htemplate
      rw [TypeOverride.apply_of_null hnull]
      refine ⟨CType.clean t, rfl, ?_⟩
      -- the text is not passed through, so it is a name by itself
      cases hid : isIdentifier (CType.clean t) with
      | true => exact .identifier hid
      | false =>
          cases hname : CType.isBuiltinName (CType.clean t) with
          | true => exact .builtin hname
          | false =>
              exact absurd ⟨rfl, hbuiltin, hclean, ⟨o, groups, hfirst, hnull⟩, hid, hname⟩ hpass

/-- A text that is not passed through has no Python type, or one with an origin. -/
theorem origin_of_translate (hctx : ctx.FormatsTo Valid) (hpass : ¬ ctx.PassesThrough alternative t) :
    ∃ r, ctx.translate alternative t = .ok r ∧ ∀ m, r = some m → ctx.Origin Valid alternative t m := by
  have hbuiltinName : ∀ {s r : Text}, CType.builtin? s = some r →
      ∀ m, some r = some m → ctx.Origin Valid alternative t m := by
    rintro s r hr m ⟨⟩
    exact .builtin (CType.isBuiltinName_of_builtin? hr)
  -- the exits in the order in which they are tried
  cases hbuiltin : CType.builtin? t with
  | some r => exact ⟨some r, by simp only [translate, hbuiltin], hbuiltinName hbuiltin⟩
  | none =>
      cases hclean : CType.builtin? (CType.clean t) with
      | some r => exact ⟨some r, by simp only [translate, hbuiltin, hclean], hbuiltinName hclean⟩
      | none =>
          cases hover : ctx.override? (CType.clean t) with
          | some found =>
              obtain ⟨o, groups⟩ := found
              obtain ⟨m, htranslate, horigin⟩ :=
                origin_of_firstApplies hctx hpass hbuiltin hclean (override?_eq_some_iff.1 hover)
              refine ⟨some m, htranslate, ?_⟩
              rintro n ⟨⟩
              exact horigin
          | none =>
              refine ⟨identifier? (CType.clean t), by simp only [translate, hbuiltin, hclean, hover], ?_⟩
              intro m hm
              rw [identifier?] at hm
              split at hm
              · rename_i hid
                obtain rfl := Option.some.inj hm
                exact .identifier hid
              · contradiction

end

/-- **Where Python types come from.** In a context whose templates can always be filled, and with valid
types only, every C++ type is translated without a fault. The result is nothing, the Python name of a
built-in type, a filled template of the first override that applies, or an identifier, exactly if the text
is not passed through; a text that is passed through is given as it is, without marks and `const`. -/
theorem translate_origin_iff {Valid : Text → Prop} {ctx : TypeContext} (hctx : ctx.FormatsTo Valid)
    (alternative : Bool) (t : Text) :
    ∃ r, ctx.translate alternative t = .ok r ∧
      ((∀ m, r = some m → ctx.Origin Valid alternative t m) ↔ ¬ ctx.PassesThrough alternative t) ∧
      (ctx.PassesThrough alternative t → r = some (CType.clean t)) := by
  by_cases hpass : ctx.PassesThrough alternative t
  · refine ⟨_, translate_of_passesThrough hpass, ?_, fun _ => rfl⟩
    exact iff_of_false (fun h => hpass.not_origin (h _ rfl)) (not_not_intro hpass)
  · obtain ⟨r, htranslate, horigin⟩ := origin_of_translate hctx hpass
    exact ⟨r, htranslate, iff_of_true horigin hpass, fun h => absurd h hpass⟩

/-- A configuration with an override for vectors, which has one template only. -/
def vectorConfig : Json :=
  .object [(lit "type-overrides", .list [.object
    [(lit "pattern", .str (lit "std::vector<.*>")), (lit "type", .str (lit "List"))]])]

/-- Its context. -/
def vectorContext : TypeContext := (readOverrides {} vectorConfig).1

theorem formatsTo_vectorContext : vectorContext.FormatsTo fun r => isIdentifier r = true := by
  have hfields : ∀ o ∈ vectorContext.overrides,
      o.main = .str (lit "List") ∧ o.alternative = .null := by decide +kernel
  intro o ho cleaned groups _ alternative template htemplate
  obtain ⟨hmain, hnull⟩ := hfields o ho
  cases alternative with
  | false =>
      obtain rfl := Option.some.inj htemplate
      refine ⟨lit "List", ?_, by decide⟩
      rw [hmain]
      simp [Json.fillTemplate, Json.textFor, bind, Except.bind, Except.map, Template.fill,
        Template.fillFrom, lit]
  | true =>
      rw [TypeOverride.template?, if_pos rfl, if_pos hnull] at htemplate
      contradiction

theorem translate_origin_iff_vector :
    vectorContext.FormatsTo (fun r => isIdentifier r = true) ∧
    vectorContext.translate false (lit "const std::vector<int>&") = .ok (some (lit "List")) ∧
    vectorContext.Origin (fun r => isIdentifier r = true) false (lit "const std::vector<int>&")
      (lit "List") := by
  have htranslate : vectorContext.translate false (lit "const std::vector<int>&") =
      .ok (some (lit "List")) := by decide +kernel
  obtain ⟨r, hr, horigin, -⟩ :=
    translate_origin_iff formatsTo_vectorContext false (lit "const std::vector<int>&")
  obtain rfl := Except.ok.inj (htranslate.symm.trans hr)
  have hpass : ¬ vectorContext.PassesThrough false (lit "const std::vector<int>&") :=
    fun h => Bool.false_ne_true h.alternative_asked
  exact ⟨formatsTo_vectorContext, htranslate, horigin.2 hpass _ rfl⟩

/-- **A C++ type given for a Python type.** Asked for the alternative type of a vector, the context gives
the text of the C++ type, which is neither an identifier nor a filled template nor in the table. -/
theorem vector_passed_through :
    vectorContext.FormatsTo (fun r => isIdentifier r = true) ∧
    vectorContext.translate true (lit "std::vector<int>") = .ok (some (lit "std::vector<int>")) ∧
    ¬ vectorContext.Origin (fun r => isIdentifier r = true) true (lit "std::vector<int>")
      (lit "std::vector<int>") := by
  have hnull : ∀ o ∈ vectorContext.overrides, o.alternative = .null := by decide +kernel
  refine ⟨formatsTo_vectorContext, by decide +kernel, ?_⟩
  intro horigin
  cases horigin with
  | builtin hname => exact absurd hname (by decide)
  | formatted hfirst htemplate _ _ =>
      rw [TypeOverride.template?, if_pos rfl, if_pos (hnull _ hfirst.mem)] at htemplate
      contradiction
  | identifier hid => exact absurd hid (by decide)

end TypeContext

end ModuleStubs
