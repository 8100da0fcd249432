import Mathlib.Logic.Relation
import ModuleStubs.Extract.DocTree
import ModuleStubs.Proofs.Completion
import ModuleStubs.Proofs.Records

/-!
# The walk over objects

Making the skeleton of an object walks over the object, its members, their members and so on. The
places right below a place are the values of a dictionary and the shown members of a container above
the greatest depth (`Below`); those that the walk meets lead from one to the next (`Met`).

One call of the walk is known from the nested calls below it: when it gives a skeleton
(`make_completes_iff`), what is right below that skeleton (`hasPart_iff`), what it prints
(`mem_log_make`) and where it runs out of room (`exists_below_of_noRoom`). What is printed by a walk that
ends is then what is said about the places that it meets, and nothing else (`mem_log_iff_met`). The room
only decides whether there is a skeleton, not which one (`make_eq_of_le`).
-/

set_option autoImplicit false

namespace ModuleStubs

/-- The memory of some objects, in which references are positions. There is always a first object, which
references out of range lead to. -/
def Memory.ofObjects (first : Object Nat) (later : List (Object Nat)) : Memory Nat :=
  fun r => (first :: later).getD r first

namespace DocTree

/-- The two ways from a skeleton to one right below it. -/
inductive Step where
  | member
  | entry
deriving DecidableEq

/-- A skeleton is right below another one: as a member of it, or as the value of one of its entries. -/
inductive HasPart : DocTree → Step → DocTree → Prop
  | member {name type : Text} {content : Content} {doc : Option Text} {members : List DocTree}
      {t : DocTree} (h : t ∈ members) :
      HasPart (.node name type content doc (some members)) .member t
  | entry {name type : Text} {items : List (Wire.Key × DocTree)} {doc : Option Text}
      {members : Option (List DocTree)} {key : Wire.Key} {t : DocTree} (h : (key, t) ∈ items) :
      HasPart (.node name type (.entries items) doc members) .entry t

/-! ## Attributes by name -/

/-- The first entry of each name is the one that look-up finds. -/
theorem mem_firstOfEach {α : Type} {entries : List (Text × α)} {name : Text} {a : α} :
    (name, a) ∈ firstOfEach entries ↔ Record.get? name entries = some a := by
  induction entries with
  | nil => simp [firstOfEach, Record.get?]
  | cons e entries ih =>
      obtain ⟨k, v⟩ := e
      rw [firstOfEach, List.mem_cons, List.mem_filter, ih, Record.get?]
      by_cases hk : k = name
      · subst hk
        simp [eq_comm]
      · simp [hk, Ne.symm hk]

/-- Attributes are listed as look-up finds them. -/
theorem mem_listing {α : Type} {attributes : List (Text × α)} {name : Text} {a : α} :
    (name, a) ∈ listing attributes ↔ Record.get? name attributes = some a := by
  rw [listing, List.mem_mergeSort, mem_firstOfEach]

variable {ρ : Type} {memory : Memory ρ} {greatest : Int}

/-! ## Places -/

/-- The second place comes right below the first one: the value of an entry of a dictionary, or a shown
member of a container above the greatest depth whose attributes can be listed. -/
inductive Below [DecidableEq ρ] (memory : Memory ρ) (greatest : Int) : Place ρ → Step → Place ρ → Prop
  | entry {p : Place ρ} {entries : List (Wire.Key × ρ)} {e : Wire.Key × ρ}
      (hform : (memory p.object).form = .dictionary entries) (hitem : p.isItem = false)
      (he : e ∈ entries) : Below memory greatest p .entry (entryPlace p e)
  | member {p : Place ρ} {c : Object.Container ρ} {attributes : List (Text × ρ)} {part : Text} {o : ρ}
      (hform : (memory p.object).form = .container c) (hdepth : p.depth < greatest)
      (hlisted : c.attributes = .ok attributes) (ho : Record.get? part attributes = some o)
      (hshown : isShown part = true) :
      Below memory greatest p .member (memberPlace memory p c (part, o))

/-- A place that a walk meets from another one on. -/
abbrev Met [DecidableEq ρ] (memory : Memory ρ) (greatest : Int) : Place ρ → Place ρ → Prop :=
  Relation.ReflTransGen fun p q => ∃ step, Below memory greatest p step q

theorem depth_of_below [DecidableEq ρ] {p q : Place ρ} {step : Step} (h : Below memory greatest p step q) :
    q.depth = p.depth + 1 := by
  cases h with
  | entry _ _ _ => rfl
  | member _ _ _ _ _ => rfl

/-- A place where an item, if it is one, is a number. -/
def Numbered (memory : Memory ρ) (p : Place ρ) : Prop :=
  p.isItem = true → (∃ v, (memory p.object).form = .value v) ∨ ∃ n, (memory p.object).number = .ok n

/-- The object at a place has members that are shown: it is a container above the greatest depth, and
there are attributes to list. -/
def ListsMembers (memory : Memory ρ) (greatest : Int) (p : Place ρ) : Prop :=
  ∃ c attributes, (memory p.object).form = .container c ∧ p.depth < greatest ∧
    c.attributes = .ok attributes ∧ attributes ≠ []

/-- What is said about a place whose members are not shown: that it is too deep, or that they cannot be
listed. -/
def complaint? (memory : Memory ρ) (greatest : Int) (p : Place ρ) : Option Text :=
  match (memory p.object).form with
  | .container c =>
    if greatest ≤ p.depth then some (depthReached p.name)
    else
      match c.attributes with
      | .error text => some (noMembers text)
      | .ok _ => none
  | _ => none

/-! ## What is shown beside members -/

section Content

variable {again : Place ρ → Making DocTree} {p : Place ρ}

/-- What is shown of an object without walking over entries. -/
def ownContent (memory : Memory ρ) (p : Place ρ) : Except Stop Content :=
  match (memory p.object).form, p.isItem with
  | .value v, _ => .ok (.plain v)
  | _, true => ((memory p.object).number.mapError .noNumber).map fun n => .plain (.int n)
  | .property getter setter deleter, false => .ok (.access getter setter deleter)
  | _, false => .ok .nothing

theorem makeContent_dictionary {entries : List (Wire.Key × ρ)}
    (hform : (memory p.object).form = .dictionary entries) (hitem : p.isItem = false) :
    makeContent memory again p = (do
      let items ← entries.mapM fun e => do
        let t ← again (entryPlace p e)
        return (e.1, t)
      return .entries items) := by
  rw [makeContent, hform, hitem]
  rfl

/-- Only dictionaries are walked over, and not as items. -/
theorem makeContent_own
    (h : ∀ entries, (memory p.object).form = .dictionary entries → p.isItem = true) :
    makeContent memory again p = ⟨[], ownContent memory p⟩ := by
  rw [makeContent, ownContent]
  cases hform : (memory p.object).form with
  | value v => rfl
  | dictionary entries =>
      rw [h entries hform]
      cases (memory p.object).number <;> rfl
  | _ => cases p.isItem <;> cases (memory p.object).number <;> rfl

/-- What is shown without a walk holds no entries, and only an item that is no number stops it. -/
theorem ownContent_cases (memory : Memory ρ) (p : Place ρ) :
    (∃ c, ownContent memory p = .ok c ∧ (∀ items, c ≠ .entries items) ∧ Numbered memory p) ∨
      ∃ text, ownContent memory p = .error (.noNumber text) ∧ ¬Numbered memory p := by
  rw [ownContent, Numbered]
  cases (memory p.object).form with
  | value v => simp
  | _ => cases p.isItem <;> cases (memory p.object).number <;> simp [Except.map]

theorem ownContent_completes_iff :
    (∃ c, ownContent memory p = .ok c) ↔ Numbered memory p := by
  rcases ownContent_cases memory p with ⟨c, hc, -, hnumbered⟩ | ⟨text, htext, hnumbered⟩
  · exact iff_of_true ⟨c, hc⟩ hnumbered
  · exact iff_of_false (by simp [htext]) hnumbered

theorem ownContent_ne_entries (items : List (Wire.Key × DocTree)) :
    ownContent memory p ≠ .ok (.entries items) := by
  rcases ownContent_cases memory p with ⟨c, hc, hentries, -⟩ | ⟨text, htext, -⟩
  · rw [hc]
    exact fun h => hentries items (Except.ok.inj h)
  · simp [htext]

theorem ownContent_ne_noRoom : ownContent memory p ≠ .error .noRoom := by
  rcases ownContent_cases memory p with ⟨c, hc, -⟩ | ⟨text, htext, -⟩
  · simp [hc]
  · simp [htext]

variable [DecidableEq ρ]

/-- A place is that of a dictionary that is walked over, or there are no entries below it. -/
theorem walked_or_own (memory : Memory ρ) (greatest : Int) (p : Place ρ) :
    (∃ entries, (memory p.object).form = .dictionary entries ∧ p.isItem = false) ∨
      (∀ again, makeContent memory again p = ⟨[], ownContent memory p⟩) ∧
        ∀ q, ¬Below memory greatest p .entry q := by
  by_cases h : ∃ entries, (memory p.object).form = .dictionary entries ∧ p.isItem = false
  · exact Or.inl h
  · refine Or.inr ⟨fun again => makeContent_own fun entries hform => ?_, ?_⟩
    · by_contra hitem
      exact h ⟨entries, hform, by simpa using hitem⟩
    · intro q hq
      cases hq with
      | entry hform hitem _ => exact h ⟨_, hform, hitem⟩

theorem below_entry_iff {entries : List (Wire.Key × ρ)}
    (hform : (memory p.object).form = .dictionary entries) (hitem : p.isItem = false) {q : Place ρ} :
    Below memory greatest p .entry q ↔ ∃ e ∈ entries, q = entryPlace p e := by
  constructor
  · intro hq
    cases hq with
    | entry hform' _ he =>
        obtain rfl := Form.dictionary.inj (hform.symm.trans hform')
        exact ⟨_, he, rfl⟩
  · rintro ⟨e, he, rfl⟩
    exact .entry hform hitem he

theorem makeContent_completes_iff (greatest : Int) :
    (∃ c, (makeContent memory again p).result = .ok c) ↔ Numbered memory p ∧
      ∀ q, Below memory greatest p .entry q → ∃ t, (again q).result = .ok t := by
  rcases walked_or_own memory greatest p with ⟨entries, hform, hitem⟩ | ⟨hown, hbelow⟩
  · have hentry : ∀ e : Wire.Key × ρ, (∃ b, (do
        let t ← again (entryPlace p e)
        return (e.1, t) : Making (Wire.Key × DocTree)).result = .ok b) ↔
        ∃ t, (again (entryPlace p e)).result = .ok t := by
      intro e
      simp [Trace.result_bind_eq_ok]
    have hnumbered : Numbered memory p := fun h => by simp [hitem] at h
    have hresult : (∃ c, (makeContent memory again p).result = .ok c) ↔
        ∀ e ∈ entries, ∃ t, (again (entryPlace p e)).result = .ok t := by
      rw [← forall₂_congr fun e _ => hentry e, ← Trace.mapM_completes_iff,
        makeContent_dictionary hform hitem]
      simp [Trace.result_bind_eq_ok]
    rw [hresult, and_iff_right hnumbered]
    constructor
    · intro h q hq
      obtain ⟨e, he, rfl⟩ := (below_entry_iff hform hitem).1 hq
      exact h e he
    · exact fun h e he => h _ (.entry hform hitem he)
  · rw [hown, ownContent_completes_iff]
    exact (and_iff_left fun q hq => absurd hq (hbelow q)).symm

/-- The entries that are shown, and what is printed for them, are those of the nested calls. -/
theorem makeContent_completed (greatest : Int) {content : Content}
    (h : (makeContent memory again p).result = .ok content) :
    (∀ u, (∃ items key, content = .entries items ∧ (key, u) ∈ items) ↔
      ∃ q, Below memory greatest p .entry q ∧ (again q).result = .ok u) ∧
    ∀ x, x ∈ (makeContent memory again p).log ↔
      ∃ q, Below memory greatest p .entry q ∧ x ∈ (again q).log := by
  rcases walked_or_own memory greatest p with ⟨entries, hform, hitem⟩ | ⟨hown, hbelow⟩
  · rw [makeContent_dictionary hform hitem] at h ⊢
    obtain ⟨items, hitems, h⟩ := Trace.result_bind_eq_ok.1 h
    obtain rfl := Except.ok.inj h
    have hall := Trace.mapM_completes_iff.1 ⟨items, hitems⟩
    constructor
    · intro u
      constructor
      · rintro ⟨_, key, heq, hu⟩
        obtain rfl := Content.entries.inj heq
        obtain ⟨e, he, hresult⟩ := (Trace.mem_of_mapM hitems).1 hu
        obtain ⟨t, ht, heq⟩ := Trace.result_bind_eq_ok.1 hresult
        obtain ⟨-, rfl⟩ := Prod.mk.inj (Except.ok.inj heq)
        exact ⟨_, .entry hform hitem he, ht⟩
      · rintro ⟨q, hq, hu⟩
        obtain ⟨e, he, rfl⟩ := (below_entry_iff hform hitem).1 hq
        refine ⟨items, e.1, rfl, (Trace.mem_of_mapM hitems).2 ⟨e, he, ?_⟩⟩
        exact Trace.result_bind_eq_ok.2 ⟨u, hu, rfl⟩
    · intro x
      have hlog : ∀ e ∈ entries, (do
          let t ← again (entryPlace p e)
          return (e.1, t) : Making (Wire.Key × DocTree)).log = (again (entryPlace p e)).log := by
        intro e he
        obtain ⟨b, hb⟩ := hall e he
        obtain ⟨t, ht, -⟩ := Trace.result_bind_eq_ok.1 hb
        rw [Trace.log_bind ht]
        simp
      rw [Trace.log_bind hitems, Trace.log_mapM hitems, List.flatMap_congr hlog]
      simp only [Trace.pure_eq, List.append_nil, List.mem_flatMap]
      constructor
      · rintro ⟨e, he, hx⟩
        exact ⟨_, .entry hform hitem he, hx⟩
      · rintro ⟨q, hq, hx⟩
        obtain ⟨e, he, rfl⟩ := (below_entry_iff hform hitem).1 hq
        exact ⟨e, he, hx⟩
  · rw [hown] at h ⊢
    constructor
    · intro u
      refine iff_of_false ?_ fun ⟨q, hq, _⟩ => hbelow q hq
      rintro ⟨items, key, rfl, -⟩
      exact ownContent_ne_entries items h
    · intro x
      exact iff_of_false (by simp) fun ⟨q, hq, _⟩ => hbelow q hq

theorem makeContent_noRoom (greatest : Int) (h : (makeContent memory again p).result = .error .noRoom) :
    ∃ q, Below memory greatest p .entry q ∧ (again q).result = .error .noRoom := by
  rcases walked_or_own memory greatest p with ⟨entries, hform, hitem⟩ | ⟨hown, -⟩
  · rw [makeContent_dictionary hform hitem] at h
    rcases Trace.result_bind_eq_error.1 h with h | ⟨items, -, h⟩
    · obtain ⟨e, he, h⟩ := Trace.exists_of_mapM_eq_error h
      rcases Trace.result_bind_eq_error.1 h with h | ⟨t, -, h⟩
      · exact ⟨_, .entry hform hitem he, h⟩
      · contradiction
    · contradiction
  · rw [hown] at h
    exact absurd h ownContent_ne_noRoom

theorem makeContent_congr (greatest : Int) {again' : Place ρ → Making DocTree}
    (h : ∀ q, Below memory greatest p .entry q → again q = again' q) :
    makeContent memory again p = makeContent memory again' p := by
  rcases walked_or_own memory greatest p with ⟨entries, hform, hitem⟩ | ⟨hown, -⟩
  · rw [makeContent_dictionary hform hitem, makeContent_dictionary hform hitem]
    refine congrArg (· >>= _) (Trace.mapM_congr fun e he => ?_)
    rw [h _ (.entry hform hitem he)]
  · rw [hown, hown]

end Content

/-! ## Members -/

section Members

variable [DecidableEq ρ] {again : Place ρ → Making DocTree} {p : Place ρ}

/-- The attributes that are shown as members. -/
def shownAttributes (attributes : List (Text × ρ)) : List (Text × ρ) :=
  (listing attributes).filter fun e => isShown e.1

theorem makeMembers_listed {c : Object.Container ρ} {attributes : List (Text × ρ)}
    (hform : (memory p.object).form = .container c) (hdepth : p.depth < greatest)
    (hlisted : c.attributes = .ok attributes) (hne : attributes ≠ []) :
    makeMembers memory greatest again p = (do
      let members ← (shownAttributes attributes).mapM fun e => again (memberPlace memory p c e)
      return some members) := by
  rw [makeMembers, hform]
  simp only [if_neg (Int.not_le.2 hdepth), hlisted, List.isEmpty_iff, if_neg hne]
  rfl

/-- Where members are not listed, nothing is below as a member. -/
theorem listed_or_unlisted (memory : Memory ρ) (greatest : Int) (p : Place ρ) :
    (∃ c attributes, (memory p.object).form = .container c ∧ p.depth < greatest ∧
        c.attributes = .ok attributes ∧ attributes ≠ []) ∨
      ¬ListsMembers memory greatest p ∧
      (∀ again, makeMembers memory greatest again p =
        ⟨(complaint? memory greatest p).toList, .ok none⟩) ∧
        ∀ q, ¬Below memory greatest p .member q := by
  by_cases h : ListsMembers memory greatest p
  · exact Or.inl h
  · refine Or.inr ⟨h, fun again => ?_, ?_⟩
    · rw [makeMembers, complaint?]
      cases hform : (memory p.object).form with
      | container c =>
          rcases Int.lt_or_le p.depth greatest with hdepth | hdepth
          · simp only [if_neg (Int.not_le.2 hdepth)]
            cases hlisted : c.attributes with
            | error text => rfl
            | ok attributes =>
                cases attributes with
                | nil => rfl
                | cons e attributes => exact absurd ⟨c, _, hform, hdepth, hlisted, List.cons_ne_nil _ _⟩ h
          · simp only [if_pos hdepth]
            rfl
      | _ => rfl
    · intro q hq
      cases hq with
      | member hform hdepth hlisted ho _ =>
          refine h ⟨_, _, hform, hdepth, hlisted, ?_⟩
          rintro rfl
          contradiction

theorem below_member_iff {c : Object.Container ρ} {attributes : List (Text × ρ)}
    (hform : (memory p.object).form = .container c) (hdepth : p.depth < greatest)
    (hlisted : c.attributes = .ok attributes) {q : Place ρ} :
    Below memory greatest p .member q ↔
      ∃ e ∈ shownAttributes attributes, q = memberPlace memory p c e := by
  constructor
  · intro hq
    cases hq with
    | member hform' _ hlisted' ho hshown =>
        obtain rfl := Form.container.inj (hform.symm.trans hform')
        obtain rfl := Except.ok.inj (hlisted.symm.trans hlisted')
        exact ⟨_, List.mem_filter.2 ⟨mem_listing.2 ho, hshown⟩, rfl⟩
  · rintro ⟨e, he, rfl⟩
    obtain ⟨hmem, hshown⟩ := List.mem_filter.1 he
    exact .member hform hdepth hlisted (mem_listing.1 hmem) hshown

omit [DecidableEq ρ] in
theorem complaint?_of_listed {c : Object.Container ρ} {attributes : List (Text × ρ)}
    (hform : (memory p.object).form = .container c) (hdepth : p.depth < greatest)
    (hlisted : c.attributes = .ok attributes) : complaint? memory greatest p = none := by
  rw [complaint?, hform]
  simp only [if_neg (Int.not_le.2 hdepth), hlisted]

theorem makeMembers_completes_iff :
    (∃ ms, (makeMembers memory greatest again p).result = .ok ms) ↔
      ∀ q, Below memory greatest p .member q → ∃ t, (again q).result = .ok t := by
  rcases listed_or_unlisted memory greatest p with
    ⟨c, attributes, hform, hdepth, hlisted, hne⟩ | ⟨-, hown, hbelow⟩
  · have hresult : (∃ ms, (makeMembers memory greatest again p).result = .ok ms) ↔
        ∀ e ∈ shownAttributes attributes, ∃ t, (again (memberPlace memory p c e)).result = .ok t := by
      rw [← Trace.mapM_completes_iff, makeMembers_listed hform hdepth hlisted hne]
      simp [Trace.result_bind_eq_ok]
    rw [hresult]
    constructor
    · intro h q hq
      obtain ⟨e, he, rfl⟩ := (below_member_iff hform hdepth hlisted).1 hq
      exact h e he
    · exact fun h e he => h _ ((below_member_iff hform hdepth hlisted).2 ⟨e, he, rfl⟩)
  · rw [hown]
    exact iff_of_true ⟨_, rfl⟩ fun q hq => absurd hq (hbelow q)

/-- The members that are shown are those of the nested calls; so is what is printed, but for what is
said about the place itself. -/
theorem makeMembers_completed {members : Option (List DocTree)}
    (h : (makeMembers memory greatest again p).result = .ok members) :
    (members.isSome = true ↔ ListsMembers memory greatest p) ∧
    (∀ u, (∃ ts, members = some ts ∧ u ∈ ts) ↔
      ∃ q, Below memory greatest p .member q ∧ (again q).result = .ok u) ∧
    ∀ x, x ∈ (makeMembers memory greatest again p).log ↔ complaint? memory greatest p = some x ∨
      ∃ q, Below memory greatest p .member q ∧ x ∈ (again q).log := by
  rcases listed_or_unlisted memory greatest p with
    ⟨c, attributes, hform, hdepth, hlisted, hne⟩ | ⟨hunlisted, hown, hbelow⟩
  · have hiff : ∀ q, Below memory greatest p .member q ↔
        ∃ e ∈ shownAttributes attributes, q = memberPlace memory p c e :=
      fun _ => below_member_iff hform hdepth hlisted
    rw [makeMembers_listed hform hdepth hlisted hne] at h ⊢
    obtain ⟨ts, hts, h⟩ := Trace.result_bind_eq_ok.1 h
    obtain rfl := Except.ok.inj h
    refine ⟨iff_of_true rfl ⟨c, attributes, hform, hdepth, hlisted, hne⟩, ?_, ?_⟩
    · intro u
      constructor
      · rintro ⟨_, heq, hu⟩
        obtain rfl := Option.some.inj heq
        obtain ⟨e, he, hresult⟩ := (Trace.mem_of_mapM hts).1 hu
        exact ⟨_, (hiff _).2 ⟨e, he, rfl⟩, hresult⟩
      · rintro ⟨q, hq, hu⟩
        obtain ⟨e, he, rfl⟩ := (hiff q).1 hq
        exact ⟨ts, rfl, (Trace.mem_of_mapM hts).2 ⟨e, he, hu⟩⟩
    · intro x
      rw [complaint?_of_listed hform hdepth hlisted, Trace.log_bind hts, Trace.log_mapM hts]
      simp only [Trace.pure_eq, List.append_nil, List.mem_flatMap, reduceCtorEq, false_or]
      constructor
      · rintro ⟨e, he, hx⟩
        exact ⟨_, (hiff _).2 ⟨e, he, rfl⟩, hx⟩
      · rintro ⟨q, hq, hx⟩
        obtain ⟨e, he, rfl⟩ := (hiff q).1 hq
        exact ⟨e, he, hx⟩
  · rw [hown] at h ⊢
    obtain rfl := Except.ok.inj h
    refine ⟨iff_of_false (by simp) hunlisted, ?_, ?_⟩
    · intro u
      exact iff_of_false (by simp) fun ⟨q, hq, _⟩ => hbelow q hq
    · intro x
      rw [or_iff_left fun ⟨q, hq, _⟩ => hbelow q hq]
      exact Option.mem_toList

theorem makeMembers_noRoom (h : (makeMembers memory greatest again p).result = .error .noRoom) :
    ∃ q, Below memory greatest p .member q ∧ (again q).result = .error .noRoom := by
  rcases listed_or_unlisted memory greatest p with
    ⟨c, attributes, hform, hdepth, hlisted, hne⟩ | ⟨-, hown, -⟩
  · rw [makeMembers_listed hform hdepth hlisted hne] at h
    rcases Trace.result_bind_eq_error.1 h with h | ⟨ts, -, h⟩
    · obtain ⟨e, he, h⟩ := Trace.exists_of_mapM_eq_error h
      exact ⟨_, (below_member_iff hform hdepth hlisted).2 ⟨e, he, rfl⟩, h⟩
    · contradiction
  · rw [hown] at h
    contradiction

theorem makeMembers_congr {again' : Place ρ → Making DocTree}
    (h : ∀ q, Below memory greatest p .member q → again q = again' q) :
    makeMembers memory greatest again p = makeMembers memory greatest again' p := by
  rcases listed_or_unlisted memory greatest p with
    ⟨c, attributes, hform, hdepth, hlisted, hne⟩ | ⟨-, hown, -⟩
  · rw [makeMembers_listed hform hdepth hlisted hne, makeMembers_listed hform hdepth hlisted hne]
    refine congrArg (· >>= _) (Trace.mapM_congr fun e he => ?_)
    exact h _ ((below_member_iff hform hdepth hlisted).2 ⟨e, he, rfl⟩)
  · rw [hown, hown]

end Members

/-! ## One call -/

section Call

variable [DecidableEq ρ] {room : Nat} {p : Place ρ} {t : DocTree}

/-- A call gives a skeleton exactly if the nested calls do and an item is a number. -/
theorem make_completes_iff : (∃ t, (make memory greatest (room + 1) p).result = .ok t) ↔
    Numbered memory p ∧ ∀ step q, Below memory greatest p step q →
      ∃ u, (make memory greatest room q).result = .ok u := by
  have hparts : (∃ t, (make memory greatest (room + 1) p).result = .ok t) ↔
      (∃ c, (makeContent memory (make memory greatest room) p).result = .ok c) ∧
        ∃ ms, (makeMembers memory greatest (make memory greatest room) p).result = .ok ms := by
    rw [make]
    constructor
    · rintro ⟨t, ht⟩
      obtain ⟨c, hc, ht⟩ := Trace.result_bind_eq_ok.1 ht
      obtain ⟨ms, hms, -⟩ := Trace.result_bind_eq_ok.1 ht
      exact ⟨⟨c, hc⟩, ms, hms⟩
    · rintro ⟨⟨c, hc⟩, ms, hms⟩
      exact ⟨_, Trace.result_bind_eq_ok.2 ⟨c, hc, Trace.result_bind_eq_ok.2 ⟨ms, hms, rfl⟩⟩⟩
  rw [hparts, makeContent_completes_iff greatest, makeMembers_completes_iff, and_assoc]
  refine and_congr_right fun _ => ⟨?_, fun h => ⟨h .entry, h .member⟩⟩
  rintro ⟨hentry, hmember⟩ (_ | _)
  · exact hmember
  · exact hentry

/-- The parts of a skeleton: its content, its members, and what is printed for both. -/
theorem make_completed (h : (make memory greatest (room + 1) p).result = .ok t) :
    ∃ content members,
      t = .node p.name (memory p.object).typeName content (shownDoc (memory p.object).doc) members ∧
      (makeContent memory (make memory greatest room) p).result = .ok content ∧
      (makeMembers memory greatest (make memory greatest room) p).result = .ok members ∧
      (make memory greatest (room + 1) p).log =
        (makeContent memory (make memory greatest room) p).log ++
          (makeMembers memory greatest (make memory greatest room) p).log := by
  rw [make] at h ⊢
  obtain ⟨content, hcontent, h⟩ := Trace.result_bind_eq_ok.1 h
  obtain ⟨members, hmembers, h⟩ := Trace.result_bind_eq_ok.1 h
  refine ⟨content, members, (Except.ok.inj h).symm, hcontent, hmembers, ?_⟩
  rw [Trace.log_bind hcontent, Trace.log_bind hmembers]
  simp

/-- What is right below a skeleton are the skeletons of the places right below its place. -/
theorem hasPart_iff (h : (make memory greatest (room + 1) p).result = .ok t) {step : Step}
    {u : DocTree} : t.HasPart step u ↔
      ∃ q, Below memory greatest p step q ∧ (make memory greatest room q).result = .ok u := by
  obtain ⟨content, members, rfl, hcontent, hmembers, -⟩ := make_completed h
  cases step with
  | member =>
      rw [← (makeMembers_completed hmembers).2.1]
      constructor
      · intro hu
        cases hu with
        | member hu => exact ⟨_, rfl, hu⟩
      · rintro ⟨ts, rfl, hu⟩
        exact .member hu
  | entry =>
      rw [← (makeContent_completed greatest hcontent).1]
      constructor
      · intro hu
        cases hu with
        | entry hu => exact ⟨_, _, rfl, hu⟩
      · rintro ⟨items, key, rfl, hu⟩
        exact .entry hu

/-- What is printed at a place is what is said about it, or printed right below it. -/
theorem mem_log_make (h : (make memory greatest (room + 1) p).result = .ok t) (x : Text) :
    x ∈ (make memory greatest (room + 1) p).log ↔ complaint? memory greatest p = some x ∨
      ∃ step q, Below memory greatest p step q ∧ x ∈ (make memory greatest room q).log := by
  obtain ⟨content, members, -, hcontent, hmembers, hlog⟩ := make_completed h
  rw [hlog, List.mem_append, (makeContent_completed greatest hcontent).2,
    (makeMembers_completed hmembers).2.2]
  constructor
  · rintro (⟨q, hq, hx⟩ | hsaid | ⟨q, hq, hx⟩)
    · exact Or.inr ⟨.entry, q, hq, hx⟩
    · exact Or.inl hsaid
    · exact Or.inr ⟨.member, q, hq, hx⟩
  · rintro (hsaid | ⟨step, q, hq, hx⟩)
    · exact Or.inr (Or.inl hsaid)
    · cases step with
      | member => exact Or.inr (Or.inr ⟨q, hq, hx⟩)
      | entry => exact Or.inl ⟨q, hq, hx⟩

/-- A call that is out of room has a nested one that is. -/
theorem exists_below_of_noRoom (h : (make memory greatest (room + 1) p).result = .error .noRoom) :
    ∃ step q, Below memory greatest p step q ∧
      (make memory greatest room q).result = .error .noRoom := by
  rw [make] at h
  rcases Trace.result_bind_eq_error.1 h with h | ⟨content, -, h⟩
  · obtain ⟨q, hq, h⟩ := makeContent_noRoom greatest h
    exact ⟨.entry, q, hq, h⟩
  · rcases Trace.result_bind_eq_error.1 h with h | ⟨members, -, h⟩
    · obtain ⟨q, hq, h⟩ := makeMembers_noRoom h
      exact ⟨.member, q, hq, h⟩
    · contradiction

end Call

/-! ## All calls -/

variable [DecidableEq ρ]

/-- More room than needed changes nothing. -/
theorem make_succ_of_completed : ∀ {room : Nat} {p : Place ρ} {t : DocTree},
    (make memory greatest room p).result = .ok t →
      make memory greatest (room + 1) p = make memory greatest room p
  | 0, _, _, h => by contradiction
  | room + 1, p, t, h => by
      -- each nested call gives a skeleton, so that more room changes none of them
      have hbelow : ∀ step q, Below memory greatest p step q →
          make memory greatest (room + 1) q = make memory greatest room q := by
        intro step q hq
        obtain ⟨u, hu⟩ := (make_completes_iff.1 ⟨t, h⟩).2 step q hq
        exact make_succ_of_completed hu
      rw [make, makeContent_congr greatest (hbelow .entry),
        makeMembers_congr (hbelow .member)]
      rfl

theorem make_eq_of_le {room room' : Nat} (hle : room ≤ room') {p : Place ρ} {t : DocTree}
    (h : (make memory greatest room p).result = .ok t) :
    make memory greatest room' p = make memory greatest room p := by
  induction hle with
  | refl => rfl
  | step _ ih =>
      rw [← ih] at h
      rw [make_succ_of_completed h, ih]

/-- What a walk that ends prints is what is said about the places that it meets. -/
theorem mem_log_iff_met {room : Nat} {p : Place ρ} {t : DocTree}
    (h : (make memory greatest room p).result = .ok t) (x : Text) :
    x ∈ (make memory greatest room p).log ↔
      ∃ q, Met memory greatest p q ∧ complaint? memory greatest q = some x := by
  induction room generalizing p t with
  | zero => contradiction
  | succ room ih =>
      have hnested := (make_completes_iff.1 ⟨t, h⟩).2
      rw [mem_log_make h]
      constructor
      · rintro (hsaid | ⟨step, q, hq, hx⟩)
        · exact ⟨p, .refl, hsaid⟩
        · obtain ⟨u, hu⟩ := hnested step q hq
          obtain ⟨r, hr, hsaid⟩ := (ih hu).1 hx
          exact ⟨r, .head ⟨step, hq⟩ hr, hsaid⟩
      · rintro ⟨r, hr, hsaid⟩
        rcases hr.cases_head with rfl | ⟨q, ⟨step, hq⟩, hr⟩
        · exact Or.inl hsaid
        · obtain ⟨u, hu⟩ := hnested step q hq
          exact Or.inr ⟨step, q, hq, (ih hu).2 ⟨r, hr, hsaid⟩⟩

end DocTree

end ModuleStubs
