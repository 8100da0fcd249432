import ModuleStubs.Proofs.Extract.Walk

/-!
# How deep a skeleton goes

A skeleton holds others in two ways, as its members and as the values of its entries (`HasPart`), and each
way leads one level down (`LiesAt`). The greatest depth of a walk holds back the members and not the entries.
What lies below a skeleton are the skeletons of the places that the walk meets, each as many levels down as
the place (`met_of_liesAt`, `exists_liesAt_of_met`).

Objects may contain themselves. A walk that goes in circles through members ends because of the greatest
depth, and one that goes in circles through dictionaries does not end: there is a skeleton, given room enough,
exactly if the walk meets no endless chain of places and no item that is not a number (`exists_make_iff`).
`depth_bounded_iff` puts this together.
-/

set_option autoImplicit false

namespace ModuleStubs

namespace DocTree

/-- A skeleton is found in another one, so many levels below it. -/
inductive LiesAt (t : DocTree) : Nat → DocTree → Prop
  | root : LiesAt t 0 t
  | part {n : Nat} {u v : DocTree} {step : Step} (h : LiesAt t n u) (hv : u.HasPart step v) :
      LiesAt t (n + 1) v

section Depth

variable {ρ : Type} [DecidableEq ρ] {memory : Memory ρ} {greatest : Int} {room : Nat} {p q : Place ρ}
  {t u v : DocTree} {n : Nat} {step : Step}

/-! ## Levels -/

/-- What lies in the skeleton of a place is the skeleton of a place that the walk meets from there on, as many
levels down. -/
theorem met_of_liesAt (ht : (make memory greatest room p).result = .ok t) (h : t.LiesAt n u) :
    ∃ q room', Met memory greatest p q ∧ q.depth = p.depth + n ∧
      (make memory greatest room' q).result = .ok u := by
  induction h with
  | root => exact ⟨p, room, .refl, (Int.add_zero p.depth).symm, ht⟩
  | part _ hv ih =>
      obtain ⟨q, room', hmet, hdepth, hq⟩ := ih
      cases room' with
      | zero => contradiction
      | succ room' =>
          obtain ⟨r, hr, hresult⟩ := (hasPart_iff hq).1 hv
          refine ⟨r, room', hmet.tail ⟨_, hr⟩, ?_, hresult⟩
          rw [depth_of_below hr, hdepth, Int.add_assoc]
          rfl

/-- Each place that the walk meets has its skeleton in that of the first one, as many levels down. -/
theorem exists_liesAt_of_met (ht : (make memory greatest room p).result = .ok t)
    (h : Met memory greatest p q) :
    ∃ n u room', t.LiesAt n u ∧ q.depth = p.depth + n ∧
      (make memory greatest room' q).result = .ok u := by
  induction h with
  | refl => exact ⟨0, t, room, .root, (Int.add_zero p.depth).symm, ht⟩
  | @tail q r _ hbelow ih =>
      obtain ⟨n, u, room', hlies, hdepth, hu⟩ := ih
      obtain ⟨step, hr⟩ := hbelow
      cases room' with
      | zero => contradiction
      | succ room' =>
          obtain ⟨v, hv⟩ := (make_completes_iff.1 ⟨u, hu⟩).2 step r hr
          refine ⟨n + 1, v, room', .part hlies ((hasPart_iff hu).2 ⟨r, hr, hv⟩), ?_, hv⟩
          rw [depth_of_below hr, hdepth, Int.add_assoc]
          rfl

/-- What stands right below a skeleton is the skeleton of a place right below one that the walk meets. -/
theorem below_of_hasPart (ht : (make memory greatest room p).result = .ok t) (h : t.LiesAt n u)
    (hv : u.HasPart step v) :
    ∃ q r, Met memory greatest p q ∧ q.depth = p.depth + n ∧ Below memory greatest q step r := by
  obtain ⟨q, room', hmet, hdepth, hq⟩ := met_of_liesAt ht h
  cases room' with
  | zero => contradiction
  | succ room' =>
      obtain ⟨r, hr, -⟩ := (hasPart_iff hq).1 hv
      exact ⟨q, r, hmet, hdepth, hr⟩

theorem depth_lt_of_member (h : Below memory greatest p .member q) : p.depth < greatest := by
  cases h with
  | member _ hdepth _ _ _ => exact hdepth

/-- Each member lies at the greatest depth at most. -/
theorem member_bounded (ht : (make memory greatest room p).result = .ok t) (hu : t.LiesAt n u)
    (hv : u.HasPart .member v) : p.depth + (n + 1) ≤ greatest := by
  obtain ⟨q, r, -, hdepth, hr⟩ := below_of_hasPart ht hu hv
  have hlt := depth_lt_of_member hr
  omega

/-- The dictionaries with an entry that a walk meets are all met above the greatest depth. -/
def EntriesBounded (memory : Memory ρ) (greatest : Int) (p : Place ρ) : Prop :=
  ∀ q r, Met memory greatest p q → Below memory greatest q .entry r → q.depth < greatest

/-- All that lies in a skeleton does so at the greatest depth at most, exactly if the entries do. -/
theorem bounded_iff (ht : (make memory greatest room p).result = .ok t) :
    (∀ n u, t.LiesAt n u → p.depth + n ≤ greatest) ↔
      p.depth ≤ greatest ∧ EntriesBounded memory greatest p := by
  constructor
  · intro hall
    refine ⟨by simpa using hall 0 t .root, ?_⟩
    intro q r hmet hr
    -- the entry lies one level below its dictionary, which so lies above the bound
    obtain ⟨n, u, room', hu, hdepth, hresult⟩ := exists_liesAt_of_met ht (hmet.tail ⟨_, hr⟩)
    have hle := hall n u hu
    have hnext := depth_of_below hr
    omega
  · rintro ⟨hroot, hentries⟩ n u hu
    cases hu with
    | root => simpa using hroot
    | @part n u v step hu hv =>
        cases step with
        | member => exact_mod_cast member_bounded ht hu hv
        | entry =>
            obtain ⟨q, r, hmet, hdepth, hr⟩ := below_of_hasPart ht hu hv
            have hlt := hentries q r hmet hr
            push_cast
            omega

/-! ## Room -/

/-- Where the greatest depth bounds the entries as well, room for one nested call more than there are levels is
enough, whatever circles there are. -/
theorem room_suffices : ∀ {room : Nat} {p : Place ρ}, EntriesBounded memory greatest p → 0 < room →
    greatest - p.depth < room → (make memory greatest room p).result ≠ .error .noRoom
  | 0, _, _, hroom, _ => absurd hroom (Nat.lt_irrefl 0)
  | room + 1, p, hentries, _, hlevels => by
      intro h
      obtain ⟨step, q, hq, h⟩ := exists_below_of_noRoom h
      have hlt : p.depth < greatest := by
        cases step with
        | member => exact depth_lt_of_member hq
        | entry => exact hentries p q .refl hq
      have hnext := depth_of_below hq
      refine room_suffices ?_ ?_ ?_ h
      · exact fun r s hmet hs => hentries r s (.head ⟨step, hq⟩ hmet) hs
      · omega
      · omega

/-- The places right below a place are finitely many. -/
theorem exists_list_of_below (memory : Memory ρ) (greatest : Int) (p : Place ρ) :
    ∃ qs : List (Place ρ), ∀ step q, Below memory greatest p step q → q ∈ qs := by
  cases hform : (memory p.object).form with
  | dictionary entries =>
      refine ⟨entries.map (entryPlace p), fun step q hq => ?_⟩
      cases hq with
      | entry hform' _ he =>
          obtain rfl := Form.dictionary.inj (hform.symm.trans hform')
          exact List.mem_map_of_mem he
      | member hform' _ _ _ _ => simp [hform] at hform'
  | container c =>
      cases hlisted : c.attributes with
      | error text =>
          refine ⟨[], fun step q hq => ?_⟩
          cases hq with
          | entry hform' _ _ => simp [hform] at hform'
          | member hform' _ hlisted' _ _ =>
              obtain rfl := Form.container.inj (hform.symm.trans hform')
              simp [hlisted] at hlisted'
      | ok attributes =>
          refine ⟨attributes.map (memberPlace memory p c), fun step q hq => ?_⟩
          cases hq with
          | entry hform' _ _ => simp [hform] at hform'
          | member hform' _ hlisted' ho _ =>
              obtain rfl := Form.container.inj (hform.symm.trans hform')
              obtain rfl := Except.ok.inj (hlisted.symm.trans hlisted')
              exact List.mem_map_of_mem (Record.mem_of_get? ho)
  | _ =>
      refine ⟨[], fun step q hq => ?_⟩
      cases hq with
      | entry hform' _ _ => simp [hform] at hform'
      | member hform' _ _ _ _ => simp [hform] at hform'

/-- Skeletons that can be made with some room each can all be made with the same room. -/
theorem exists_common_room (qs : List (Place ρ)) {P : Place ρ → Prop}
    (h : ∀ q ∈ qs, P q → ∃ room t, (make memory greatest room q).result = .ok t) :
    ∃ room, ∀ q ∈ qs, P q → ∃ t, (make memory greatest room q).result = .ok t := by
  induction qs with
  | nil => exact ⟨0, by simp⟩
  | cons q qs ih =>
      obtain ⟨room, hroom⟩ := ih fun r hr => h r (List.mem_cons_of_mem q hr)
      by_cases hq : P q
      · obtain ⟨room', t, ht⟩ := h q List.mem_cons_self hq
        refine ⟨max room room', List.forall_mem_cons.2 ⟨fun _ => ⟨t, ?_⟩, fun r hr hP => ?_⟩⟩
        · rw [make_eq_of_le (Nat.le_max_right room room') ht, ht]
        · obtain ⟨u, hu⟩ := hroom r hr hP
          exact ⟨u, by rw [make_eq_of_le (Nat.le_max_left room room') hu, hu]⟩
      · exact ⟨room, List.forall_mem_cons.2 ⟨fun hP => absurd hP hq, hroom⟩⟩

/-- No endless chain of places starts at a place. -/
abbrev Ends (memory : Memory ρ) (greatest : Int) (p : Place ρ) : Prop :=
  Acc (fun q p => ∃ step, Below memory greatest p step q) p

theorem ends_of_completed : ∀ {room : Nat} {p : Place ρ} {t : DocTree},
    (make memory greatest room p).result = .ok t →
      Ends memory greatest p ∧ ∀ q, Met memory greatest p q → Numbered memory q
  | 0, _, _, h => by contradiction
  | room + 1, p, t, h => by
      obtain ⟨hnumbered, hnested⟩ := make_completes_iff.1 ⟨t, h⟩
      constructor
      · refine ⟨_, fun q ⟨step, hq⟩ => ?_⟩
        obtain ⟨u, hu⟩ := hnested step q hq
        exact (ends_of_completed hu).1
      · intro r hr
        rcases hr.cases_head with rfl | ⟨q, ⟨step, hq⟩, hr⟩
        · exact hnumbered
        · obtain ⟨u, hu⟩ := hnested step q hq
          exact (ends_of_completed hu).2 r hr

/-- There is a skeleton, given room enough, exactly if the walk meets no endless chain of places and no item
that is not a number. -/
theorem exists_make_iff : (∃ room t, (make memory greatest room p).result = .ok t) ↔
    Ends memory greatest p ∧ ∀ q, Met memory greatest p q → Numbered memory q := by
  constructor
  · rintro ⟨room, t, h⟩
    exact ends_of_completed h
  · rintro ⟨hends, hnumbered⟩
    induction hends with
    | intro p _ ih =>
        have hnested : ∀ q, (∃ step, Below memory greatest p step q) →
            ∃ room t, (make memory greatest room q).result = .ok t :=
          fun q hq => ih q hq fun r hr => hnumbered r (.head hq hr)
        obtain ⟨qs, hqs⟩ := exists_list_of_below memory greatest p
        obtain ⟨room, hroom⟩ := exists_common_room qs fun q _ => hnested q
        refine ⟨room + 1, make_completes_iff.2 ⟨hnumbered p .refl, fun step q hq => ?_⟩⟩
        exact hroom q (hqs step q hq) ⟨step, hq⟩

end Depth

/-- **The greatest depth bounds members, and entries it does not.** There is a skeleton of an object, given room
enough, exactly if the walk meets no endless chain of places and no item that is not a number; more room gives
the same one. Each member in it lies at the greatest depth at most. All that is in it does, exactly if the walk
meets no dictionary with an entry at the greatest depth or below it (and the root is not below it already). Then
the greatest depth also bounds the room that is needed, whatever circles there are. -/
theorem depth_bounded_iff {ρ : Type} [DecidableEq ρ] (memory : Memory ρ) (greatest : Int) (o : ρ)
    (name : Text) :
    ((∃ room t, (make memory greatest room ⟨o, name, 0, false⟩).result = .ok t) ↔
      Ends memory greatest ⟨o, name, 0, false⟩ ∧
        ∀ q, Met memory greatest ⟨o, name, 0, false⟩ q → Numbered memory q) ∧
    (∀ room t, (make memory greatest room ⟨o, name, 0, false⟩).result = .ok t →
      (∀ room', room ≤ room' → (make memory greatest room' ⟨o, name, 0, false⟩).result = .ok t) ∧
      (∀ n u v, t.LiesAt n u → u.HasPart .member v → (n + 1 : Int) ≤ greatest) ∧
      ((∀ n u, t.LiesAt n u → (n : Int) ≤ greatest) ↔
        0 ≤ greatest ∧ EntriesBounded memory greatest ⟨o, name, 0, false⟩)) ∧
    (EntriesBounded memory greatest ⟨o, name, 0, false⟩ → ∀ room : Nat, 0 < room → greatest < room →
      (make memory greatest room ⟨o, name, 0, false⟩).result ≠ .error .noRoom) := by
  refine ⟨exists_make_iff, fun room t ht => ⟨fun room' hle => ?_, fun n u v hu hv => ?_, ?_⟩,
    fun hentries room hroom hlevels => room_suffices hentries hroom (by simpa using hlevels)⟩
  · rw [make_eq_of_le hle ht, ht]
  · simpa using member_bounded ht hu hv
  · simpa using bounded_iff ht

/-- A class that has itself as an attribute, and a dictionary that holds itself. -/
def loopMemory : Memory Nat := .ofObjects
  ⟨lit "type", none, none, .error [], .container ⟨.ok [(lit "Self", 0)], [lit "Self"]⟩⟩
  [⟨lit "dict", none, none, .error [], .dictionary [(.atom (.str (lit "self")), 1)]⟩]

theorem object_of_met_loop {greatest : Int} {p q : Place Nat} (hp : p.object = 0)
    (h : Met loopMemory greatest p q) : q.object = 0 := by
  induction h with
  | refl => exact hp
  | tail _ hbelow ih =>
      obtain ⟨step, hbelow⟩ := hbelow
      cases hbelow with
      | entry hform _ _ =>
          rw [ih] at hform
          contradiction
      | member hform _ hlisted ho _ =>
          rw [ih] at hform
          obtain rfl := Form.container.inj hform
          obtain rfl := Except.ok.inj hlisted
          obtain ⟨-, rfl⟩ := Prod.mk.inj (List.mem_singleton.1 (Record.mem_of_get? ho))
          rfl

theorem not_ends_loop {greatest : Int} {p : Place Nat} (hends : Ends loopMemory greatest p)
    (hp : p.object = 1) (hitem : p.isItem = false) : False := by
  induction hends with
  | intro p _ ih =>
      have hform : (loopMemory p.object).form = .dictionary [(.atom (.str (lit "self")), 1)] := by
        rw [hp]
        rfl
      exact ih _ ⟨.entry, .entry hform hitem List.mem_cons_self⟩ rfl rfl

/-- The class has a skeleton, for which room for four calls is enough, and the dictionary has none. -/
theorem depth_bounded_loops :
    (∃ t, (make loopMemory 3 4 ⟨0, lit "C", 0, false⟩).result = .ok t) ∧
    (∀ room : Nat, 0 < room → (3 : Int) < room →
      (make loopMemory 3 room ⟨0, lit "C", 0, false⟩).result ≠ .error .noRoom) ∧
    ¬∃ room t, (make loopMemory 3 room ⟨1, lit "D", 0, false⟩).result = .ok t := by
  have hmade : (make loopMemory 3 4 ⟨0, lit "C", 0, false⟩).result.toOption.isSome = true := by
    decide +kernel
  refine ⟨?_, (depth_bounded_iff loopMemory 3 0 (lit "C")).2.2 ?_, fun h => ?_⟩
  · obtain ⟨t, ht⟩ := Option.isSome_iff_exists.1 hmade
    exact ⟨t, except_eq_ok_of_toOption ht⟩
  · intro q r hmet hr
    cases hr with
    | entry hform _ _ =>
        rw [object_of_met_loop rfl hmet] at hform
        contradiction
  · exact not_ends_loop ((depth_bounded_iff loopMemory 3 1 (lit "D")).1.1 h).1 rfl rfl

/-- A module with a table of tables. -/
def tablesMemory : Memory Nat := .ofObjects
  ⟨lit "module", none, none, .error [], .container ⟨.ok [(lit "COSTS", 1)], []⟩⟩
  [⟨lit "dict", none, none, .error [], .dictionary [(.atom (.str (lit "unit")), 2)]⟩,
   ⟨lit "dict", none, none, .error [], .dictionary [(.atom (.str (lit "move")), 3)]⟩,
   ⟨lit "int", none, none, .error [], .value (.int 2)⟩]

/-- The walk may go one level down, and a number lies three levels down. -/
theorem tables_deeper :
    ∃ t u, (make tablesMemory 1 4 ⟨0, lit "M", 0, false⟩).result = .ok t ∧ t.LiesAt 3 u := by
  have hmade : (make tablesMemory 1 4 ⟨0, lit "M", 0, false⟩).result.toOption.isSome = true := by
    decide +kernel
  obtain ⟨t, ht⟩ := Option.isSome_iff_exists.1 hmade
  have ht := except_eq_ok_of_toOption ht
  -- from the module to the table, from there to the inner one and to its number
  have hcosts : Record.get? (lit "COSTS") [(lit "COSTS", (1 : Nat))] = some 1 := rfl
  have htable : Below tablesMemory 1 ⟨0, lit "M", 0, false⟩ .member _ :=
    .member rfl (by decide) rfl hcosts (by decide)
  have hentry {p : Place Nat} {e : Wire.Key × Nat}
      (hform : (tablesMemory p.object).form = .dictionary [e]) (hitem : p.isItem = false) :
      Below tablesMemory 1 p .entry (entryPlace p e) := .entry hform hitem List.mem_cons_self
  have hmet : Met tablesMemory 1 ⟨0, lit "M", 0, false⟩ _ :=
    ((Relation.ReflTransGen.single ⟨_, htable⟩).tail ⟨_, hentry rfl rfl⟩).tail ⟨_, hentry rfl rfl⟩
  obtain ⟨n, u, room, hu, hdepth, -⟩ := exists_liesAt_of_met ht hmet
  obtain rfl : n = 3 := by
    have hthree : (1 + 1 + 1 : Int) = 0 + n := hdepth
    omega
  exact ⟨t, u, ht, hu⟩

end DocTree

end ModuleStubs
