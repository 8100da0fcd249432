import ModuleStubs.Pattern.Matching

/-!
# Groups are pieces of the text

What a group of a match captures stands in the text that was matched, in one piece
(`isInfix_of_fullMatch?`). The matcher goes from place to place, so the proof is an invariant of places:
what is left is an end of the text, and all captures so far are pieces of it (`Place.Within`). A matcher
keeps it if it hands on only such places and its continuation does the same (`Keeps`).
-/

set_option autoImplicit false

namespace ModuleStubs

namespace Pattern

variable {t : Text}

/-- What is left at the place is an end of the text, and the captures are pieces of it. -/
structure Place.Within (t : Text) (p : Place) : Prop where
  rest : p.rest <:+ t
  captures : ∀ e ∈ p.captures, e.2 <:+: t

/-- A continuation that starts inside the text ends inside it. -/
def Stays (t : Text) (k : Continuation) : Prop :=
  ∀ p q : Place, p.Within t → k p = some q → q.Within t

/-- A matcher that starts inside the text ends inside it, if its continuation does. -/
def Keeps (t : Text) (m : Matcher) : Prop := ∀ k, Stays t k → Stays t fun p => m p k

theorem Place.Within.step {p : Place} (h : p.Within t) {c : CodePoint} {rest : Text}
    (hrest : p.rest = c :: rest) : (p.step c rest).Within t := by
  refine ⟨?_, h.captures⟩
  have hsuffix : rest <:+ c :: rest := List.suffix_cons c rest
  exact hsuffix.trans (hrest ▸ h.rest)

theorem Place.Within.capture {p : Place} (h : p.Within t) (index : Nat) {start : Text}
    (hstart : start <:+ t) : (p.capture index start).Within t := by
  refine ⟨h.rest, ?_⟩
  intro e he
  rcases List.mem_cons.1 he with rfl | he
  · exact (List.take_prefix _ start).isInfix.trans hstart.isInfix
  · exact h.captures e he

/-- The first of two attempts that succeeds stays inside the text, if both do. -/
theorem within_of_orElse {x : Option Place} {y : Unit → Option Place} {q : Place}
    (hx : ∀ q, x = some q → q.Within t) (hy : ∀ q, y () = some q → q.Within t)
    (h : x.orElse y = some q) : q.Within t := by
  cases x with
  | none => exact hy q h
  | some r => exact hx q h

theorem keeps_onePoint (test : CodePoint → Bool) : Keeps t (onePoint test) := by
  intro k hk p q hp h
  simp only [onePoint] at h
  split at h
  · contradiction
  · rename_i c rest hrest
    split at h
    · exact hk _ q (hp.step hrest) h
    · contradiction

theorem keeps_rounds {m : Matcher} (hm : Keeps t m) (least : Nat) (most : Option Nat) (eager : Bool)
    (fuel count : Nat) (last : Option Nat) : Keeps t (rounds m least most eager fuel count last) := by
  induction fuel generalizing count last with
  | zero => exact fun k hk => hk
  | succ fuel ih =>
      intro k hk p q hp h
      simp only [rounds] at h
      split at h
      · exact hm _ (ih (count + 1) last k hk) p q hp h
      · -- one more round, or none, in the order of the mode
        have hmore : ∀ q, (if ((most.all fun n => decide (count < n)) &&
              last != some p.rest.length) = true then
            m p fun r => rounds m least most eager fuel (count + 1) (some p.rest.length) r k
            else none) = some q → q.Within t := by
          intro q hq
          split at hq
          · exact hm _ (ih (count + 1) _ k hk) p q hp hq
          · contradiction
        have hstop : ∀ q, k p = some q → q.Within t := fun q hq => hk p q hp hq
        split at h
        · exact within_of_orElse hmore hstop h
        · exact within_of_orElse hstop hmore h

theorem keeps_run (e : Expr) : Keeps t fun p k => e.run p k := by
  induction e with
  | empty => exact fun k hk => hk
  | point c => exact keeps_onePoint _
  | anyPoint newline => exact keeps_onePoint _
  | set negated items => exact keeps_onePoint _
  | anchor a =>
      intro k hk p q hp h
      simp only [Expr.run] at h
      split at h
      · exact hk p q hp h
      · contradiction
  | seq a b iha ihb => exact fun k hk => iha _ (ihb k hk)
  | alt a b iha ihb =>
      intro k hk p q hp h
      exact within_of_orElse (fun q hq => iha k hk p q hp hq) (fun q hq => ihb k hk p q hp hq) h
  | group index e ih =>
      intro k hk p q hp h
      -- the capture reaches from here to where the group ends
      refine ih _ ?_ p q hp h
      intro r s hr hs
      exact hk _ s (hr.capture index hp.rest) hs
  | repeated e least most mode ih =>
      intro k hk p q hp h
      cases mode with
      | greedy => exact keeps_rounds ih _ _ _ _ _ _ k hk p q hp h
      | lazy => exact keeps_rounds ih _ _ _ _ _ _ k hk p q hp h
      | possessive =>
          -- the rounds are done before the continuation starts
          obtain ⟨r, hr, hq⟩ := Option.bind_eq_some_iff.1 h
          have hself : Stays t some := by
            rintro a b ha ⟨⟩
            exact ha
          exact hk r q (keeps_rounds ih _ _ _ _ _ _ some hself p r hp hr) hq

/-- What a group captures is a piece of the text. -/
theorem isInfix_of_fullMatch? {p : Pattern} {groups : List (Option Text)}
    (h : p.fullMatch? t = some groups) {g : Text} (hg : some g ∈ groups) : g <:+: t := by
  obtain ⟨q, hq, rfl⟩ := Option.map_eq_some_iff.1 h
  have hend : Stays t fun q => if q.rest.isEmpty then some q else none := by
    intro a b ha hb
    simp only at hb
    split at hb
    · obtain rfl := Option.some.inj hb
      exact ha
    · contradiction
  have hwithin := keeps_run p.expr _ hend ⟨none, t, []⟩ q ⟨List.suffix_refl t, nofun⟩ hq
  obtain ⟨i, -, hgroup⟩ := List.mem_map.1 hg
  obtain ⟨e, he, rfl⟩ := Option.map_eq_some_iff.1 hgroup
  exact hwithin.captures e (List.mem_of_find?_eq_some he)

end Pattern

end ModuleStubs
