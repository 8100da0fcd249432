import ModuleStubs.Proofs.Text.Cut
import ModuleStubs.Signature.Rough

/-!
# Balanced parentheses

A text is balanced if it closes every parenthesis that it opens, and no other (`Text.Balanced`). The
walk that looks for the last opening parenthesis on the top level goes from left to right and begins the
second part anew at each of them; where it ends is where the text is cut from its end on (`scan_eq_cut`).
The cut passes over balanced texts: a call whose parts are balanced is cut at the parentheses around its
arguments, whatever parentheses are in the parts (`roughSplit_call`). What follows the call without
parentheses of its own is kept in the second part, but for the last code point (`roughSplit_followed`).
-/

set_option autoImplicit false

namespace ModuleStubs

namespace Text

/-- How many parentheses are open behind a text, with `depth` open before it. Nothing if the text
closes one that is not open. -/
def openAfter : Nat → Text → Option Nat
  | depth, [] => some depth
  | depth, c :: t =>
    if c = CodePoint.ofChar '(' then openAfter (depth + 1) t
    else if c = CodePoint.ofChar ')' then
      match depth with
      | 0 => none
      | d + 1 => openAfter d t
    else openAfter depth t

/-- The text closes every parenthesis that it opens, and no other. -/
def Balanced (t : Text) : Prop := openAfter 0 t = some 0

instance (t : Text) : Decidable t.Balanced := inferInstanceAs (Decidable (_ = _))

theorem openAfter_append (depth : Nat) (t u : Text) :
    openAfter depth (t ++ u) = (openAfter depth t).bind fun after => openAfter after u := by
  fun_induction openAfter depth t with
  | case1 depth => rfl
  | case2 depth t ih => simpa [openAfter] using ih
  | case3 t hopen => simp [openAfter]
  | case4 t d hopen ih => simpa [openAfter] using ih
  | case5 depth c t hopen hclose ih => simpa [openAfter, hopen, hclose] using ih

/-- A text without parentheses leaves as many open as there were. -/
theorem openAfter_of_not_mem {t : Text} (hopen : CodePoint.ofChar '(' ∉ t)
    (hclose : CodePoint.ofChar ')' ∉ t) (depth : Nat) : openAfter depth t = some depth := by
  induction t with
  | nil => rfl
  | cons c t ih =>
      have ho := Ne.symm (List.ne_of_not_mem_cons hopen)
      have hc := Ne.symm (List.ne_of_not_mem_cons hclose)
      rw [openAfter.eq_def]
      simp only [if_neg ho, if_neg hc]
      exact ih (List.not_mem_of_not_mem_cons hopen) (List.not_mem_of_not_mem_cons hclose)

theorem balanced_of_not_mem {t : Text} (hopen : CodePoint.ofChar '(' ∉ t)
    (hclose : CodePoint.ofChar ')' ∉ t) : t.Balanced :=
  openAfter_of_not_mem hopen hclose 0

/-- Parentheses are balanced with and without a text at the end that has none. -/
theorem balanced_append_iff {t u : Text} (hopen : CodePoint.ofChar '(' ∉ u)
    (hclose : CodePoint.ofChar ')' ∉ u) : (t ++ u).Balanced ↔ t.Balanced := by
  rw [Balanced, Balanced, openAfter_append]
  simp only [openAfter_of_not_mem hopen hclose]
  cases openAfter 0 t <;> simp

end Text

open Text

/-! ## The cut -/

/-- The pieces of a text below `depth` open parentheses, cut from the end on: the text up to the last
opening parenthesis on the top level, and the text from there on, if there is such a parenthesis. Nothing
if the parentheses do not match. -/
def cutAtLastOpen : Nat → List Text → Option (Text × Option Text)
  | depth, [] => if depth = 0 then some ([], none) else none
  | depth, p :: ps =>
    if p = lit "(" then
      match cutAtLastOpen (depth + 1) ps with
      | none => none
      | some (a, some s) => some (p ++ a, some s)
      | some (a, none) => if depth = 0 then some ([], some (p ++ a)) else some (p ++ a, none)
    else if p = lit ")" then
      match depth with
      | 0 => none
      | d + 1 => (cutAtLastOpen d ps).map fun (a, s) => (p ++ a, s)
    else (cutAtLastOpen depth ps).map fun (a, s) => (p ++ a, s)

section Walk

variable {depth after : Nat} {t : Text} {pieces : List Text} {a : Text}

theorem cutAtLastOpen_cons {p : Text} (hopen : p ≠ lit "(") (hclose : p ≠ lit ")") (depth : Nat)
    (pieces : List Text) :
    cutAtLastOpen depth (p :: pieces) =
      (cutAtLastOpen depth pieces).map fun (a, s) => (p ++ a, s) := by
  rw [cutAtLastOpen.eq_def]
  simp only [if_neg hopen, if_neg hclose]

/-- What an opening parenthesis makes of the cut of what follows it: on the top level it starts the second
part, unless a later one does. -/
def openingCut (depth : Nat) : Text × Option Text → Text × Option Text
  | (a, some s) => (lit "(" ++ a, some s)
  | (a, none) => if depth = 0 then ([], some (lit "(" ++ a)) else (lit "(" ++ a, none)

theorem cutAtLastOpen_opening (depth : Nat) (pieces : List Text) :
    cutAtLastOpen depth (lit "(" :: pieces) =
      (cutAtLastOpen (depth + 1) pieces).map (openingCut depth) := by
  rw [cutAtLastOpen.eq_def]
  simp only [if_true]
  cases cutAtLastOpen (depth + 1) pieces with
  | none => rfl
  | some parts =>
      obtain ⟨a, s⟩ := parts
      cases s with
      | none =>
          simp only [Option.map_some, openingCut]
          split <;> rfl
      | some s => rfl

theorem cutAtLastOpen_closing (depth : Nat) (pieces : List Text) :
    cutAtLastOpen (depth + 1) (lit ")" :: pieces) =
      (cutAtLastOpen depth pieces).map fun (a, s) => (lit ")" ++ a, s) := by
  rw [cutAtLastOpen.eq_def]
  rfl

theorem cutAtLastOpen_unopened (pieces : List Text) : cutAtLastOpen 0 (lit ")" :: pieces) = none := by
  rw [cutAtLastOpen.eq_def]
  rfl

theorem cutAtLastOpen_close {s : Option Text} (h : cutAtLastOpen depth pieces = some (a, s)) :
    cutAtLastOpen (depth + 1) (lit ")" :: pieces) = some (lit ")" ++ a, s) := by
  rw [cutAtLastOpen_closing, h]
  rfl

/-- An opening parenthesis with another one behind it on the top level. -/
theorem cutAtLastOpen_open {s : Text} (h : cutAtLastOpen (depth + 1) pieces = some (a, some s)) :
    cutAtLastOpen depth (lit "(" :: pieces) = some (lit "(" ++ a, some s) := by
  rw [cutAtLastOpen_opening, h]
  rfl

/-- An opening parenthesis inside others. -/
theorem cutAtLastOpen_nested (h : cutAtLastOpen (depth + 1 + 1) pieces = some (a, none)) :
    cutAtLastOpen (depth + 1) (lit "(" :: pieces) = some (lit "(" ++ a, none) := by
  rw [cutAtLastOpen_opening, h]
  rfl

/-- A text in front of the last opening parenthesis on the top level is passed over. -/
theorem cutAtLastOpen_before {s : Text} (h : openAfter depth t = some after)
    (hrest : cutAtLastOpen after pieces = some (a, some s)) :
    cutAtLastOpen depth (t.map (fun c => [c]) ++ pieces) = some (t ++ a, some s) := by
  fun_induction openAfter depth t with
  | case1 depth =>
      obtain rfl := Option.some.inj h
      exact hrest
  | case2 depth t ih => exact cutAtLastOpen_open (ih h)
  | case3 t hopen => contradiction
  | case4 t d hopen ih => exact cutAtLastOpen_close (ih h)
  | case5 depth c t hopen hclose ih =>
      rw [List.map_cons, List.cons_append, cutAtLastOpen_cons (by simpa [lit] using hopen)
        (by simpa [lit] using hclose), ih h]
      rfl

/-- A text inside parentheses has none on the top level. -/
theorem cutAtLastOpen_inside (h : openAfter depth t = some after)
    (hrest : cutAtLastOpen (after + 1) pieces = some (a, none)) :
    cutAtLastOpen (depth + 1) (t.map (fun c => [c]) ++ pieces) = some (t ++ a, none) := by
  fun_induction openAfter depth t with
  | case1 depth =>
      obtain rfl := Option.some.inj h
      exact hrest
  | case2 depth t ih => exact cutAtLastOpen_nested (ih h)
  | case3 t hopen => contradiction
  | case4 t d hopen ih => exact cutAtLastOpen_close (ih h)
  | case5 depth c t hopen hclose ih =>
      rw [List.map_cons, List.cons_append, cutAtLastOpen_cons (by simpa [lit] using hopen)
        (by simpa [lit] using hclose), ih h]
      rfl

/-- A text without parentheses is passed over. -/
theorem cutAtLastOpen_of_not_mem (hopen : CodePoint.ofChar '(' ∉ t)
    (hclose : CodePoint.ofChar ')' ∉ t) :
    cutAtLastOpen 0 (t.map fun c => [c]) = some (t, none) := by
  induction t with
  | nil => rfl
  | cons c t ih =>
      have ho := Ne.symm (List.ne_of_not_mem_cons hopen)
      have hc := Ne.symm (List.ne_of_not_mem_cons hclose)
      rw [List.map_cons, cutAtLastOpen_cons (by simpa [lit] using ho) (by simpa [lit] using hc),
        ih (List.not_mem_of_not_mem_cons hopen) (List.not_mem_of_not_mem_cons hclose)]
      rfl

end Walk

/-! ## The walk from left to right -/

/-- The state of a walk that has come to its end: what is in front of the last opening parenthesis on the
top level belongs to the first part, with all that was taken for the second one. -/
def RoughScan.ended (s : RoughScan) : Text × Option Text → RoughScan
  | (a, none) => RoughScan.add ⟨s.first, s.second, 0⟩ a
  | (a, some second) => ⟨s.first ++ s.second.getD [] ++ a, some second, 0⟩

theorem RoughScan.ended_add (s : RoughScan) (p a : Text) (t : Option Text) (depth : Nat) :
    (RoughScan.add ⟨s.first, s.second, depth⟩ p).ended (a, t) = s.ended (p ++ a, t) := by
  obtain ⟨first, second, depth'⟩ := s
  cases second <;> cases t <;> simp [RoughScan.add, RoughScan.ended]

/-- What an opening parenthesis on the top level begins anew is what it is the start of. -/
theorem RoughScan.ended_opening (s : RoughScan) (r : Text × Option Text) :
    (RoughScan.add ⟨s.first ++ s.second.getD [], some [], 1⟩ (lit "(")).ended r =
      s.ended (openingCut 0 r) := by
  obtain ⟨a, t⟩ := r
  cases t <;> simp [RoughScan.add, RoughScan.ended, openingCut]

/-- A walk over pieces that ends without an open parenthesis ends where they are cut. -/
theorem foldlM_step_eq_cut (pieces : List Text) (s : RoughScan) :
    (pieces.foldlM RoughScan.step s).filter (fun e => e.depth = 0) =
      (cutAtLastOpen s.depth pieces).map s.ended := by
  induction pieces generalizing s with
  | nil =>
      obtain ⟨first, second, depth⟩ := s
      cases depth <;> cases second <;>
        simp [cutAtLastOpen, RoughScan.ended, RoughScan.add, Option.filter]
  | cons p pieces ih =>
      obtain ⟨first, second, depth⟩ := s
      rw [List.foldlM_cons, RoughScan.step]
      by_cases hopen : p = lit "("
      · subst hopen
        rw [cutAtLastOpen_opening, Option.map_map, if_pos rfl]
        cases depth with
        | zero =>
            simp only [if_true, Option.bind_eq_bind, Option.bind_some, ih]
            exact congrArg (fun f => Option.map f _)
              (funext fun r => RoughScan.ended_opening ⟨first, second, 0⟩ r)
        | succ depth =>
            simp only [Nat.add_one_ne_zero, if_false, Option.bind_eq_bind, Option.bind_some, ih]
            refine congr (congrArg Option.map (funext fun r => ?_)) ?_
            · obtain ⟨a, t⟩ := r
              rw [RoughScan.ended_add ⟨first, second, depth + 1⟩]
              cases t <;> rfl
            · rw [RoughScan.add]
              cases second <;> rfl
      · rw [if_neg hopen]
        by_cases hclose : p = lit ")"
        · subst hclose
          rw [if_pos rfl]
          cases depth with
          | zero => rw [cutAtLastOpen_unopened]; rfl
          | succ depth =>
              rw [cutAtLastOpen_closing, Option.map_map]
              simp only [Option.bind_eq_bind, Option.bind_some, ih]
              refine congr (congrArg Option.map (funext fun r => ?_)) ?_
              · exact RoughScan.ended_add ⟨first, second, depth + 1⟩ _ r.1 r.2 depth
              · rw [RoughScan.add]
                cases second <;> rfl
        · rw [if_neg hclose, cutAtLastOpen_cons hopen hclose, Option.map_map]
          simp only [Option.bind_eq_bind, Option.bind_some, ih]
          refine congr (congrArg Option.map (funext fun r => ?_)) ?_
          · exact RoughScan.ended_add ⟨first, second, depth⟩ _ r.1 r.2 depth
          · rw [RoughScan.add]
            cases second <;> rfl

/-- The walk over a text that ends without an open parenthesis ends where the text is cut. -/
theorem scan_eq_cut (pieces : List Text) :
    (RoughScan.scan pieces).filter (fun e => e.depth = 0) =
      (cutAtLastOpen 0 pieces).map fun r => ⟨r.1, r.2, 0⟩ := by
  rw [RoughScan.scan, foldlM_step_eq_cut]
  refine congrArg (fun f => Option.map f _) (funext fun r => ?_)
  obtain ⟨a, t⟩ := r
  cases t <;> simp [RoughScan.ended, RoughScan.add]

/-- The two parts of a text are those of the cut, if it has two. -/
theorem roughSplitPieces_eq (pieces : List Text) :
    roughSplitPieces pieces = (cutAtLastOpen 0 pieces).bind fun r =>
      r.2.map fun second => (Text.strip r.1, Text.strip (Text.trimEnds second)) := by
  have hcut := scan_eq_cut pieces
  rw [roughSplitPieces]
  cases hscan : RoughScan.scan pieces with
  | none =>
      rw [hscan] at hcut
      rw [Option.map_eq_none_iff.1 hcut.symm]
      rfl
  | some s =>
      obtain ⟨first, second, depth⟩ := s
      rw [hscan] at hcut
      cases depth with
      | zero =>
          obtain ⟨r, hr, heq⟩ := Option.map_eq_some_iff.1 hcut.symm
          obtain ⟨rfl, rfl, -⟩ := RoughScan.mk.inj heq
          rw [hr]
          obtain ⟨a, t⟩ := r
          cases t <;> rfl
      | succ depth =>
          rw [Option.map_eq_none_iff.1 hcut.symm]
          cases second <;> rfl

/-- A call with balanced parts is cut at the parentheses around its arguments. Where more follows, only
the last code point of all is taken off the second part. -/
theorem roughSplit_followed {u v w : Text} (hu : u.Balanced) (hv : v.Balanced)
    (hopen : CodePoint.ofChar '(' ∉ w) (hclose : CodePoint.ofChar ')' ∉ w) :
    roughSplit (u ++ lit "(" ++ v ++ lit ")" ++ w) =
      some (Text.strip u, Text.strip (v ++ lit ")" ++ w).dropLast) := by
  have hpieces : (u ++ lit "(" ++ v ++ lit ")" ++ w).map (fun c => [c]) =
      u.map (fun c => [c]) ++ (lit "(" :: (v.map (fun c => [c]) ++ (lit ")" :: w.map fun c => [c]))) := by
    simp [lit]
  have hbehind : cutAtLastOpen 1 (lit ")" :: w.map fun c => [c]) = some (lit ")" ++ w, none) :=
    cutAtLastOpen_close (cutAtLastOpen_of_not_mem hopen hclose)
  have hinner : cutAtLastOpen 1 (v.map (fun c => [c]) ++ (lit ")" :: w.map fun c => [c])) =
      some (v ++ (lit ")" ++ w), none) :=
    cutAtLastOpen_inside hv hbehind
  have houter : cutAtLastOpen 0 (lit "(" :: (v.map (fun c => [c]) ++ (lit ")" :: w.map fun c => [c]))) =
      some ([], some (lit "(" ++ (v ++ (lit ")" ++ w)))) := by
    rw [cutAtLastOpen_opening, hinner]
    rfl
  have htrim : Text.trimEnds (lit "(" ++ (v ++ (lit ")" ++ w))) = (v ++ lit ")" ++ w).dropLast := by
    simp [Text.trimEnds, lit]
  rw [roughSplit, roughSplitPieces_eq, hpieces, cutAtLastOpen_before hu houter]
  simp [htrim]

theorem roughSplit_call {u v : Text} (hu : u.Balanced) (hv : v.Balanced) :
    roughSplit (u ++ lit "(" ++ v ++ lit ")") = some (Text.strip u, Text.strip v) := by
  have hsplit := roughSplit_followed (w := []) hu hv nofun nofun
  rw [List.append_nil, List.append_nil] at hsplit
  rw [hsplit, show (v ++ lit ")").dropLast = v from List.dropLast_concat]

end ModuleStubs
