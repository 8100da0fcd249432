import ModuleStubs.Pattern.Basic

/-!
# Matching

A matcher takes a place in the text and a continuation, and gives the first
success in the order of the alternatives. Captures travel with the place, so an
abandoned alternative leaves none behind; a group inside a repetition keeps the
last value it had.
-/

set_option autoImplicit false

namespace ModuleStubs

namespace Pattern

/-- A place in the text: the code point before it, what is left, and the
captures so far, the latest first. -/
structure Place where
  before : Option CodePoint
  rest : Text
  captures : List (Nat × Text)

/-- The place after the next code point. -/
def Place.step (p : Place) (c : CodePoint) (rest : Text) : Place :=
  ⟨some c, rest, p.captures⟩

/-- The place with a group that started where `start` was left. -/
def Place.capture (p : Place) (index : Nat) (start : Text) : Place :=
  { p with captures := (index, start.take (start.length - p.rest.length)) :: p.captures }

/-- The last capture of a group. -/
def Place.group? (p : Place) (index : Nat) : Option Text :=
  (p.captures.find? fun e => e.1 == index).map Prod.snd

/-- A word character stands before the place or after it, but not both. -/
def Place.atWordEdge (p : Place) : Bool :=
  (p.before.any Text.isWordPoint) != (p.rest.head?.any Text.isWordPoint)

/-- An anchor holds at a place. -/
def Anchor.holds (a : Anchor) (p : Place) : Bool :=
  match a with
  | .textStart => p.before.isNone
  | .lineStart => p.before.isNone || p.before == some (CodePoint.ofChar '\n')
  | .textEnd => p.rest.isEmpty || p.rest == lit "\n"
  | .lineEnd => p.rest.isEmpty || p.rest.head? == some (CodePoint.ofChar '\n')
  | .veryEnd => p.rest.isEmpty
  | .wordEdge => p.atWordEdge
  | .noWordEdge => !p.atWordEdge

/-- What follows a place. -/
abbrev Continuation := Place → Option Place

/-- A matcher gives the first success of its continuation. -/
abbrev Matcher := Place → Continuation → Option Place

/-- The matcher of a single code point of a class. -/
def onePoint (test : CodePoint → Bool) : Matcher := fun p k =>
  match p.rest with
  | [] => none
  | c :: rest => if test c then k (p.step c rest) else none

/-- Repetition of a matcher. `count` rounds are done; `last` is the length that
was left when the latest free round began, and a round that left as much is the
last one. The fuel bounds the rounds: each round but the required ones and the
last shortens the rest. -/
def rounds (m : Matcher) (least : Nat) (most : Option Nat) (eager : Bool) :
    Nat → Nat → Option Nat → Matcher
  | 0, _, _, p, k => k p
  | fuel + 1, count, last, p, k =>
    if count < least then
      m p fun q => rounds m least most eager fuel (count + 1) last q k
    else
      let again := (most.all fun n => count < n) && last != some p.rest.length
      let more : Unit → Option Place := fun _ =>
        if again then
          m p fun q => rounds m least most eager fuel (count + 1) (some p.rest.length) q k
        else none
      if eager then (more ()).orElse fun _ => k p else (k p).orElse more

/-- The matcher of an expression. -/
def Expr.run : Expr → Matcher
  | .empty, p, k => k p
  | .point c, p, k => onePoint (· == c) p k
  | .anyPoint newline, p, k => onePoint (fun c => newline || c != CodePoint.ofChar '\n') p k
  | .set negated items, p, k => onePoint (fun c => (items.any (·.holds c)) != negated) p k
  | .anchor a, p, k => if a.holds p then k p else none
  | .seq a b, p, k => a.run p fun q => b.run q k
  | .alt a b, p, k => (a.run p k).orElse fun _ => b.run p k
  | .group index e, p, k => e.run p fun q => k (q.capture index p.rest)
  | .repeated e least most mode, p, k =>
    let fuel := least + p.rest.length + 2
    match mode with
    | .greedy => rounds (fun q k => e.run q k) least most true fuel 0 none p k
    | .lazy => rounds (fun q k => e.run q k) least most false fuel 0 none p k
    | .possessive =>
      (rounds (fun q k => e.run q k) least most true fuel 0 none p some).bind k

/-- The captures of the groups, in order; a group that took no part has none. -/
def Place.groups (p : Place) (count : Nat) : List (Option Text) :=
  (List.range count).map fun i => p.group? (i + 1)

end Pattern

namespace Pattern

/-- The groups of a match of the whole text. -/
def fullMatch? (p : Pattern) (t : Text) : Option (List (Option Text)) :=
  (p.expr.run ⟨none, t, []⟩ fun q => if q.rest.isEmpty then some q else none).map
    (·.groups p.groups)

/-- What is left after a match at a place with the given code point before it. A
match that must advance takes at least one code point. -/
def restAfter? (p : Pattern) (before : Option CodePoint) (mustAdvance : Bool) (t : Text) :
    Option Text :=
  (p.expr.run ⟨before, t, []⟩ fun q =>
    if mustAdvance && q.rest.length == t.length then none else some q).map (·.rest)

end Pattern

end ModuleStubs
