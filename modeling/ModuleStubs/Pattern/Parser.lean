import ModuleStubs.Pattern.Basic

/-!
# Reading patterns

`Pattern.compile` reads a pattern text: alternatives of sequences of items, each
item with at most one repetition. The text is first cut into tokens, a backslash
together with the code point after it; the readers then go from token to token.
Faults carry the position where the offending construct starts.
-/

set_option autoImplicit false

namespace ModuleStubs

namespace Pattern

/-- A token: a plain code point, one after a backslash, or a backslash at the end
of the text. -/
inductive Token where
  | plain (c : CodePoint)
  | escaped (c : CodePoint)
  | dangling
deriving DecidableEq

/-- Tokens with their positions. -/
abbrev Tokens := List (Token × Nat)

/-- The tokens of a text that starts at a position. -/
def tokens : Nat → Text → Tokens
  | _, [] => []
  | pos, c :: t =>
    if c = '\\' then
      match t with
      | [] => [(.dangling, pos)]
      | d :: t => (.escaped d, pos) :: tokens (pos + 2) t
    else (.plain c, pos) :: tokens (pos + 1) t

/-- How an item may be repeated: freely, or not because it is an anchor or is
repeated already. -/
inductive Repeatable where
  | free | anchor | repeated
deriving DecidableEq

/-- The items of a sequence read so far, the latest first. -/
abbrev Items := List (Expr × Repeatable)

/-- The expression of the items. -/
def Items.expr (items : Items) : Expr :=
  items.foldl (fun e (i, _) => match e with | .empty => i | _ => .seq i e) .empty

/-- A fault before its text is known. -/
abbrev Located := Cause × Nat

/-- The next token; a backslash at the end of the text is noticed when the token
before it is taken. -/
def take : Tokens → Except Located (Option (Token × Nat) × Tokens)
  | [] => .ok (none, [])
  | (t, pos) :: rest =>
    match t, rest with
    | .dangling, _ => .error (.danglingEscape, pos)
    | _, (.dangling, p) :: _ => .error (.danglingEscape, p)
    | _, _ => .ok (some (t, pos), rest)

/-- The code point that an escape letter names. -/
def controlPoint? (c : CodePoint) : Option CodePoint :=
  if c = 'a' then some (CodePoint.ofNat 7)
  else if c = 'f' then some (CodePoint.ofNat 12)
  else if c = 'n' then some (CodePoint.ofNat 10)
  else if c = 'r' then some (CodePoint.ofNat 13)
  else if c = 't' then some (CodePoint.ofNat 9)
  else if c = 'v' then some (CodePoint.ofNat 11)
  else none

/-- The category that an escape letter names; a capital names the complement. -/
def category? (d : Dialect) (c : CodePoint) : Option ClassItem :=
  if c = 'd' then some (.category .digit d.ascii false)
  else if c = 'D' then some (.category .digit d.ascii true)
  else if c = 's' then some (.category .space d.ascii false)
  else if c = 'S' then some (.category .space d.ascii true)
  else if c = 'w' then some (.category .word d.ascii false)
  else if c = 'W' then some (.category .word d.ascii true)
  else none

/-- Letters of escapes that name a code point by number or by name. -/
def isNumberEscape (c : CodePoint) : Bool := c = 'x' || c = 'u' || c = 'U' || c = 'N'

/-- What is wrong with an escape that names nothing. By digits a code point or, outside
sets, a group may be meant. -/
def escapeFault (inSet : Bool) (c : CodePoint) : Cause :=
  if isNumberEscape c || (c.isDigit && !(inSet && (c = '8' || c = '9'))) then .unsupported
  else .badEscape c

/-- The first code points of what an opening parenthesis and a question mark may begin,
but for groups that are not counted. -/
def extensions : List CodePoint := lit "P<=!#(>aiLmsux-"

/-- The item of an escape inside a set. -/
def classEscape (d : Dialect) (c : CodePoint) (pos : Nat) : Except Located ClassItem :=
  match category? d c, controlPoint? c with
  | some item, _ => .ok item
  | none, some p => .ok (.point p)
  | none, none =>
    if c = 'b' then .ok (.point (CodePoint.ofNat 8))
    else if c.isLetter || c.isDigit then .error (escapeFault true c, pos)
    else .ok (.point c)

/-- The item of an escape outside sets. -/
def escapeItem (d : Dialect) (c : CodePoint) (pos : Nat) : Except Located (Expr × Repeatable) :=
  match category? d c, controlPoint? c with
  | some item, _ => .ok (.set false [item], .free)
  | none, some p => .ok (.point p, .free)
  | none, none =>
    if c = 'A' then .ok (.anchor .textStart, .anchor)
    else if c = 'Z' then .ok (.anchor .veryEnd, .anchor)
    else if c = 'b' then .ok (.anchor .wordEdge, .anchor)
    else if c = 'B' then .ok (.anchor .noWordEdge, .anchor)
    else if c.isLetter || c.isDigit then .error (escapeFault false c, pos)
    else .ok (.point c, .free)

/-- The item of a token inside a set, with its text. -/
def classItem (d : Dialect) (t : Token) (pos : Nat) : Except Located (ClassItem × Text) :=
  match t with
  | .plain c => .ok (.point c, [c])
  | .escaped c => (classEscape d c pos).map fun item => (item, ['\\', c])
  | .dangling => .error (.danglingEscape, pos)

/-- The items of a set up to its closing bracket. `start` is where the set began,
and a bracket in the first place stands for itself. -/
def setItems (d : Dialect) (start : Nat) :
    Nat → List ClassItem → Tokens → Except Located (List ClassItem × Tokens)
  | 0, _, _ => .error (.unterminatedSet, start)
  | fuel + 1, items, ts => do
    let (t, rest) ← take ts
    match t with
    | none => .error (.unterminatedSet, start)
    | some (t, pos) =>
      if t = .plain ']' ∧ items ≠ [] then .ok (items.reverse, rest)
      else
        let (first, firstText) ← classItem d t pos
        match rest with
        | (.plain c, _) :: _ =>
          if c = '-' then
            let (_, rest) ← take rest
            let (u, rest) ← take rest
            match u with
            | none => .error (.unterminatedSet, start)
            | some (u, upos) =>
              if u = .plain ']' then .ok ((.point '-' :: first :: items).reverse, rest)
              else
                let (last, lastText) ← classItem d u upos
                match first, last with
                | .point lo, .point hi =>
                  if hi.val < lo.val then .error (.badRange firstText lastText, pos)
                  else setItems d start fuel (.range lo hi :: items) rest
                | _, _ => .error (.badRange firstText lastText, pos)
          else setItems d start fuel (first :: items) rest
        | _ => setItems d start fuel (first :: items) rest

/-- The plain digits at the start of the tokens, and the rest. -/
def digitTokens : Tokens → Text × Tokens
  | (.plain c, pos) :: ts =>
    if c.isDigit then
      let (ds, rest) := digitTokens ts
      (c :: ds, rest)
    else ([], (.plain c, pos) :: ts)
  | ts => ([], ts)

/-- The bounds in braces after an opening brace, or nothing if these tokens are
no bounds and the brace stands for itself. -/
def bounds? (ts : Tokens) : Option (Nat × Option Nat × Tokens) :=
  let (lo, rest) := digitTokens ts
  let (hi, comma, rest) : Text × Bool × Tokens :=
    match rest with
    | (.plain c, pos) :: r =>
      if c = ',' then
        let (hi, r) := digitTokens r
        (hi, true, r)
      else ([], false, (.plain c, pos) :: r)
    | _ => ([], false, rest)
  match rest with
  | (.plain c, _) :: r =>
    if c = '\x7d' ∧ (comma ∨ lo ≠ []) then
      let least := digitsValue lo
      let most :=
        if comma then (if hi.isEmpty then none else some (digitsValue hi)) else some least
      some (least, most, r)
    else none
  | _ => none

/-- The mode after a repetition. -/
def mode (ts : Tokens) : Mode × Tokens :=
  match ts with
  | (.plain c, _) :: rest =>
    if c = '?' then (.lazy, rest) else if c = '+' then (.possessive, rest) else (.greedy, ts)
  | _ => (.greedy, ts)

/-- The latest item repeated. -/
def repeatLatest (pos least : Nat) (most : Option Nat) (items : Items) (ts : Tokens) :
    Except Located (Items × Tokens) :=
  match items with
  | [] => .error (.nothingToRepeat, pos)
  | (_, .anchor) :: _ => .error (.nothingToRepeat, pos)
  | (_, .repeated) :: _ => .error (.multipleRepeat, pos)
  | (e, .free) :: items =>
    let (m, rest) := mode ts
    .ok ((.repeated e least most m, .repeated) :: items, rest)

/-- The tokens after a comment. -/
def afterComment : Tokens → Tokens
  | [] => []
  | (t, _) :: ts => if t = .plain '\n' then ts else afterComment ts

mutual

/-- Alternatives, with the number of groups opened so far. -/
def alternatives (d : Dialect) :
    Nat → Nat → Tokens → Except Located (Expr × Nat × Tokens)
  | 0, _, _ => .error (.unexpectedEnd, 0)
  | fuel + 1, groups, ts => do
    let (e, groups, rest) ← sequence d fuel groups [] ts
    match rest with
    | (.plain c, _) :: _ =>
      if c = '|' then
        let (_, rest) ← take rest
        let (e', groups, rest) ← alternatives d fuel groups rest
        .ok (.alt e e', groups, rest)
      else .ok (e, groups, rest)
    | _ => .ok (e, groups, rest)

/-- A sequence of items, up to a bar, a closing parenthesis or the end. -/
def sequence (d : Dialect) :
    Nat → Nat → Items → Tokens → Except Located (Expr × Nat × Tokens)
  | 0, _, _, _ => .error (.unexpectedEnd, 0)
  | fuel + 1, groups, items, ts => do
    match ts with
    | (.plain c, _) :: _ => if c = '|' ∨ c = ')' then return (items.expr, groups, ts)
    | _ => pure ()
    let (t, rest) ← take ts
    match t with
    | none => .ok (items.expr, groups, [])
    | some (.dangling, pos) => .error (.danglingEscape, pos)
    | some (.escaped c, pos) =>
      let item ← escapeItem d c pos
      sequence d fuel groups (item :: items) rest
    | some (.plain c, pos) =>
      if d.spaced && isSpace c then sequence d fuel groups items rest
      else if d.spaced && c == CodePoint.ofChar '#' then
        sequence d fuel groups items (afterComment rest)
      else if c = '[' then
        let (negated, rest) ←
          match rest with
          | (.plain e, _) :: _ =>
            if e = '^' then (take rest).map fun r => (true, r.2) else .ok (false, rest)
          | _ => .ok (false, rest)
        let (set, rest) ← setItems d pos fuel [] rest
        sequence d fuel groups ((.set negated set, .free) :: items) rest
      else if c = '*' then
        let (items, rest) ← repeatLatest pos 0 none items rest
        sequence d fuel groups items rest
      else if c = '+' then
        let (items, rest) ← repeatLatest pos 1 none items rest
        sequence d fuel groups items rest
      else if c = '?' then
        let (items, rest) ← repeatLatest pos 0 (some 1) items rest
        sequence d fuel groups items rest
      else if c = '\x7b' then
        match bounds? rest with
        | none => sequence d fuel groups ((.point c, .free) :: items) rest
        | some (least, most, after) =>
          if most.any (· < least) then .error (.repeatOrder, pos + 1)
          else
            let (items, rest) ← repeatLatest pos least most items after
            sequence d fuel groups items rest
      else if c = '.' then sequence d fuel groups ((.anyPoint d.dotAll, .free) :: items) rest
      else if c = '^' then
        let a := if d.multiline then Anchor.lineStart else .textStart
        sequence d fuel groups ((.anchor a, .anchor) :: items) rest
      else if c = '$' then
        let a := if d.multiline then Anchor.lineEnd else .textEnd
        sequence d fuel groups ((.anchor a, .anchor) :: items) rest
      else if c = '(' then
        let (e, groups, rest) ← parenthesised d fuel pos groups rest
        sequence d fuel groups ((e, .free) :: items) rest
      else sequence d fuel groups ((.point c, .free) :: items) rest

/-- What follows an opening parenthesis, the closing one included. -/
def parenthesised (d : Dialect) :
    Nat → Nat → Nat → Tokens → Except Located (Expr × Nat × Tokens)
  | 0, _, _, _ => .error (.unexpectedEnd, 0)
  | fuel + 1, start, groups, ts => do
    let (capturing, ts) ←
      match ts with
      | (.plain c, qpos) :: _ =>
        if c = '?' then
          let (_, rest) ← take ts
          let (u, rest) ← take rest
          match u with
          | some (.plain e, _) =>
            if e = ':' then .ok (false, rest)
            else if extensions.contains e then .error (.unsupported, qpos)
            else .error (.unknownExtension e, qpos)
          | some (.escaped _, _) => .error (.unknownExtension '\\', qpos)
          | _ => .error (.unexpectedEnd, qpos + 1)
        else .ok (true, ts)
      | _ => .ok (true, ts)
    let index := groups + 1
    let (e, groups, rest) ← alternatives d fuel (if capturing then index else groups) ts
    match rest with
    | (.plain _, _) :: _ =>
      let (_, rest) ← take rest
      .ok (if capturing then .group index e else e, groups, rest)
    | _ => .error (.unterminatedGroup, start)

end

/-- A pattern read from its text. -/
def compile (d : Dialect) (source : Text) : Except Fault Pattern :=
  let ts := tokens 0 source
  let result := do
    let (e, groups, rest) ← alternatives d (3 * ts.length + 4) 0 ts
    match rest with
    | [] => .ok (e, groups)
    | (_, pos) :: _ => .error (Cause.unbalanced, pos)
  match result with
  | .ok (e, groups) => .ok ⟨source, e, groups⟩
  | .error (cause, pos) => .error ⟨cause, pos, source⟩

end Pattern

end ModuleStubs
