import ModuleStubs.Pattern.Matching
import ModuleStubs.Pattern.Parser
import ModuleStubs.Trace
import ModuleStubs.Wire.Reader

/-!
# Tokens of the wire format

A scanner reads tokens of a lexicon from a text, one directly after the other. At
each place the first token of the lexicon that starts there is taken. The scan
ends where no token starts, or where the token that starts there is empty. Since
each token but an initial one outside the text is not empty, a scan always ends.
-/

set_option autoImplicit false

namespace ModuleStubs

namespace Wire

/-- A kind of token. -/
inductive Token where
  /-- A word that stands for a value. -/
  | word (text : Text) (value : Json)
  | number
  | string
  | list
  | object
  /-- A run of blanks, which stands for null. -/
  | blanks
  /-- A match of a pattern, which stands for its text. -/
  | pattern (p : Pattern)

namespace Token

/-- The token of a name. -/
def named? (name : Text) : Option Token :=
  Record.get? name
    [(lit "JSONTrue", .word (lit "true") (.bool true)),
     (lit "JSONFalse", .word (lit "false") (.bool false)),
     (lit "JSONNull", .word (lit "null") .null),
     (lit "JSONNaN", .word (lit "NaN") (.float Binary64.nan)),
     (lit "JSONInfinity", .word (lit "Infinity") (.float (Binary64.infinity false))),
     (lit "JSONNegInfinity", .word (lit "-Infinity") (.float (Binary64.infinity true))),
     (lit "JSONNumber", .number),
     (lit "JSONString", .string),
     (lit "JSONArray", .list),
     (lit "JSONObject", .object),
     (lit "InsignificantWhitespace", .blanks)]

/-- The dialect of the patterns in a lexicon: blanks are ignored, anchors know
lines, the dot takes line feeds, and classes are those of ASCII. -/
def dialect : Pattern.Dialect := ⟨true, true, true, true⟩

/-- The token of a pattern. -/
def ofPattern (source : Text) : Except Pattern.Fault Token :=
  (Pattern.compile dialect source).map .pattern

/-- The rest of a text after a mark. -/
def afterMark? (mark : CodePoint) : Text → Option Text
  | [] => none
  | c :: t => if c = mark then some t else none

/-- The value of a token at the start of a text and the rest, if the token starts
there. -/
def read (before : Option CodePoint) (mustAdvance : Bool) (t : Text) :
    Token → Except Stop (Option (Json × Text))
  | .word text value => .ok ((Text.afterPrefix? text t).map fun rest => (value, rest))
  | .number => .ok (Json.numeral? t)
  | .string =>
    match afterMark? '"' t with
    | none => .ok none
    | some r => (stringBody r).map fun (s, rest) => some (.str s, rest)
  | .list =>
    match afterMark? '[' t with
    | none => .ok none
    | some r => (readList (fuelFor r) r).map fun (items, rest) => some (.list items, rest)
  | .object =>
    match afterMark? '\x7b' t with
    | none => .ok none
    | some r => (readObject (fuelFor r) r).map fun (fields, rest) => some (.object fields, rest)
  | .blanks =>
    let rest := skipBlanks t
    .ok (if rest.length < t.length then some (.null, rest) else none)
  | .pattern p =>
    .ok ((p.restAfter? before mustAdvance t).map fun rest =>
      (.str (t.take (t.length - rest.length)), rest))

/-- The first token of a lexicon that starts at a place. -/
def readFirst (before : Option CodePoint) (mustAdvance : Bool) (t : Text) :
    List Token → Except Stop (Option (Json × Text))
  | [] => .ok none
  | token :: tokens => do
    match ← token.read before mustAdvance t with
    | some r => return some r
    | none => readFirst before mustAdvance t tokens

/-- The code point before the rest of a text. -/
def pointBefore (doc rest : Text) : Option CodePoint :=
  if rest.length < doc.length then doc[doc.length - rest.length - 1]? else none

/-- The tokens of a text from a place on, each with the position after it. A step
that does not shorten the text ends the scan. -/
def scanFrom (lexicon : List Token) (doc : Text) (mustAdvance : Bool) (t : Text) :
    Trace (Json × Nat) Stop Unit :=
  match readFirst (pointBefore doc t) mustAdvance t lexicon with
  | .error s => Trace.fail s
  | .ok none => pure ()
  | .ok (some (v, rest)) =>
    if rest.length < t.length then do
      Trace.say (v, doc.length - rest.length)
      scanFrom lexicon doc false rest
    else pure ()
termination_by t.length

/-- The tokens of a text from a position on. Where the position lies outside the
text, an empty token at the nearer end of the text counts. -/
def scan (lexicon : List Token) (doc : Text) (position : Int) : Trace (Json × Nat) Stop Unit :=
  let t := dropTo doc position
  if 0 ≤ position ∧ position ≤ doc.length then scanFrom lexicon doc false t
  else
    match readFirst (pointBefore doc t) false t lexicon with
    | .ok (some (v, rest)) =>
      if rest.length < t.length then scanFrom lexicon doc false t
      else do
        Trace.say (v, doc.length - rest.length)
        scanFrom lexicon doc true rest
    | _ => scanFrom lexicon doc false t

end Token

end Wire

end ModuleStubs
