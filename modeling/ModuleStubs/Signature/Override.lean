import ModuleStubs.CType.Context

/-!
# Signature overrides

A configuration may give signatures to functions by their path: the path itself,
or a pattern for paths with a template for the signature that is filled with the
groups of the match. `SignatureOverride.candidate?` is the signature that an
override gives to a path, and `SignatureOverride.literal` shows an override in
messages.
-/

set_option autoImplicit false

namespace ModuleStubs

/-- The paths that an override is for. -/
inductive PathRule where
  /-- This path. -/
  | exact (path : Text)
  /-- All paths that match. -/
  | pattern (p : Pattern)
  /-- A value that is no path; it is refused when it is compared with one. -/
  | invalid (v : Json)

/-- A signature for the functions of some paths. -/
structure SignatureOverride where
  rule : PathRule
  /-- The signature, or the template of it. -/
  signature : Json

namespace PathRule

/-- The rule of a path given in a configuration. -/
def ofJson (v : Json) : PathRule :=
  match v with
  | .str path => .exact path
  | v => .invalid v

/-- The most code points of a pattern's literal that are shown. -/
def shownLimit : Nat := 200

/-- A rule in messages. -/
def literal : PathRule → Text
  | .exact path => Text.quoted path
  | .pattern p => lit "re.compile(" ++ (Text.quoted p.source).take shownLimit ++ lit ")"
  | .invalid v => v.literal

/-- A rule can be a member of a set. -/
def hashable : PathRule → Except Fault Unit
  | .exact _ => .ok ()
  | .pattern _ => .ok ()
  | .invalid v => v.hashable

end PathRule

namespace SignatureOverride

/-- The override of a configuration item. -/
def ofJson (data : Json) : Except Fault SignatureOverride := do
  let rule ←
    if ← data.mentions (lit "path") then do
      if ← data.mentions (lit "pathPattern") then throw (.violated .hasOnePath)
      PathRule.ofJson <$> data.index (lit "path")
    else if ← data.mentions (lit "pathPattern") then
      PathRule.pattern <$> (data.index (lit "pathPattern") >>= Json.toPattern)
    else throw .overrideWithoutPath
  let signature ← data.index (lit "signature")
  return ⟨rule, signature⟩

/-- The signature that an override gives to a path, if it is for that path and
gives one. -/
def candidate? (o : SignatureOverride) (path : Text) : Except Fault (Option Json) :=
  match o.rule with
  | .exact p =>
    if path = p then .ok (if o.signature.kind = .null then none else some o.signature)
    else .ok none
  | .pattern p =>
    match p.fullMatch? path with
    | none => .ok none
    | some groups => (o.signature.fillTemplate groups).map fun t => some (.str t)
  | .invalid _ => .error (.violated .pathIsText)

/-- An override can be a member of a set. -/
def hashable (o : SignatureOverride) : Except Fault Unit := do
  o.rule.hashable
  o.signature.hashable

/-- An override in messages. -/
def literal (o : SignatureOverride) : Text :=
  lit "SigOverride(path=" ++ o.rule.literal ++ lit ", newSig=" ++ o.signature.literal ++ lit ")"

end SignatureOverride

end ModuleStubs
