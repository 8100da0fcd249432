import ModuleStubs.Proofs.Annotation.Functions
import ModuleStubs.Proofs.Annotation.Warnings
import ModuleStubs.Proofs.Records

/-!
# The signature that a function ends with

The signature of a function node can come from its doc and from each override that is for its path, in
this order. Each one that can be read replaces the one before, so the last one that can be read stays,
and where none can, the node keeps what it had (`annotateFunction_lastParsed`). An override whose
signature cannot be read leaves the node alone and is complained of once, at every verbosity.

`Settles` says that an override is tried without a fault. What it then does is known for every node
(`overridden_step`), and what a list of overrides does follows from that (`overridden_run`).
-/

set_option autoImplicit false

namespace ModuleStubs

/-- What an override gives to a path for a signature, if it is for that path. -/
def SignatureOverride.given? (o : SignatureOverride) (path : Text) : Option Json :=
  (o.candidate? path).toOption.join

/-! ## Logs -/

theorem Note.messages_append (notes notes' : List Note) :
    Note.messages (notes ++ notes') = Note.messages notes ++ Note.messages notes' := by
  simp [Note.messages]

theorem Note.messages_used (index : Nat) (notes : List Note) :
    Note.messages (.used index :: notes) = Note.messages notes := rfl

theorem Note.messages_map (texts : List Text) : Note.messages (texts.map .message) = texts := by
  simp [Note.messages]

theorem Note.usedIndices_append (notes notes' : List Note) :
    Note.usedIndices (notes ++ notes') = Note.usedIndices notes ++ Note.usedIndices notes' := by
  simp [Note.usedIndices]

theorem Note.usedIndices_used (index : Nat) (notes : List Note) :
    Note.usedIndices (.used index :: notes) = index :: Note.usedIndices notes := rfl

namespace Annotator

variable {a : Annotator} {path : Text} {node : Json} {o : SignatureOverride}

/-- The lines that reading a value as a signature prints. -/
def readLines (a : Annotator) (path : Text) (v : Json) : List Text :=
  (Signature.readJson a.verbosity a.context path v).log

theorem messages_readSignature (v : Json) :
    Note.messages (a.readSignature path v).log = a.readLines path v := Note.messages_map _

theorem readLines_of_quiet (h : a.verbosity < 1) (path : Text) (v : Json) : a.readLines path v = [] :=
  List.eq_nil_iff_forall_not_mem.2 fun m hm =>
    absurd (Signature.remark_of_mem_readJson m hm).loud (Int.not_le.2 h)

/-- Reading a signature uses no override. -/
theorem usedIndices_readSignature (v : Json) :
    Note.usedIndices (a.readSignature path v).log = [] := by
  refine List.filterMap_eq_nil_iff.2 fun note hnote => ?_
  obtain ⟨m, -, rfl⟩ := List.mem_map.1 hnote
  rfl

/-! ## One override -/

/-- The signature that a value is read as, if it is one. -/
def parsed? (a : Annotator) (path : Text) (v : Json) : Option Signature :=
  (Signature.readJson a.verbosity a.context path v).result.toOption.join

theorem result_of_parsed? {v : Json} {s : Signature} (h : a.parsed? path v = some s) :
    (Signature.readJson a.verbosity a.context path v).result = .ok (some s) := by
  rw [parsed?] at h
  cases hread : (Signature.readJson a.verbosity a.context path v).result with
  | error e => simp [hread, Except.toOption] at h
  | ok found =>
      rw [hread] at h
      exact congrArg Except.ok h

/-- The signature that an override puts in the place of another one, if it gives one that can be
read. -/
def replacement? (a : Annotator) (path : Text) (o : SignatureOverride) : Option Signature :=
  (o.given? path).bind (a.parsed? path)

/-- The complaint about an override that gives something that cannot be read. -/
def refusal? (a : Annotator) (path : Text) (o : SignatureOverride) : Option Text :=
  (o.given? path).bind fun v =>
    if (a.parsed? path v).isNone then some (invalidSignature o v) else none

/-- The lines that trying an override prints: those about what it gives, and the complaint at the
end. -/
def overrideLines (a : Annotator) (path : Text) (o : SignatureOverride) : List Text :=
  ((o.given? path).map (a.readLines path)).getD [] ++ (a.refusal? path o).toList

/-- The override can be tried on a path without a fault. -/
structure Settles (a : Annotator) (path : Text) (o : SignatureOverride) : Prop where
  candidate : o.candidate? path = .ok (o.given? path)
  hashable : (o.given? path).isSome = true → o.hashable = .ok ()
  read : ∀ v, o.given? path = some v →
    (Signature.readJson a.verbosity a.context path v).result = .ok (a.parsed? path v)

/-- The node with the last of some signatures, if there are any. -/
def withLast (signatures : List Signature) (node : Json) : Json :=
  match signatures.getLast? with
  | some s => withSignature s node
  | none => node

theorem withSignature_withSignature (s t : Signature) (node : Json) :
    withSignature t (withSignature s node) = withSignature t node := by
  cases node with
  | object fields => simp [withSignature, Record.set_set]
  | _ => rfl

theorem withLast_append (ss ts : List Signature) (node : Json) :
    withLast (ss ++ ts) node = withLast ts (withLast ss node) := by
  simp only [withLast, List.getLast?_append]
  cases ts.getLast? with
  | none => rfl
  | some t =>
      cases ss.getLast? with
      | none => rfl
      | some s => exact (withSignature_withSignature s t node).symm

/-- What trying some overrides, each with its index, has done to a node. -/
structure Overridden (a : Annotator) (path : Text) (tried : List (SignatureOverride × Nat))
    (node : Json) (p : Progress Note Fault Json) : Prop where
  failure : p.failure = none
  value : p.value = withLast (tried.filterMap fun t => a.replacement? path t.1) node
  messages : Note.messages p.log = tried.flatMap fun t => a.overrideLines path t.1
  used : Note.usedIndices p.log = tried.filterMap fun t => (t.1.given? path).map fun _ => t.2

/-- What trying an override for another path does: nothing. -/
theorem annotateFromOverride_of_none (h : a.Settles path o) (hgiven : o.given? path = none)
    (index : Nat) (node : Json) : a.annotateFromOverride path o index node = ⟨[], .ok node⟩ := by
  rw [annotateFromOverride, h.candidate, hgiven]
  rfl

/-- What trying an override for the path does: it is used, and its signature is read and put in the
place of the one before, or complained of. -/
theorem annotateFromOverride_of_some (h : a.Settles path o) {v : Json}
    (hgiven : o.given? path = some v) (index : Nat) (node : Json) :
    a.annotateFromOverride path o index node =
      ⟨.used index :: ((a.readSignature path v).log ++ (a.refusal? path o).toList.map .message),
       .ok (withLast (a.replacement? path o).toList node)⟩ := by
  have hhash := h.hashable (by rw [hgiven]; rfl)
  have hread : a.readSignature path v =
      ⟨(a.readSignature path v).log, .ok (a.parsed? path v)⟩ := Trace.eq_of_result (h.read v hgiven)
  have hreplace : a.replacement? path o = a.parsed? path v := by rw [replacement?, hgiven]; rfl
  have hrefuse : a.refusal? path o =
      if (a.parsed? path v).isNone then some (invalidSignature o v) else none := by
    rw [refusal?, hgiven]
    rfl
  rw [annotateFromOverride, h.candidate, hgiven, hhash, hreplace, hrefuse]
  simp only [Trace.liftM_eq, Trace.bind_ok, List.nil_append, Trace.say_eq, List.singleton_append]
  rw [hread]
  cases a.parsed? path v with
  | none => simp [withLast]
  | some s => simp [withLast]

theorem usedIndices_refusal (a : Annotator) (path : Text) (o : SignatureOverride) :
    Note.usedIndices ((a.refusal? path o).toList.map .message) = [] := by
  cases a.refusal? path o <;> rfl

/-- An override that is tried without a fault. -/
theorem overridden_step (h : a.Settles path o) (index : Nat) (node : Json) :
    Overridden a path [(o, index)] node
      (Progress.step (a.annotateFromOverride path o index) node) := by
  cases hgiven : o.given? path with
  | none =>
      have hreplace : a.replacement? path o = none := by rw [replacement?, hgiven]; rfl
      have hrefuse : a.refusal? path o = none := by rw [refusal?, hgiven]; rfl
      rw [Progress.step, annotateFromOverride_of_none h hgiven]
      refine ⟨rfl, ?_, ?_, ?_⟩
      · simp [hreplace, withLast]
      · simp [overrideLines, hgiven, hrefuse, Note.messages]
      · simp [hgiven, Note.usedIndices]
  | some v =>
      rw [Progress.step, annotateFromOverride_of_some h hgiven]
      refine ⟨rfl, ?_, ?_, ?_⟩
      · cases hreplace : a.replacement? path o <;> simp [hreplace]
      · dsimp only
        rw [Note.messages_used, Note.messages_append, messages_readSignature, Note.messages_map]
        simp [overrideLines, hgiven]
      · dsimp only
        rw [Note.usedIndices_used, Note.usedIndices_append, usedIndices_readSignature,
          usedIndices_refusal]
        simp [hgiven]

/-- An override that was tried without a fault. -/
theorem settles_of_step {index : Nat}
    (h : (Progress.step (a.annotateFromOverride path o index) node).failure = none) :
    a.Settles path o := by
  obtain ⟨node', h⟩ := Progress.failure_step_eq_none.1 h
  obtain ⟨found, hfound, h⟩ := Trace.result_bind_eq_ok.1 h
  rw [Trace.liftM_eq] at hfound
  have hgiven : o.given? path = found := by
    rw [SignatureOverride.given?, show o.candidate? path = .ok found from hfound]
    rfl
  cases found with
  | none =>
      refine ⟨by rw [hgiven]; exact hfound, ?_, ?_⟩
      · simp [hgiven]
      · simp [hgiven]
  | some v =>
      obtain ⟨⟨⟩, hhash, h⟩ := Trace.result_bind_eq_ok.1 h
      obtain ⟨-, -, h⟩ := Trace.result_bind_eq_ok.1 h
      obtain ⟨read, hread, -⟩ := Trace.result_bind_eq_ok.1 h
      refine ⟨by rw [hgiven]; exact hfound, fun _ => hhash, ?_⟩
      intro v' hv'
      obtain rfl := Option.some.inj (hgiven.symm.trans hv')
      have hread' : (Signature.readJson a.verbosity a.context path v).result = .ok read := hread
      rw [parsed?, hread']
      rfl

/-- An override gives something for a signature exactly to the paths that it is for, unless it has null
in the place of the signature. -/
theorem Settles.isSome_given? (h : a.Settles path o) :
    (o.given? path).isSome = true ↔ o.rule.isFor path = true ∧ o.signature.kind ≠ .null := by
  have hcandidate := h.candidate
  generalize o.given? path = given at hcandidate
  rw [SignatureOverride.candidate?] at hcandidate
  cases hrule : o.rule with
  | exact p =>
      simp only [hrule] at hcandidate
      by_cases hpath : path = p
      · by_cases hnull : o.signature.kind = .null
        · simp only [hpath, hnull, if_true, Except.ok.injEq] at hcandidate
          simp [← hcandidate, hnull]
        · simp only [hpath, hnull, if_true, if_false, Except.ok.injEq] at hcandidate
          simp [← hcandidate, hnull, PathRule.isFor, hpath]
      · simp only [hpath, if_false, Except.ok.injEq] at hcandidate
        simp [← hcandidate, PathRule.isFor, hpath]
  | pattern p =>
      simp only [hrule] at hcandidate
      cases hmatch : p.fullMatch? path with
      | none =>
          simp only [hmatch, Except.ok.injEq] at hcandidate
          simp [← hcandidate, PathRule.isFor, hmatch]
      | some groups =>
          simp only [hmatch] at hcandidate
          obtain ⟨t, hfill, rfl⟩ := except_map_eq_ok.1 hcandidate
          -- only a text can be a template
          obtain ⟨template, htext, -⟩ := except_bind_eq_ok.1 hfill
          have hsignature := Json.textFor_eq_ok htext
          simp [PathRule.isFor, hmatch, hsignature, Json.kind]
  | invalid v => simp [hrule] at hcandidate

/-! ## All overrides -/

/-- The changes from some overrides, each with its index. -/
def changesOf (a : Annotator) (path : Text) (tried : List (SignatureOverride × Nat)) : List Change :=
  tried.map fun t => Progress.step (a.annotateFromOverride path t.1 t.2)

theorem overrideChanges_eq (a : Annotator) (path : Text) :
    a.overrideChanges path = a.changesOf path a.overrides.zipIdx := by
  rw [overrideChanges, List.mapIdx_eq_zipIdx_map]
  rfl

/-- Overrides that can be tried without a fault, one after the other. -/
theorem overridden_run : ∀ (tried : List (SignatureOverride × Nat)) (node : Json),
    (∀ t ∈ tried, a.Settles path t.1) →
      Overridden a path tried node (Progress.run (a.changesOf path tried) node)
  | [], node, _ => ⟨rfl, rfl, rfl, rfl⟩
  | (o, index) :: tried, node, h => by
      have hstep := overridden_step (h _ List.mem_cons_self) index node
      have hrun := overridden_run tried
        (Progress.step (a.annotateFromOverride path o index) node).value
        fun t ht => h t (List.mem_cons_of_mem _ ht)
      rw [changesOf, List.map_cons, Progress.run_cons, Progress.andThen_of_completed hstep.failure]
      -- what the first one did and what the others did, put one after the other
      have hcons : (o, index) :: tried = [(o, index)] ++ tried := rfl
      refine ⟨hrun.failure, ?_, ?_, ?_⟩
      · rw [hcons, List.filterMap_append, withLast_append, ← hstep.value]
        exact hrun.value
      · rw [hcons, List.flatMap_append, Note.messages_append, hstep.messages]
        exact congrArg _ hrun.messages
      · rw [hcons, List.filterMap_append, Note.usedIndices_append, hstep.used]
        exact congrArg _ hrun.used

theorem settles_of_run : ∀ (tried : List (SignatureOverride × Nat)) (node : Json),
    (Progress.run (a.changesOf path tried) node).failure = none →
      ∀ t ∈ tried, a.Settles path t.1
  | [], _, _ => by simp
  | (o, index) :: tried, node, h => by
      rw [changesOf, List.map_cons, Progress.run_cons] at h
      obtain ⟨hstep, hrun⟩ := Progress.failure_andThen_eq_none.1 h
      exact List.forall_mem_cons.2 ⟨settles_of_step hstep, settles_of_run tried _ hrun⟩

/-! ## The doc -/

/-- What may be a signature in a doc: of a text the part before its first hyphen, or all of it where
there is no hyphen. -/
def docSource : Json → Json
  | .str t => .str (docPart t)
  | doc => doc

/-- What is left of a doc that has a signature. -/
def docLeft : Json → Text
  | .str t => docRest t
  | _ => []

/-- A doc that is read without a fault is read as a signature. -/
theorem readDoc_of_completed {doc : Json} {found : Option (Signature × Text)}
    (h : (a.readDoc path doc).result = .ok found) :
    a.readDoc path doc = (do
      let signature ← a.readSignature path (docSource doc)
      return signature.map fun s => (s, docLeft doc)) := by
  by_cases htext : ∃ t, doc = .str t
  · obtain ⟨t, rfl⟩ := htext
    exact readDoc_str a path t
  · -- no other value can be cut at a hyphen
    obtain ⟨hyphen, hmentions, h⟩ := Trace.result_bind_eq_ok.1 h
    rw [Trace.liftM_eq] at hmentions
    have hmentions : doc.mentions (lit "-") = .ok hyphen := hmentions
    cases hyphen with
    | true =>
        obtain ⟨parts, hcut, -⟩ := Trace.result_bind_eq_ok.1 h
        rw [Trace.liftM_eq] at hcut
        cases doc with
        | str t => exact absurd ⟨t, rfl⟩ htext
        | _ => simp [cutDoc] at hcut
    | false =>
        rw [readDoc, hmentions]
        cases doc with
        | str t => exact absurd ⟨t, rfl⟩ htext
        | _ => rfl

theorem readDoc_completed {doc : Json} {found : Option (Signature × Text)}
    (h : (a.readDoc path doc).result = .ok found) :
    (Signature.readJson a.verbosity a.context path (docSource doc)).result =
      .ok (a.parsed? path (docSource doc)) ∧
    a.readDoc path doc = ⟨(a.readSignature path (docSource doc)).log,
      .ok ((a.parsed? path (docSource doc)).map fun s => (s, docLeft doc))⟩ := by
  have heq := readDoc_of_completed h
  rw [heq] at h
  obtain ⟨signature, hsignature, -⟩ := Trace.result_bind_eq_ok.1 h
  have hread : (Signature.readJson a.verbosity a.context path (docSource doc)).result =
    .ok signature := hsignature
  have hparsed : a.parsed? path (docSource doc) = signature := by
    rw [parsed?, hread]
    rfl
  refine ⟨by rw [hparsed, hread], ?_⟩
  rw [heq, hparsed, Trace.eq_of_result hsignature]
  simp

/-- The node after its doc was read. -/
def afterDoc (a : Annotator) (path : Text) (node : Json) : Json :=
  match node.field? (lit "doc") with
  | none => node
  | some doc =>
    match a.parsed? path (docSource doc) with
    | none => node
    | some s => (withSignature s node).withField (lit "doc") (.str (docLeft doc))

/-- The lines that reading the doc of a node prints. -/
def docLines (a : Annotator) (path : Text) (node : Json) : List Text :=
  ((node.field? (lit "doc")).map fun doc => a.readLines path (docSource doc)).getD []

/-- What reading the doc has done to a node. -/
structure DocRead (a : Annotator) (path : Text) (node : Json) (p : Progress Note Fault Json) :
    Prop where
  value : p.value = a.afterDoc path node
  messages : Note.messages p.log = a.docLines path node
  used : Note.usedIndices p.log = []
  read : ∀ doc, node.field? (lit "doc") = some doc →
    (Signature.readJson a.verbosity a.context path (docSource doc)).result =
      .ok (a.parsed? path (docSource doc))

/-- A doc that was read without a fault. -/
theorem docRead_step (h : (Progress.step (a.annotateFromDoc path) node).failure = none) :
    DocRead a path node (Progress.step (a.annotateFromDoc path) node) := by
  obtain ⟨node', hnode'⟩ := Progress.failure_step_eq_none.1 h
  cases hdoc : node.field? (lit "doc") with
  | none =>
      have hstep : a.annotateFromDoc path node = ⟨[], .ok node⟩ := by
        rw [annotateFromDoc, hdoc]
        rfl
      rw [Progress.step, hstep]
      exact ⟨by simp [afterDoc, hdoc], by simp [docLines, hdoc, Note.messages], rfl, by simp [hdoc]⟩
  | some doc =>
      have hfound : ∃ found, (a.readDoc path doc).result = .ok found := by
        rw [annotateFromDoc, hdoc] at hnode'
        obtain ⟨found, hfound, -⟩ := Trace.result_bind_eq_ok.1 hnode'
        exact ⟨found, hfound⟩
      obtain ⟨found, hfound⟩ := hfound
      obtain ⟨hread, heq⟩ := readDoc_completed hfound
      have hstep : a.annotateFromDoc path node =
          ⟨(a.readSignature path (docSource doc)).log, .ok (a.afterDoc path node)⟩ := by
        rw [annotateFromDoc, afterDoc, hdoc]
        simp only [heq, Trace.bind_ok]
        cases a.parsed? path (docSource doc) <;> simp
      rw [Progress.step, hstep]
      refine ⟨rfl, by simp [docLines, hdoc, messages_readSignature], usedIndices_readSignature _, ?_⟩
      intro doc' hdoc'
      obtain rfl := Option.some.inj (hdoc.symm.trans hdoc')
      exact hread

/-! ## Function nodes -/

/-- The values that a signature for a function is read from, in the order in which they are tried: its
doc, and what the overrides for its path give. -/
def sources (a : Annotator) (path : Text) (node : Json) : List Json :=
  ((node.field? (lit "doc")).map docSource).toList ++ a.overrides.filterMap (·.given? path)

/-- The last of the sources of a function that can be read as a signature. -/
def lastParsed? (a : Annotator) (path : Text) (node : Json) : Option Signature :=
  ((a.sources path node).filterMap (a.parsed? path)).getLast?

/-- The source that the last of these signatures is read from. -/
def lastSource? (a : Annotator) (path : Text) (node : Json) : Option Json :=
  (a.sources path node).reverse.find? fun v => (a.parsed? path v).isSome

theorem exists_parsed_of_lastSource? {v : Json} (h : a.lastSource? path node = some v) :
    ∃ s, a.parsed? path v = some s := by
  have hparsed := List.find?_some (p := fun v => (a.parsed? path v).isSome) h
  exact Option.isSome_iff_exists.1 hparsed

theorem lastParsed?_eq_bind (a : Annotator) (path : Text) (node : Json) :
    a.lastParsed? path node = (a.lastSource? path node).bind (a.parsed? path) := by
  rw [lastParsed?, List.getLast?_filterMap, lastSource?]
  induction (a.sources path node).reverse with
  | nil => rfl
  | cons v vs ih =>
      rw [List.findSome?_cons, List.find?_cons]
      cases hv : a.parsed? path v with
      | none => exact ih
      | some s => exact hv.symm

/-- What annotating a function node has done to it. -/
structure Visited (a : Annotator) (path : Text) (node : Json) (p : Progress Note Fault Json) :
    Prop where
  value : p.value = withLast (a.overrides.filterMap (a.replacement? path)) (a.afterDoc path node)
  messages : Note.messages p.log =
    a.docLines path node ++ a.overrides.flatMap (a.overrideLines path)
  used : Note.usedIndices p.log =
    a.overrides.zipIdx.filterMap fun t => (t.1.given? path).map fun _ => t.2
  settles : ∀ o ∈ a.overrides, a.Settles path o
  read : ∀ doc, node.field? (lit "doc") = some doc →
    (Signature.readJson a.verbosity a.context path (docSource doc)).result =
      .ok (a.parsed? path (docSource doc))

/-- A function node that was annotated without a fault. -/
theorem visited_run (h : (Progress.run (a.functionChanges path) node).failure = none) :
    Visited a path node (Progress.run (a.functionChanges path) node) := by
  have hchanges : a.functionChanges path =
      Progress.step (a.annotateFromDoc path) :: a.changesOf path a.overrides.zipIdx := by
    rw [← overrideChanges_eq]
    rfl
  -- an override does not look at its index when it is tried
  have hreplaced : a.overrides.zipIdx.filterMap (fun t => a.replacement? path t.1) =
      a.overrides.filterMap (a.replacement? path) := by
    rw [← Function.comp_def, ← List.filterMap_map, List.zipIdx_map_fst]
  have hlines : a.overrides.zipIdx.flatMap (fun t => a.overrideLines path t.1) =
      a.overrides.flatMap (a.overrideLines path) := by
    rw [← List.flatMap_map, List.zipIdx_map_fst]
  rw [hchanges, Progress.run_cons] at h ⊢
  obtain ⟨hdoc, hrun⟩ := Progress.failure_andThen_eq_none.1 h
  have hread := docRead_step hdoc
  have hsettles := settles_of_run _ _ hrun
  have hover := overridden_run _ (Progress.step (a.annotateFromDoc path) node).value hsettles
  rw [Progress.andThen_of_completed hdoc]
  refine ⟨?_, ?_, ?_, ?_, hread.read⟩
  · rw [← hread.value, ← hreplaced]
    exact hover.value
  · rw [Note.messages_append, hread.messages, ← hlines]
    exact congrArg _ hover.messages
  · rw [Note.usedIndices_append, hread.used]
    exact hover.used
  · intro o ho
    obtain ⟨i, hi⟩ := List.mem_iff_getElem?.1 ho
    exact hsettles (o, i) (List.mk_mem_zipIdx_iff_getElem?.2 hi)

theorem field?_withLast {u : Json} {key : Text} (h : node.field? key = some u)
    (signatures : List Signature) :
    (withLast signatures node).field? (lit "signature") =
      (signatures.getLast?.map Signature.toJson).or (node.field? (lit "signature")) := by
  rw [withLast]
  cases signatures.getLast? with
  | none => rfl
  | some s => exact Json.field?_withField_self h _ _

theorem field?_withLast_of_ne {key : Text} (h : lit "signature" ≠ key)
    (signatures : List Signature) : (withLast signatures node).field? key = node.field? key := by
  rw [withLast]
  cases signatures.getLast? with
  | none => rfl
  | some s => exact Json.field?_withField_of_ne h _ _

/-- The signature that a function node has after its doc was read. -/
theorem field?_afterDoc {u : Json} {key : Text} (h : node.field? key = some u) :
    (a.afterDoc path node).field? (lit "signature") =
      ((((node.field? (lit "doc")).map docSource).bind (a.parsed? path)).map Signature.toJson).or
        (node.field? (lit "signature")) := by
  rw [afterDoc]
  cases node.field? (lit "doc") with
  | none => rfl
  | some doc =>
      simp only [Option.map_some, Option.bind_some]
      cases a.parsed? path (docSource doc) with
      | none => rfl
      | some s =>
          simp only
          rw [Json.field?_withField_of_ne (by decide), withSignature, Json.field?_withField_self h]
          rfl

theorem field?_afterDoc_of_ne {key : Text} (hsig : lit "signature" ≠ key) (hdoc : lit "doc" ≠ key) :
    (a.afterDoc path node).field? key = node.field? key := by
  rw [afterDoc]
  split
  · rfl
  · split
    · rfl
    · rw [Json.field?_withField_of_ne hdoc, withSignature, Json.field?_withField_of_ne hsig]

/-- The last of the sources is the last of the overrides that can be read, or else the doc. -/
theorem lastParsed?_eq (a : Annotator) (path : Text) (node : Json) :
    a.lastParsed? path node = (a.overrides.filterMap (a.replacement? path)).getLast?.or
      (((node.field? (lit "doc")).map docSource).bind (a.parsed? path)) := by
  have hoverrides : (a.overrides.filterMap (·.given? path)).filterMap (a.parsed? path) =
      a.overrides.filterMap (a.replacement? path) := List.filterMap_filterMap
  rw [lastParsed?, sources, List.filterMap_append, hoverrides, List.getLast?_append]
  cases (node.field? (lit "doc")).map docSource with
  | none => simp
  | some v => cases hv : a.parsed? path v <;> simp [hv]

/-- The signature that a function node ends with. -/
theorem field?_signature_functionChanges {u : Json} {key : Text} (hkey : node.field? key = some u)
    (hsig : lit "signature" ≠ key) (hdoc : lit "doc" ≠ key)
    (h : (Progress.run (a.functionChanges path) node).failure = none) :
    (Progress.run (a.functionChanges path) node).value.field? (lit "signature") =
      ((a.lastParsed? path node).map Signature.toJson).or (node.field? (lit "signature")) := by
  have hafter : (a.afterDoc path node).field? key = some u := by
    rw [field?_afterDoc_of_ne hsig hdoc, hkey]
  rw [(visited_run h).value, field?_withLast hafter, field?_afterDoc hkey, lastParsed?_eq,
    Option.map_or, Option.or_assoc]

/-- Below verbosity one only the overrides that give no signature are spoken of. -/
theorem lines_of_quiet (h : a.verbosity < 1) (path : Text) (node : Json) :
    a.docLines path node ++ a.overrides.flatMap (a.overrideLines path) =
      a.overrides.filterMap (a.refusal? path) := by
  have hdoc : a.docLines path node = [] := by
    rw [docLines]
    cases node.field? (lit "doc") with
    | none => rfl
    | some doc => exact readLines_of_quiet h path _
  have hoverride (o : SignatureOverride) : a.overrideLines path o = (a.refusal? path o).toList := by
    rw [overrideLines]
    cases o.given? path with
    | none => rfl
    | some v => rw [Option.map_some, Option.getD_some, readLines_of_quiet h, List.nil_append]
  rw [hdoc, List.nil_append, List.filterMap_eq_flatMap_toList]
  exact congrArg (List.flatMap · a.overrides) (funext hoverride)

/-- **The last one counts.** A function node that is annotated without a fault ends with the last of
its sources that can be read as a signature, and with the signature that it had where there is none.
Its doc is what reading it has left, whatever the overrides are. What an override gives that cannot be
read changes no node, and one line says so after those of the reader. Nothing else is printed: the lines
about the doc come first, then those about each override in turn, and below verbosity one these are
the complaints about overrides alone. -/
theorem annotateFunction_lastParsed {parent : Json}
    (h : (a.annotateFunction parent node).failure = none) :
    ∃ path, childPath parent node = .ok path ∧
      (∀ v ∈ a.sources path node,
        (Signature.readJson a.verbosity a.context path v).result = .ok (a.parsed? path v)) ∧
      (∀ o ∈ a.overrides, (o.given? path).isSome = true ↔
        o.rule.isFor path = true ∧ o.signature.kind ≠ .null) ∧
      (a.annotateFunction parent node).value.field? (lit "signature") =
        ((a.lastParsed? path node).map Signature.toJson).or (node.field? (lit "signature")) ∧
      (a.annotateFunction parent node).value.field? (lit "doc") =
        (a.afterDoc path node).field? (lit "doc") ∧
      (∀ o ∈ a.overrides, ∀ v, o.given? path = some v → a.parsed? path v = none → ∀ index n,
        (a.annotateFromOverride path o index n).result = .ok n ∧
        Note.messages (a.annotateFromOverride path o index n).log =
          a.readLines path v ++ [invalidSignature o v]) ∧
      Note.messages (a.annotateFunction parent node).log =
        a.docLines path node ++ a.overrides.flatMap (a.overrideLines path) ∧
      (a.verbosity < 1 → Note.messages (a.annotateFunction parent node).log =
        a.overrides.filterMap (a.refusal? path)) := by
  rw [annotateFunction] at h ⊢
  cases hpath : childPath parent node with
  | error e => simp [hpath, Progress.stopped] at h
  | ok path =>
      simp only [hpath] at h ⊢
      obtain ⟨-, f, -, hname, -⟩ := childPath_eq_ok hpath
      have hvisited := visited_run h
      refine ⟨path, rfl, ?_, fun o ho => (hvisited.settles o ho).isSome_given?, ?_, ?_, ?_,
        hvisited.messages, fun hquiet => hvisited.messages.trans (lines_of_quiet hquiet path node)⟩
      · intro v hv
        rcases List.mem_append.1 hv with hv | hv
        · obtain ⟨doc, hdoc, rfl⟩ := Option.map_eq_some_iff.1 (Option.mem_toList.1 hv)
          exact hvisited.read doc hdoc
        · obtain ⟨o, ho, hgiven⟩ := List.mem_filterMap.1 hv
          exact (hvisited.settles o ho).read v hgiven
      · exact field?_signature_functionChanges hname (by decide) (by decide) h
      · rw [hvisited.value, field?_withLast_of_ne (by decide)]
      · intro o ho v hgiven hparsed index n
        have hreplace : a.replacement? path o = none := by rw [replacement?, hgiven]; exact hparsed
        have hrefuse : a.refusal? path o = some (invalidSignature o v) := by
          simp [refusal?, hgiven, hparsed]
        rw [annotateFromOverride_of_some (hvisited.settles o ho) hgiven]
        refine ⟨by rw [hreplace]; rfl, ?_⟩
        dsimp only
        rw [Note.messages_used, Note.messages_append, messages_readSignature, Note.messages_map,
          hrefuse]
        rfl

/-- Paths inside the module `Ext`, with the rest of the path as a group. -/
def extPaths : Pattern :=
  ⟨lit "Ext\\.(.+)", (lit "Ext.").foldr (fun c e => .seq (.point c) e)
    (.group 1 (.repeated (.anyPoint false) 1 none .greedy)), 1⟩

/-- Four overrides: one for a path, one for a pattern, one that is no signature, and one for another
path. -/
def extAnnotator : Annotator :=
  ⟨{}, [⟨.exact (lit "Ext.kill"), .str (lit "bool ()")⟩,
    ⟨.pattern extPaths, .str (lit "float \x7b\x7d(int)")⟩,
    ⟨.exact (lit "Ext.kill"), .str (lit "int (")⟩,
    ⟨.exact (lit "Ext.heal"), .str (lit "void ()")⟩], 0⟩

/-- A function with a signature in its doc. -/
def killNode : Json :=
  .object [(lit "name", .str (lit "kill")), (lit "type", .str (lit "function")),
    (lit "doc", .str (lit "void kill(x) - ends it"))]

theorem annotateFunction_lastParsed_kill :
    (extAnnotator.annotateFunction (.str (lit "Ext")) killNode).failure = none ∧
    (extAnnotator.annotateFunction (.str (lit "Ext")) killNode).value.field? (lit "signature") =
      some (⟨some (lit "float"), none, [⟨lit "arg0", some ⟨some (lit "int"), none⟩⟩]⟩ :
        Signature).toJson ∧
    (extAnnotator.annotateFunction (.str (lit "Ext")) killNode).value.field? (lit "doc") =
      some (.str (lit "ends it")) ∧
    Note.messages (extAnnotator.annotateFunction (.str (lit "Ext")) killNode).log =
      [lit "ERROR: sig override SigOverride(path='Ext.kill', newSig='int (') produced invalid signature 'int ('"] := by
  have hok : (extAnnotator.annotateFunction (.str (lit "Ext")) killNode).failure = none := by
    decide +kernel
  obtain ⟨path, hpath, -, -, hsignature, hdoc, -, -, hquiet⟩ := annotateFunction_lastParsed hok
  obtain rfl : lit "Ext.kill" = path := Except.ok.inj hpath
  refine ⟨hok, hsignature.trans ?_, hdoc.trans ?_, (hquiet (by decide)).trans ?_⟩
  · decide +kernel
  · decide +kernel
  · decide +kernel

end Annotator

end ModuleStubs
