import Mathlib.Data.List.Forall2
import ModuleStubs.Console
import ModuleStubs.Proofs.Annotation.Skeleton
import ModuleStubs.Proofs.Signature.Arguments

/-!
# Verbosity

A verbosity is for the messages. Every reader and every change looks at it, and next to a message there is
often a result that is given up or a state that is changed. So two runs are compared step by step: at two
verbosities `v ≤ w` the readers of signatures give the same results, and what they say at `v` is part of what
they say at `w`, in the same order (`Softer`, `softer_readJson`). The same holds of the changes of a skeleton
whose members have names, with the overrides that are used (`Hushed`, `Quieter`). One message needs the name
of the member that it is about, and that is why the names are asked for.

The two annotations end in the same way, with the same data (`annotate_verbosity`). On a console that takes
every line so do the two runs. A console that refuses a line stops the run that prints it, and a run at
a higher verbosity prints more lines.
-/

set_option autoImplicit false

namespace ModuleStubs

/-- Two computations in step: the same result, and logs that are related. -/
structure Trace.InStep {μ ε α : Type} (R : List μ → List μ → Prop) (x y : Trace μ ε α) : Prop where
  result : x.result = y.result
  log : R x.log y.log

/-- Computations in step, one after the other. -/
theorem Trace.InStep.bind_of_append {μ ε α β : Type} {R : List μ → List μ → Prop}
    (happend : ∀ {k l m n : List μ}, R k l → R m n → R (k ++ m) (l ++ n)) {x y : Trace μ ε α}
    {f g : α → Trace μ ε β} (h : x.InStep R y) (hfg : ∀ a, (f a).InStep R (g a)) :
    (x >>= f).InStep R (y >>= g) := by
  obtain ⟨log, r⟩ := x
  obtain ⟨log', r'⟩ := y
  obtain rfl : r = r' := h.result
  cases r with
  | error e => exact ⟨rfl, h.log⟩
  | ok a => exact ⟨(hfg a).result, happend h.log (hfg a).log⟩

/-! ## Readers -/

/-- Two readers in step: the messages of the first one are some of those of the second one. -/
abbrev Softer {α : Type} (x y : Trace Text Fault α) : Prop := x.InStep List.Sublist y

namespace Softer

variable {α β : Type} {x y : Trace Text Fault α}

theorem refl (x : Trace Text Fault α) : Softer x x := ⟨rfl, .refl _⟩

theorem bind {f g : α → Trace Text Fault β} (h : Softer x y) (hfg : ∀ a, Softer (f a) (g a)) :
    Softer (x >>= f) (y >>= g) :=
  h.bind_of_append List.Sublist.append hfg

end Softer

namespace Signature

variable {v w : Int} {ctx : TypeContext} {path shown : Text}

/-- A message is said at every verbosity above one at which it is said. -/
theorem softer_sayFrom (hvw : v ≤ w) (level : Int) (message : Text) :
    Softer (sayFrom level v message) (sayFrom level w message) := by
  rw [sayFrom_eq, sayFrom_eq]
  refine ⟨rfl, ?_⟩
  by_cases hv : level ≤ v
  · rw [if_pos hv, if_pos (Int.le_trans hv hvw)]
  · rw [if_neg hv]
    exact List.nil_sublist _

theorem softer_oneWordArgument (hvw : v ≤ w) (doc : Text) (index : Int) :
    Softer (oneWordArgument v ctx path doc index) (oneWordArgument w ctx path doc index) := by
  refine Softer.bind (.refl _) fun types => ?_
  obtain ⟨main, alternative⟩ := types
  dsimp only
  split
  · exact .refl _
  · split
    · exact .refl _
    · exact (softer_sayFrom hvw _ _).bind fun _ => .refl _

theorem softer_namedArgument (hvw : v ≤ w) (doc : Text) (index : Int) :
    Softer (namedArgument v ctx path doc index) (namedArgument w ctx path doc index) := by
  rw [namedArgument, namedArgument]
  generalize (Text.cutLast ' ' doc).getD (doc, []) = parts
  obtain ⟨before, after⟩ := parts
  refine Softer.bind (.refl _) fun types => ?_
  obtain ⟨main, alternative⟩ := types
  dsimp only
  split
  · exact (softer_sayFrom hvw _ _).bind fun _ => .refl _
  · split
    · exact .refl _
    · exact (softer_sayFrom hvw _ _).bind fun _ => .refl _

theorem softer_readArgument (hvw : v ≤ w) (text : Text) (index : Int) :
    Softer (readArgument v ctx path text index) (readArgument w ctx path text index) := by
  rw [readArgument, readArgument]
  dsimp only
  split
  · exact softer_oneWordArgument hvw _ _
  · refine Softer.bind (.refl _) fun types => ?_
    obtain ⟨main, alternative⟩ := types
    dsimp only
    split
    · exact .refl _
    · exact softer_namedArgument hvw _ _

theorem softer_readArguments (hvw : v ≤ w) : ∀ (index : Nat) (seen texts : List Text),
    Softer (readArguments v ctx path shown index seen texts)
      (readArguments w ctx path shown index seen texts)
  | _, _, [] => .refl _
  | index, seen, t :: ts => by
      rw [readArguments, readArguments]
      refine (softer_readArgument hvw t index).bind fun argument => ?_
      cases argument with
      | none => exact .refl _
      | some a =>
          have hrest := (softer_readArguments hvw (index + 1) (a.name :: seen) ts).bind
            fun rest => .refl (pure (rest.map (a :: ·)))
          dsimp only
          split
          · exact (softer_sayFrom hvw _ _).bind fun _ => hrest
          · exact hrest

theorem softer_readReturned (hvw : v ≤ w) (returnText : Text) :
    Softer (readReturned v ctx path shown returnText) (readReturned w ctx path shown returnText) := by
  rw [readReturned, readReturned]
  split
  · exact .refl _
  · refine Softer.bind (.refl _) fun types => ?_
    obtain ⟨main, alternative⟩ := types
    cases main with
    | none => exact (softer_sayFrom hvw _ _).bind fun _ => .refl _
    | some m => exact .refl _

/-- A value is read as the same signature at every verbosity. -/
theorem softer_readJson (hvw : v ≤ w) (value : Json) :
    Softer (readJson v ctx path value) (readJson w ctx path value) := by
  refine Softer.bind (.refl _) fun split => ?_
  cases split with
  | none => exact (softer_sayFrom hvw _ _).bind fun _ => .refl _
  | some parts =>
      obtain ⟨first, second⟩ := parts
      rw [readSplit, readSplit, readParts_eq, readParts_eq]
      refine (softer_readReturned hvw _).bind fun returned => ?_
      cases returned with
      | none => exact .refl _
      | some types => exact (softer_readArguments hvw _ _ _).bind fun _ => .refl _

end Signature

/-! ## Changes of a node -/

/-- Notes of which nothing but messages were left out. -/
structure Hushed (notes notes' : List Note) : Prop where
  sublist : notes.Sublist notes'
  used : Note.usedIndices notes = Note.usedIndices notes'

namespace Hushed

theorem refl (notes : List Note) : Hushed notes notes := ⟨.refl _, rfl⟩

theorem append {n n' m m' : List Note} (h : Hushed n n') (h' : Hushed m m') :
    Hushed (n ++ m) (n' ++ m') := by
  have hused := h.used
  have hused' := h'.used
  simp only [Note.usedIndices] at hused hused'
  exact ⟨h.sublist.append h'.sublist, by
    simp only [Note.usedIndices, List.filterMap_append, hused, hused']⟩

/-- A message under two conditions of which the second one follows from the first one. -/
theorem message_of_imp {p q : Prop} [Decidable p] [Decidable q] (h : p → q) (text : Text) :
    Hushed (if p then [.message text] else []) (if q then [.message text] else []) := by
  by_cases hp : p
  · rw [if_pos hp, if_pos (h hp)]
    exact refl _
  · rw [if_neg hp]
    split
    · exact ⟨List.nil_sublist _, rfl⟩
    · exact refl _

/-- Messages use no override. -/
theorem messages {texts texts' : List Text} (h : texts.Sublist texts') :
    Hushed (texts.map .message) (texts'.map .message) := by
  have hnone (ts : List Text) : Note.usedIndices (ts.map .message) = [] :=
    List.filterMap_eq_nil_iff.2 fun note hnote => by
      obtain ⟨t, -, rfl⟩ := List.mem_map.1 hnote
      rfl
  exact ⟨h.map _, by rw [hnone, hnone]⟩

end Hushed

/-- Two computations in step: the first one leaves out nothing but messages. -/
abbrev Muted {α : Type} (x y : Trace Note Fault α) : Prop := x.InStep Hushed y

namespace Muted

variable {α β : Type} {x y : Trace Note Fault α}

theorem refl (x : Trace Note Fault α) : Muted x x := ⟨rfl, .refl _⟩

theorem bind {f g : α → Trace Note Fault β} (h : Muted x y) (hfg : ∀ a, Muted (f a) (g a)) :
    Muted (x >>= f) (y >>= g) :=
  h.bind_of_append Hushed.append hfg

end Muted

/-- Two changes in step: the same value, the same end, and notes of which the first one lacks nothing but
messages. -/
structure Quieter {α : Type} (p q : Progress Note Fault α) : Prop where
  value : p.value = q.value
  failure : p.failure = q.failure
  log : Hushed p.log q.log

namespace Quieter

variable {α β : Type} {p q : Progress Note Fault α}

theorem refl (p : Progress Note Fault α) : Quieter p p := ⟨rfl, rfl, .refl _⟩

theorem map (f : α → β) (h : Quieter p q) : Quieter (p.map f) (q.map f) :=
  ⟨congrArg f h.value, h.failure, h.log⟩

theorem step {f g : α → Trace Note Fault α} {a : α} (h : Muted (f a) (g a)) :
    Quieter (Progress.step f a) (Progress.step g a) := by
  rw [Progress.step, Progress.step]
  generalize f a = x at h
  generalize g a = y at h
  obtain ⟨log, r⟩ := x
  obtain ⟨log', r'⟩ := y
  obtain rfl : r = r' := h.result
  cases r with
  | error e => exact ⟨rfl, rfl, h.log⟩
  | ok b => exact ⟨rfl, rfl, h.log⟩

theorem andThen {f g : α → Progress Note Fault α} (h : Quieter p q)
    (hfg : ∀ a, Quieter (f a) (g a)) : Quieter (p.andThen f) (q.andThen g) := by
  rw [Progress.andThen, Progress.andThen, ← h.failure, ← h.value]
  cases p.failure with
  | some e => exact h
  | none =>
      have hrest := hfg p.value
      exact ⟨hrest.value, hrest.failure, h.log.append hrest.log⟩

/-- Lists of changes that are in step one by one. -/
theorem run {fs gs : List (α → Progress Note Fault α)}
    (h : List.Forall₂ (fun f g => ∀ a, Quieter (f a) (g a)) fs gs) (a : α) :
    Quieter (Progress.run fs a) (Progress.run gs a) := by
  induction h generalizing a with
  | nil => exact refl _
  | cons hfirst _ ih => exact (hfirst a).andThen ih

/-- Changes in step for each element are in step for the list. -/
theorem walk {f g : α → Progress Note Fault α} {as : List α} (h : ∀ a ∈ as, Quieter (f a) (g a)) :
    Quieter (Progress.walk f as) (Progress.walk g as) := by
  induction as with
  | nil => exact refl _
  | cons a as ih =>
      have hfirst := h a List.mem_cons_self
      have hrest := ih fun b hb => h b (List.mem_cons_of_mem _ hb)
      rw [Progress.walk, Progress.walk]
      dsimp only
      -- both walks stop at this element, or neither does
      rw [← hfirst.failure, ← hfirst.value]
      cases (f a).failure with
      | some e => exact ⟨rfl, rfl, hfirst.log⟩
      | none =>
          exact ⟨congrArg (List.cons _) hrest.value, hrest.failure, hfirst.log.append hrest.log⟩

end Quieter

namespace Annotator

/-- The annotator at another verbosity. -/
def atVerbosity (a : Annotator) (v : Int) : Annotator := { a with verbosity := v }

variable {a : Annotator} {v w : Int} {node : Json} {path : Text}

/-! ## Functions -/

theorem muted_readSignature (hvw : v ≤ w) (value : Json) :
    Muted ((a.atVerbosity v).readSignature path value)
      ((a.atVerbosity w).readSignature path value) := by
  have h : Softer (Signature.readJson v a.context path value)
      (Signature.readJson w a.context path value) := Signature.softer_readJson hvw value
  exact ⟨h.result, .messages h.log⟩

theorem muted_annotateFromDoc (hvw : v ≤ w) (path : Text) (node : Json) :
    Muted ((a.atVerbosity v).annotateFromDoc path node)
      ((a.atVerbosity w).annotateFromDoc path node) := by
  rw [annotateFromDoc, annotateFromDoc]
  split
  · exact .refl _
  · refine Muted.bind ?_ fun read => .refl _
    refine Muted.bind (.refl _) fun hyphen => ?_
    split
    · refine Muted.bind (.refl _) fun parts => ?_
      exact (muted_readSignature hvw _).bind fun _ => .refl _
    · exact (muted_readSignature hvw _).bind fun _ => .refl _

theorem muted_annotateFromOverride (hvw : v ≤ w) (o : SignatureOverride) (index : Nat) (node : Json) :
    Muted ((a.atVerbosity v).annotateFromOverride path o index node)
      ((a.atVerbosity w).annotateFromOverride path o index node) := by
  refine Muted.bind (.refl _) fun found => ?_
  cases found with
  | none => exact .refl _
  | some candidate =>
      refine Muted.bind (.refl _) fun _ => Muted.bind (.refl _) fun _ => ?_
      exact (muted_readSignature hvw candidate).bind fun _ => .refl _

theorem quieter_annotateFunction (hvw : v ≤ w) (parent node : Json) :
    Quieter ((a.atVerbosity v).annotateFunction parent node)
      ((a.atVerbosity w).annotateFunction parent node) := by
  rw [annotateFunction, annotateFunction]
  split
  · exact .refl _
  · rename_i path _
    refine Quieter.run (.cons (fun n => .step (muted_annotateFromDoc hvw path n)) ?_) node
    -- the same overrides are tried, each with its index
    rw [List.mapIdx_eq_zipIdx_map, List.mapIdx_eq_zipIdx_map, List.forall₂_map_left_iff,
      List.forall₂_map_right_iff]
    exact List.forall₂_same.2 fun t _ n => .step (muted_annotateFromOverride hvw _ _ n)

/-! ## Members -/

theorem muted_ignoreMember (hvw : v ≤ w) {name : Json}
    (hname : node.field? (lit "name") = some name) (parent : Text) (type : Json) :
    Muted (ignoreMember v parent type node) (ignoreMember w parent type node) := by
  rw [ignoreMember, ignoreMember, Json.index_of_field? hname]
  by_cases hv : v < 1
  · -- nothing is said at the lower verbosity, whatever is said at the higher one
    rw [if_pos hv]
    by_cases hw : w < 1
    · rw [if_pos hw]
      exact .refl _
    · rw [if_neg hw]
      exact ⟨rfl, List.nil_sublist _, rfl⟩
  · have hw : ¬w < 1 := by omega
    rw [if_neg hv, if_neg hw]
    exact .refl _

/-- Changes that are in step for each member of a node, and for texts, are in step for the node. -/
theorem quieter_annotateMembers {f g : Change} (hmember : ∀ x, node.IsMember x → Quieter (f x) (g x))
    (htext : ∀ t, Quieter (f (.str t)) (g (.str t))) :
    Quieter (annotateMembers f node) (annotateMembers g node) := by
  rw [annotateMembers, annotateMembers]
  split
  · exact .refl _
  · rename_i items hitems
    apply Quieter.map
    apply Quieter.walk
    intro x hx
    exact hmember x ⟨items, Json.index_eq_ok_iff.1 hitems, hx⟩
  -- a value that is no list has texts for its parts, and they are walked through all the same
  · rename_i u hlist _
    split
    · exact .refl _
    · rename_i parts hparts
      apply Quieter.map
      apply Quieter.walk
      intro x hx
      obtain ⟨t, rfl⟩ := Json.eq_str_of_mem_elements (fun items heq => hlist items heq) hparts hx
      exact htext t

theorem quieter_annotateClassMember (hvw : v ≤ w) {name : Json}
    (hname : node.field? (lit "name") = some name) (path : Text) :
    Quieter ((a.atVerbosity v).annotateClassMember path node)
      ((a.atVerbosity w).annotateClassMember path node) := by
  rw [annotateClassMember, annotateClassMember]
  split
  · exact .refl _
  · split
    · exact quieter_annotateFunction hvw _ _
    · split
      · exact .refl _
      · exact .step (muted_ignoreMember hvw hname _ _)

theorem quieter_annotateClass (hvw : v ≤ w)
    (hnames : ∀ x, node.IsMember x → ∃ name, x.field? (lit "name") = some name) (parent : Json) :
    Quieter ((a.atVerbosity v).annotateClass parent node)
      ((a.atVerbosity w).annotateClass parent node) := by
  rw [annotateClass, annotateClass]
  split
  · exact .refl _
  · rename_i path _
    apply quieter_annotateMembers
    · intro x hx
      obtain ⟨name, hname⟩ := hnames x hx
      exact quieter_annotateClassMember hvw hname path
    · exact fun t => .refl _

/-- A member of a module whose own members have names. -/
theorem quieter_annotateMember (hvw : v ≤ w) {name : Json}
    (hname : node.field? (lit "name") = some name)
    (hnames : ∀ x, node.IsMember x → ∃ name, x.field? (lit "name") = some name)
    (moduleName : Json) :
    Quieter ((a.atVerbosity v).annotateMember moduleName node)
      ((a.atVerbosity w).annotateMember moduleName node) := by
  rw [annotateMember, annotateMember]
  split
  · exact .refl _
  · split
    · exact quieter_annotateClass hvw hnames moduleName
    · split
      · exact .refl _
      · split
        · exact quieter_annotateFunction hvw _ _
        · split
          · exact .refl _
          · exact .step (muted_ignoreMember hvw hname _ _)

/-! ## Modules -/

/-- A module is prepared in the same way at every verbosity. -/
theorem prepare_atVerbosity (config data : Json) (v : Int) :
    prepare config v data =
      (fun t => (t.1, t.2.atVerbosity v)) <$> prepare config 0 data := by
  have hconfig (c : Json) : ofConfig c v data = (·.atVerbosity v) <$> ofConfig c 0 data := by
    simp only [ofConfig, map_bind, map_pure]
    rfl
  simp only [prepare, map_bind, hconfig, bind_map_left]
  refine bind_congr fun type => ?_
  split <;> simp only [map_bind, map_pure]

theorem muted_listTypes (hvw : v ≤ w) (data : Json) :
    Muted ((a.atVerbosity v).listTypes data) ((a.atVerbosity w).listTypes data) := by
  rw [listTypes_eq, listTypes_eq]
  exact ⟨rfl, .message_of_imp (fun hv => Int.le_trans hv hvw) _⟩

/-- The members of a skeleton in step, and what follows them too: the report looks at nothing but the
overrides that were used. -/
theorem quieter_annotate (hvw : v ≤ w) {data : Json}
    (hnames : ∀ x, Relation.TransGen Json.IsMember data x →
      ∃ name, x.field? (lit "name") = some name) (config : Json) :
    Quieter (annotate config v data) (annotate config w data) := by
  rw [annotate, annotate, prepare_atVerbosity config data v, prepare_atVerbosity config data w]
  cases prepare config 0 data with
  | error e => exact .refl _
  | ok prepared =>
      obtain ⟨moduleName, a⟩ := prepared
      have hmembers : Quieter (annotateMembers ((a.atVerbosity v).annotateMember moduleName) data)
          (annotateMembers ((a.atVerbosity w).annotateMember moduleName) data) := by
        apply quieter_annotateMembers
        · intro x hx
          obtain ⟨name, hname⟩ := hnames x (.single hx)
          exact quieter_annotateMember hvw hname (fun y hy => hnames y (.tail (.single hx) hy)) _
        · exact fun t => .refl _
      refine Quieter.run (.cons (fun d => .step (muted_listTypes hvw d))
        (.cons (fun _ => hmembers) (.cons (fun d => ?_) .nil))) data
      -- the same overrides were used, so the reports are the same
      rw [hmembers.log.used]
      exact .refl _

/-- **Verbosity is for messages.** Of two annotations of a skeleton whose members have names and types,
the one with the lower verbosity ends in the same way as the other one and leaves the same data, and
what it prints is printed by the other one too, in the same order. On a console that refuses some lines
the run at the higher verbosity completes exactly if the other one does and none of its own lines is
refused; it gives the same data then, and where none of its lines is refused the two runs end in the
same way. -/
theorem annotate_verbosity {data : Json} (hdata : ∀ x, Relation.TransGen Json.IsMember data x →
      (∃ name, x.field? (lit "name") = some (.str name)) ∧
        ∃ type, x.field? (lit "type") = some (.str type))
    (hvw : v ≤ w) (config : Json) :
    (annotate config v data).failure = (annotate config w data).failure ∧
    (annotate config v data).value = (annotate config w data).value ∧
    (printed (annotate config v data)).Sublist (printed (annotate config w data)) ∧
    ∀ console : Console,
      (∀ d, (run console config w data).result = .ok d ↔ (run console config v data).result = .ok d ∧
        ∀ line ∈ printed (annotate config w data), console.takes line = true) ∧
      ((∀ line ∈ printed (annotate config w data), console.takes line = true) →
        (run console config v data).result = (run console config w data).result ∧
        (run console config v data).log.Sublist (run console config w data).log) := by
  have hquieter : Quieter (annotate config v data) (annotate config w data) := by
    apply quieter_annotate hvw
    intro x hx
    obtain ⟨⟨name, hname⟩, -⟩ := hdata x hx
    exact ⟨.str name, hname⟩
  have hprinted : (printed (annotate config v data)).Sublist (printed (annotate config w data)) :=
    hquieter.log.sublist.filterMap _
  have hresult : (annotate config v data).result = (annotate config w data).result := by
    rw [Progress.result, Progress.result, hquieter.failure, hquieter.value]
  refine ⟨hquieter.failure, hquieter.value, hprinted, fun console => ?_⟩
  refine ⟨fun d => ?_, fun htakes => ?_⟩
  · simp only [run, Trace.result_stopAt_eq_ok, hresult, Console.refusal_eq_none_iff]
    exact ⟨fun h => ⟨⟨h.1, fun line hline => h.2 line (hprinted.subset hline)⟩, h.2⟩,
      fun h => ⟨h.1.1, h.2⟩⟩
  · rw [run_of_takes htakes, run_of_takes fun line hline => htakes line (hprinted.subset hline)]
    exact ⟨hresult, hprinted⟩

/-- A class with a member that is not looked at, before a function whose arguments have one name. -/
def countModule : Json :=
  .object [(lit "name", .str (lit "Ext")), (lit "type", .str (lit "module")), (lit "members", .list
    [.object [(lit "name", .str (lit "CyCity")), (lit "type", .str (lit "class")),
      (lit "members", .list
        [.object [(lit "name", .str (lit "size")), (lit "type", .str (lit "int"))]])],
     .object [(lit "name", .str (lit "count")), (lit "type", .str (lit "function")),
      (lit "doc", .str (lit "int (x, x)"))]])]

/-- An override for no function of the module. -/
def countConfig : Json :=
  .object [(lit "sig-overrides", .list
    [.object [(lit "path", .str (lit "Ext.size")), (lit "signature", .str (lit "void ()"))]])]

theorem annotate_verbosity_count :
    (annotate countConfig 0 countModule).failure = (annotate countConfig 2 countModule).failure ∧
    (annotate countConfig 0 countModule).value = (annotate countConfig 2 countModule).value ∧
    (printed (annotate countConfig 0 countModule)).Sublist
      (printed (annotate countConfig 2 countModule)) ∧
    (printed (annotate countConfig 0 countModule)).length = 1 ∧
    (printed (annotate countConfig 2 countModule)).length = 4 ∧
    (run .utf8 countConfig 0 countModule).result = (run .utf8 countConfig 2 countModule).result := by
  have hskeleton : Skeleton (fun _ => False) countModule := by
    refine .node rfl rfl nofun nofun rfl
      (List.forall_mem_cons.2 ⟨?_, List.forall_mem_cons.2 ⟨?_, nofun⟩⟩)
    · exact .node rfl rfl nofun nofun rfl
        (List.forall_mem_cons.2 ⟨.node rfl rfl nofun nofun rfl nofun, nofun⟩)
    · exact .node rfl rfl (fun _ h => ⟨_, (Option.some.inj h).symm⟩) nofun rfl nofun
  have hdata : ∀ x, Relation.TransGen Json.IsMember countModule x →
      (∃ name, x.field? (lit "name") = some (.str name)) ∧
        ∃ type, x.field? (lit "type") = some (.str type) := by
    intro x hx
    obtain ⟨hname, htype, -⟩ := Skeleton.iff_fields.1 (hskeleton.of_below hx.to_reflTransGen)
    exact ⟨hname, htype⟩
  obtain ⟨hfailure, hvalue, hprinted, hconsole⟩ :=
    annotate_verbosity hdata (by decide : (0 : Int) ≤ 2) countConfig
  exact ⟨hfailure, hvalue, hprinted, by decide +kernel, by decide +kernel,
    ((hconsole .utf8).2 (by decide +kernel)).1⟩

/-- A console of UTF-8 refuses the line about a member whose name has a surrogate, which is printed from
verbosity one on. -/
example :
    let data : Json := .object [(lit "name", .str (lit "Ext")), (lit "type", .str (lit "module")),
      (lit "members", .list [.object [(lit "name", .str [CodePoint.ofNat 0xD800]),
        (lit "type", .str (lit "odd"))]])]
    (run .utf8 .null 0 data).result = .ok data ∧ (run .utf8 .null 1 data).result =
      .error (.unencodable (lit "Ignoring member Ext." ++ [CodePoint.ofNat 0xD800] ++
        lit " of unknown type 'odd'")) := by
  decide +kernel

end Annotator

end ModuleStubs
