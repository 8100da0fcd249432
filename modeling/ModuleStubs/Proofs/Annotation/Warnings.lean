import ModuleStubs.Proofs.Annotation.Completed
import ModuleStubs.Proofs.Signature.Positions

/-!
# Warnings about overrides

The messages of an annotation that say that an override was not used are those of the report at its
end, and no others (`unusedWarnings_annotate`): such a warning ends in an exclamation mark, which no
message about a signature does (`Remark`, `remark_of_mem_readJson`), and the other messages start in
another way. The report itself looks at nothing but which overrides were used (`unusedReport_congr`).
-/

set_option autoImplicit false

namespace ModuleStubs

/-- A message that an override was not used. -/
def Text.isUnusedWarning (message : Text) : Bool :=
  Text.startsWith message (lit "WARNING: signature override ") &&
    Text.endsWith message (lit " unused!")

/-- A note that an override was not used. -/
def Note.isUnusedWarning : Note → Bool
  | .message m => m.isUnusedWarning
  | .used _ => false

/-- A message with an exclamation mark at its end. -/
def Text.exclaims (message : Text) : Bool := message.getLast? == some (CodePoint.ofChar '!')

theorem Text.exclaims_append {t : Text} (s : Text) (ht : t ≠ []) :
    Text.exclaims (s ++ t) = Text.exclaims t := by
  rw [exclaims, exclaims, List.getLast?_append, List.getLast?_eq_some_getLast ht, Option.some_or]

theorem Text.isUnusedWarning_of_not_exclaims {m : Text} (h : m.exclaims = false) :
    m.isUnusedWarning = false := by
  rw [isUnusedWarning, Bool.and_eq_false_iff]
  refine .inr (Bool.eq_false_iff.2 fun hend => ?_)
  obtain ⟨before, rfl⟩ := List.isSuffixOf_iff_suffix.1 hend
  rw [exclaims_append before (by decide)] at h
  exact absurd h (by decide)

namespace Signature

variable {verbosity : Int} {ctx : TypeContext} {path shown text : Text}

/-! ## Messages about signatures -/

/-- A message as reading a signature gives it: one that is not printed below verbosity one, with
something else than an exclamation mark at its end. -/
structure Remark (verbosity : Int) (message : Text) : Prop where
  loud : 1 ≤ verbosity
  calm : message.exclaims = false

theorem remark_of_mem_sayFrom {message : Text} {level : Int} (hlevel : 1 ≤ level)
    (h : message.exclaims = false) :
    ∀ m ∈ (sayFrom level verbosity message).log, Remark verbosity m := by
  rw [sayFrom_eq]
  split
  · rename_i hloud
    simpa using ⟨by omega, h⟩
  · simp

theorem exclaims_complaint (what : Text) {reason : Text} (h : reason ≠ []) :
    (complaint path what text reason).exclaims = reason.exclaims :=
  Text.exclaims_append _ h

theorem remark_of_mem_oneWordArgument {index : Int} :
    ∀ m ∈ (oneWordArgument verbosity ctx path text index).log, Remark verbosity m := by
  refine Trace.forall_mem_log_bind (by simp) fun types => ?_
  obtain ⟨main, alternative⟩ := types
  dsimp only
  split
  · simp
  · split
    · simp
    · refine Trace.forall_mem_log_bind (remark_of_mem_sayFrom (by decide) ?_) (by simp)
      rw [exclaims_complaint _ (by decide)]
      decide

theorem remark_of_mem_namedArgument {index : Int} :
    ∀ m ∈ (namedArgument verbosity ctx path text index).log, Remark verbosity m := by
  -- whatever a complaint quotes, it goes on after the quote
  have hreason (quoted : Text) (opening : Text) :
      (opening ++ quoted ++ lit "' not valid").exclaims = false := by
    rw [Text.exclaims_append _ (by decide)]
    decide
  have hne (quoted : Text) (opening : Text) : opening ++ quoted ++ lit "' not valid" ≠ [] :=
    List.append_ne_nil_of_right_ne_nil _ (by decide)
  rw [namedArgument]
  generalize (Text.cutLast ' ' text).getD (text, []) = parts
  obtain ⟨before, after⟩ := parts
  refine Trace.forall_mem_log_bind (by simp) fun types => ?_
  obtain ⟨main, alternative⟩ := types
  dsimp only
  split
  · refine Trace.forall_mem_log_bind (remark_of_mem_sayFrom (by decide) ?_) (by simp)
    rw [exclaims_complaint _ (hne _ _), hreason]
  · split
    · simp
    · refine Trace.forall_mem_log_bind (remark_of_mem_sayFrom (by decide) ?_) (by simp)
      rw [exclaims_complaint _ (hne _ _), hreason]

theorem remark_of_mem_readArgument {index : Int} :
    ∀ m ∈ (readArgument verbosity ctx path text index).log, Remark verbosity m := by
  rw [readArgument]
  dsimp only
  split
  · exact remark_of_mem_oneWordArgument
  · refine Trace.forall_mem_log_bind (by simp) fun types => ?_
    obtain ⟨main, alternative⟩ := types
    dsimp only
    split
    · simp
    · exact remark_of_mem_namedArgument

/-- The name of an argument is an identifier, which has no exclamation mark. -/
theorem isIdentifier_name_of_readArgument {index : Nat} {arg : Argument}
    (h : (readArgument verbosity ctx path text index).result = .ok (some arg)) :
    isIdentifier arg.name = true := by
  cases argumentOf_readArgument h with
  | word hword htypes hsure hname => exact hname
  | type | annotated | named => exact isIdentifier_argumentName index

theorem not_exclaims_of_isIdentifier {name : Text} (h : isIdentifier name = true) :
    name.exclaims = false := by
  refine Bool.eq_false_iff.2 fun hlast => ?_
  exact not_mem_of_isIdentifier h (c := '!') (by decide)
    (List.mem_of_getLast? (beq_iff_eq.1 hlast))

theorem remark_of_mem_readArguments : ∀ (index : Nat) (seen texts : List Text),
    ∀ m ∈ (readArguments verbosity ctx path shown index seen texts).log, Remark verbosity m
  | _, _, [] => by simp [readArguments]
  | index, seen, t :: ts => by
      rw [readArguments]
      refine Trace.forall_mem_log_bind_ok remark_of_mem_readArgument fun argument hread => ?_
      cases argument with
      | none => simp
      | some a =>
          have hname := isIdentifier_name_of_readArgument hread
          -- the complaint about a repeated name may come before the rest
          have hrest : ∀ m ∈ (do
              let rest ← readArguments verbosity ctx path shown (index + 1) (a.name :: seen) ts
              return rest.map (a :: ·) : Reading (Option (List Argument))).log,
              Remark verbosity m :=
            Trace.forall_mem_log_bind (remark_of_mem_readArguments _ _ ts) (by simp)
          dsimp only
          split
          · refine Trace.forall_mem_log_bind (remark_of_mem_sayFrom (by decide) ?_) fun _ => hrest
            rw [Text.exclaims_append _ (ne_nil_of_isIdentifier hname)]
            exact not_exclaims_of_isIdentifier hname
          · exact hrest

theorem remark_of_mem_readReturned {returnText : Text} :
    ∀ m ∈ (readReturned verbosity ctx path shown returnText).log, Remark verbosity m := by
  rw [readReturned]
  split
  · simp
  · refine Trace.forall_mem_log_bind (by simp) fun types => ?_
    obtain ⟨main, alternative⟩ := types
    cases main with
    | none =>
        refine Trace.forall_mem_log_bind (remark_of_mem_sayFrom (by decide) ?_) (by simp)
        rw [exclaims_complaint _ (List.append_ne_nil_of_right_ne_nil _ (by decide)),
          Text.exclaims_append _ (by decide)]
        decide
    | some m => simp

/-- Every message about a signature is a remark. -/
theorem remark_of_mem_readJson {v : Json} :
    ∀ m ∈ (readJson verbosity ctx path v).log, Remark verbosity m := by
  refine Trace.forall_mem_log_bind (by simp) fun split => ?_
  cases split with
  | none =>
      refine Trace.forall_mem_log_bind (remark_of_mem_sayFrom (by decide) ?_) (by simp)
      rw [exclaims_complaint _ (by decide)]
      decide
  | some parts =>
      obtain ⟨first, second⟩ := parts
      rw [readSplit, readParts_eq]
      refine Trace.forall_mem_log_bind remark_of_mem_readReturned fun returned => ?_
      cases returned with
      | none => simp
      | some types =>
          exact Trace.forall_mem_log_bind (remark_of_mem_readArguments _ _ _) (by simp)

end Signature

namespace Annotator

variable {a : Annotator} {path : Text} {node : Json} {verbosity : Int}

/-! ## Notes about members -/

theorem not_unused_of_mem_readSignature {v : Json} :
    ∀ e ∈ (a.readSignature path v).log, e.isUnusedWarning = false := by
  intro e he
  obtain ⟨m, hm, rfl⟩ := List.mem_map.1 he
  exact Text.isUnusedWarning_of_not_exclaims (Signature.remark_of_mem_readJson m hm).calm

theorem not_unused_of_mem_annotateFromDoc :
    ∀ e ∈ (a.annotateFromDoc path node).log, e.isUnusedWarning = false := by
  rw [annotateFromDoc]
  cases node.field? (lit "doc") with
  | none => simp
  | some doc =>
      refine Trace.forall_mem_log_bind ?_ fun read => ?_
      · refine Trace.forall_mem_log_bind (by simp) fun hyphen => ?_
        split
        · exact Trace.forall_mem_log_bind (by simp) fun _ =>
            Trace.forall_mem_log_bind not_unused_of_mem_readSignature (by simp)
        · exact Trace.forall_mem_log_bind not_unused_of_mem_readSignature (by simp)
      · cases read <;> simp

/-- The message about an override that gives no signature is told apart by its first letter. -/
theorem isUnusedWarning_invalidSignature (o : SignatureOverride) (candidate : Json) :
    (invalidSignature o candidate).isUnusedWarning = false := by
  rfl

theorem not_unused_of_mem_annotateFromOverride {o : SignatureOverride} {index : Nat} :
    ∀ e ∈ (a.annotateFromOverride path o index node).log, e.isUnusedWarning = false := by
  refine Trace.forall_mem_log_bind (by simp) fun found => ?_
  cases found with
  | none => simp
  | some candidate =>
      refine Trace.forall_mem_log_bind (by simp) fun _ => ?_
      refine Trace.forall_mem_log_bind (by simp [Note.isUnusedWarning]) fun _ => ?_
      refine Trace.forall_mem_log_bind not_unused_of_mem_readSignature fun read => ?_
      cases read with
      | none => simp [Note.isUnusedWarning, isUnusedWarning_invalidSignature]
      | some s => simp

theorem not_unused_of_mem_annotateFunction {parent : Json} :
    ∀ e ∈ (a.annotateFunction parent node).log, e.isUnusedWarning = false := by
  rw [annotateFunction]
  split
  · simp [Progress.stopped]
  · refine Progress.forall_mem_log_run ?_ node
    intro change hchange n
    rcases List.mem_cons.1 hchange with rfl | hchange
    · exact Progress.forall_mem_log_step not_unused_of_mem_annotateFromDoc
    · obtain ⟨i, hi, rfl⟩ := List.mem_mapIdx.1 hchange
      exact Progress.forall_mem_log_step not_unused_of_mem_annotateFromOverride

theorem not_unused_of_mem_annotateMembers {change : Change}
    (h : ∀ n, ∀ e ∈ (change n).log, e.isUnusedWarning = false) :
    ∀ e ∈ (annotateMembers change node).log, e.isUnusedWarning = false := by
  rw [annotateMembers]
  split
  · simp [Progress.stopped]
  · exact Progress.forall_mem_log_walk h _
  · split
    · simp [Progress.stopped]
    · exact Progress.forall_mem_log_walk h _

theorem not_unused_of_mem_ignoreMember {parent : Text} {type : Json} :
    ∀ e ∈ (Progress.step (ignoreMember verbosity parent type) node).log,
      e.isUnusedWarning = false := by
  refine Progress.forall_mem_log_step ?_
  rw [ignoreMember]
  split
  · simp
  · refine Trace.forall_mem_log_bind (by simp) fun name => ?_
    rintro e (_ | ⟨_, ⟨⟩⟩)
    rfl

theorem not_unused_of_mem_shortenType {moduleName : Json} :
    ∀ e ∈ (Progress.step (shortenType moduleName) node).log, e.isUnusedWarning = false := by
  refine Progress.forall_mem_log_step (Trace.forall_mem_log_bind (by simp) fun type => ?_)
  refine Trace.forall_mem_log_bind (by simp) fun name => ?_
  split <;> simp

theorem not_unused_of_mem_annotateClassMember :
    ∀ e ∈ (a.annotateClassMember path node).log, e.isUnusedWarning = false := by
  rw [annotateClassMember]
  split
  · simp [Progress.stopped]
  · split
    · exact not_unused_of_mem_annotateFunction
    · split
      · simp [Progress.done]
      · exact not_unused_of_mem_ignoreMember

/-- No note about a member says that an override was not used. -/
theorem not_unused_of_mem_annotateMember {name : Json} :
    ∀ e ∈ (a.annotateMember name node).log, e.isUnusedWarning = false := by
  rw [annotateMember]
  split
  · simp [Progress.stopped]
  · split
    · rw [annotateClass]
      split
      · simp [Progress.stopped]
      · exact not_unused_of_mem_annotateMembers fun n => not_unused_of_mem_annotateClassMember
    · split
      · exact not_unused_of_mem_annotateMembers fun n => not_unused_of_mem_shortenType
      · split
        · exact not_unused_of_mem_annotateFunction
        · split
          · simp [Progress.done]
          · exact not_unused_of_mem_ignoreMember

/-! ## The report -/

theorem mem_messages {m : Text} {notes : List Note} :
    m ∈ Note.messages notes ↔ .message m ∈ notes := by
  simp only [Note.messages, List.mem_filterMap]
  constructor
  · rintro ⟨note, hnote, heq⟩
    cases note with
    | message m' =>
        obtain rfl := Option.some.inj heq
        exact hnote
    | used i => simp at heq
  · exact fun h => ⟨_, h, rfl⟩

theorem isUnusedWarning_unusedOverride (o : SignatureOverride) :
    (unusedOverride o).isUnusedWarning = true := by
  refine Bool.and_eq_true_iff.2 ⟨?_, List.isSuffixOf_iff_suffix.2 ⟨_, rfl⟩⟩
  exact List.isPrefixOf_iff_prefix.2 ⟨o.literal ++ lit " unused!", (List.append_assoc _ _ _).symm⟩

/-- The report has nothing but warnings about overrides. -/
theorem isUnusedWarning_of_mem_reportUnused (used : List Nat) : ∀ (os : List SignatureOverride)
    (i : Nat), ∀ e ∈ (reportUnused used i os).log, e.isUnusedWarning = true
  | [], _ => by simp [reportUnused]
  | o :: os, i => by
      rw [reportUnused]
      refine Trace.forall_mem_log_bind (by simp) fun _ => ?_
      split
      · refine Trace.forall_mem_log_bind ?_ fun _ => isUnusedWarning_of_mem_reportUnused used os _
        simp [Note.isUnusedWarning, isUnusedWarning_unusedOverride]
      · exact isUnusedWarning_of_mem_reportUnused used os _

theorem reportUnused_congr {used used' : List Nat} (h : ∀ i, i ∈ used ↔ i ∈ used') :
    ∀ (os : List SignatureOverride) (i : Nat), reportUnused used i os = reportUnused used' i os
  | [], _ => rfl
  | o :: os, i => by
      have hcontains : used.contains i = used'.contains i := by
        rw [Bool.eq_iff_iff, List.contains_iff_mem, List.contains_iff_mem]
        exact h i
      rw [reportUnused, reportUnused, hcontains, reportUnused_congr h os]

/-- The report looks at nothing but which overrides were used. -/
theorem unusedReport_congr {notes notes' : List Note} (h : notes.Perm notes') :
    a.unusedReport notes = a.unusedReport notes' :=
  reportUnused_congr (fun _ => (h.filterMap _).mem_iff) _ _

/-- The warnings about overrides in the log of an annotation. -/
def unusedWarnings (p : Progress Note Fault Json) : List Text :=
  (Note.messages p.log).filter Text.isUnusedWarning

/-- The messages before the report: the known types, and those about members. -/
def messagesBefore (a : Annotator) (data name : Json) : List Text :=
  (if 2 ≤ a.verbosity then [knownTypes a.context] else []) ++
    Note.messages (a.annotatedMembers data name).log

theorem messages_annotate {config data name : Json}
    (hprep : prepare config verbosity data = .ok (name, a))
    (hmembers : (a.annotatedMembers data name).failure = none)
    (hreport : (a.unusedReport (a.annotatedMembers data name).log).result = .ok ()) :
    Note.messages (annotate config verbosity data).log = a.messagesBefore data name ++
      Note.messages (a.unusedReport (a.annotatedMembers data name).log).log := by
  rw [annotate_eq hprep hmembers hreport, messagesBefore]
  by_cases hloud : 2 ≤ a.verbosity <;> simp [Note.messages, hloud]

theorem not_unused_of_mem_messagesBefore {data name : Json} :
    ∀ m ∈ a.messagesBefore data name, m.isUnusedWarning = false := by
  intro m hm
  rcases List.mem_append.1 hm with hm | hm
  · split at hm
    · obtain rfl := List.mem_singleton.1 hm
      rfl
    · cases hm
  · exact not_unused_of_mem_annotateMembers (fun n => not_unused_of_mem_annotateMember) _
      (mem_messages.1 hm)

/-- The warnings about overrides are those of the report. -/
theorem unusedWarnings_annotate {config data name : Json}
    (hprep : prepare config verbosity data = .ok (name, a))
    (hmembers : (a.annotatedMembers data name).failure = none)
    (hreport : (a.unusedReport (a.annotatedMembers data name).log).result = .ok ()) :
    unusedWarnings (annotate config verbosity data) =
      Note.messages (a.unusedReport (a.annotatedMembers data name).log).log := by
  have hbefore : (a.messagesBefore data name).filter Text.isUnusedWarning = [] :=
    List.filter_eq_nil_iff.2 fun m hm => by simp [not_unused_of_mem_messagesBefore m hm]
  have hall : (Note.messages (a.unusedReport (a.annotatedMembers data name).log).log).filter
      Text.isUnusedWarning =
      Note.messages (a.unusedReport (a.annotatedMembers data name).log).log :=
    List.filter_eq_self.2 fun m hm =>
      isUnusedWarning_of_mem_reportUnused _ _ _ _ (mem_messages.1 hm)
  rw [unusedWarnings, messages_annotate hprep hmembers hreport, List.filter_append, hbefore, hall,
    List.nil_append]

end Annotator

end ModuleStubs
