import ModuleStubs.Proofs.Stub.Bodies
import ModuleStubs.Proofs.Text.Cut

/-!
# Where docstrings end

A docstring is opened by three quotes and ends at the next three (`Text.cutAt`). The writer puts docs between
such quotes as they are, with blanks around them. Each of these blanks parts the quotes of the doc from those
of the docstring (`cutAt_guarded`), so that a doc without three quotes in a row is read up to its end. Any other
doc ends its docstring at its own first quotes, and what is left of it is read as code
(`docstring_closed_iff`).
-/

set_option autoImplicit false

namespace ModuleStubs

namespace Text

/-- The part of a text before the first place where a mark stands, and the part behind the mark. -/
def cutAt (mark : Text) : Text → Option (Text × Text)
  | [] => (afterPrefix? mark []).map fun rest => ([], rest)
  | c :: t =>
    match afterPrefix? mark (c :: t) with
    | some rest => some ([], rest)
    | none => (cutAt mark t).map fun (a, b) => (c :: a, b)

theorem afterPrefix?_eq_none {mark t : Text} : afterPrefix? mark t = none ↔ ¬mark <+: t := by
  rw [← Option.not_isSome_iff_eq_none, Option.isSome_iff_exists]
  exact not_congr ⟨fun ⟨rest, h⟩ => ⟨rest, (afterPrefix?_eq_some.1 h).symm⟩,
    fun ⟨rest, h⟩ => ⟨rest, afterPrefix?_eq_some.2 h.symm⟩⟩

/-- A text that a mark does not occur in is not cut. -/
theorem cutAt_eq_none_iff {mark t : Text} : cutAt mark t = none ↔ ¬mark <:+: t := by
  induction t with
  | nil => rw [cutAt, Option.map_eq_none_iff, afterPrefix?_eq_none, List.prefix_nil, List.infix_nil]
  | cons c t ih =>
      rw [cutAt, List.infix_cons_iff, not_or, ← ih, ← afterPrefix?_eq_none]
      cases afterPrefix? mark (c :: t) with
      | some rest => simp
      | none => simp

/-- A cut loses the mark only, and the mark does not stand before. -/
theorem cutAt_eq_some {mark t a b : Text} (h : cutAt mark t = some (a, b)) :
    t = a ++ (mark ++ b) ∧ ∀ a' b', t = a' ++ (mark ++ b') → a.length ≤ a'.length := by
  induction t generalizing a with
  | nil =>
      obtain ⟨rest, hrest, heq⟩ := Option.map_eq_some_iff.1 h
      obtain ⟨rfl, rfl⟩ := Prod.mk.inj heq
      have hsplit := afterPrefix?_eq_some.1 hrest
      exact ⟨hsplit, fun _ _ _ => Nat.zero_le _⟩
  | cons c t ih =>
      rw [cutAt] at h
      cases hmark : afterPrefix? mark (c :: t) with
      | some rest =>
          rw [hmark] at h
          obtain ⟨rfl, rfl⟩ := Prod.mk.inj (Option.some.inj h)
          have hsplit := afterPrefix?_eq_some.1 hmark
          exact ⟨hsplit, fun _ _ _ => Nat.zero_le _⟩
      | none =>
          rw [hmark] at h
          obtain ⟨⟨a₀, b₀⟩, hcut, heq⟩ := Option.map_eq_some_iff.1 h
          obtain ⟨rfl, rfl⟩ := Prod.mk.inj heq
          obtain ⟨rfl, hfirst⟩ := ih hcut
          refine ⟨rfl, ?_⟩
          intro a' b' heq
          cases a' with
          -- the mark does not stand right at the start
          | nil => exact absurd ⟨b', heq.symm⟩ (afterPrefix?_eq_none.1 hmark)
          | cons d a' => exact Nat.succ_le_succ (hfirst a' b' (List.cons.inj heq).2)

/-! ## Code points that a mark lacks -/

section Guard

variable {mark : Text} {g : CodePoint}

theorem afterPrefix?_append_guard (hg : g ∉ mark) (t rest : Text) :
    afterPrefix? mark (t ++ g :: rest) = (afterPrefix? mark t).map (· ++ g :: rest) := by
  induction mark generalizing t with
  | nil => rfl
  | cons m mark ih =>
      have hne : m ≠ g := fun h => hg (h ▸ List.mem_cons_self)
      cases t with
      | nil => simp [afterPrefix?, hne]
      | cons c t =>
          rw [List.cons_append, afterPrefix?, afterPrefix?]
          split
          · exact ih (fun h => hg (List.mem_cons_of_mem m h)) t
          · rfl

/-- Behind a code point that a mark lacks nothing counts for a cut before it. -/
theorem cutAt_append_guard_of_some (hg : g ∉ mark) {t a b : Text} (h : cutAt mark t = some (a, b))
    (rest : Text) : cutAt mark (t ++ g :: rest) = some (a, b ++ g :: rest) := by
  induction t generalizing a with
  | nil =>
      obtain ⟨after, hafter, heq⟩ := Option.map_eq_some_iff.1 h
      obtain ⟨rfl, rfl⟩ := Prod.mk.inj heq
      rw [List.nil_append, cutAt, ← List.nil_append (g :: rest), afterPrefix?_append_guard hg, hafter]
      rfl
  | cons c t ih =>
      rw [cutAt] at h
      rw [List.cons_append, cutAt, ← List.cons_append, afterPrefix?_append_guard hg]
      cases hmark : afterPrefix? mark (c :: t) with
      | some after =>
          rw [hmark] at h
          obtain ⟨rfl, rfl⟩ := Prod.mk.inj (Option.some.inj h)
          rfl
      | none =>
          rw [hmark] at h
          obtain ⟨⟨a₀, b₀⟩, hcut, heq⟩ := Option.map_eq_some_iff.1 h
          obtain ⟨rfl, rfl⟩ := Prod.mk.inj heq
          rw [Option.map_none, ih hcut]
          rfl

/-- If the mark does not stand before it, the text behind it is cut. -/
theorem cutAt_append_guard_of_none (hg : g ∉ mark) {t : Text} (h : cutAt mark t = none) (rest : Text) :
    cutAt mark (t ++ g :: rest) = (cutAt mark rest).map fun (a, b) => (t ++ g :: a, b) := by
  induction t with
  | nil =>
      have hmark : afterPrefix? mark [] = none := Option.map_eq_none_iff.1 h
      rw [List.nil_append, cutAt, ← List.nil_append (g :: rest), afterPrefix?_append_guard hg, hmark]
      rfl
  | cons c t ih =>
      rw [cutAt_eq_none_iff, List.infix_cons_iff, not_or, ← afterPrefix?_eq_none, ← cutAt_eq_none_iff] at h
      rw [List.cons_append, cutAt, ← List.cons_append, afterPrefix?_append_guard hg, h.1, Option.map_none,
        ih h.2, Option.map_map]
      rfl

theorem cutAt_mark (hne : mark ≠ []) (rest : Text) : cutAt mark (mark ++ rest) = some ([], rest) := by
  have hmark : afterPrefix? mark (mark ++ rest) = some rest := afterPrefix?_eq_some.2 rfl
  cases mark with
  | nil => contradiction
  | cons m mark =>
      rw [List.cons_append] at hmark ⊢
      rw [cutAt, hmark]

/-- **A text between two code points that the mark lacks.** What stands between them is cut at its own first
mark, or else at the mark behind it. -/
theorem cutAt_guarded (hne : mark ≠ []) {h : CodePoint} (hg : g ∉ mark) (hh : h ∉ mark) {front : Text}
    (hfront : cutAt mark front = none) (t back : Text) :
    (cutAt mark t = none → cutAt mark (front ++ g :: (t ++ h :: (mark ++ back))) =
      some (front ++ g :: (t ++ [h]), back)) ∧
    ∀ a b, cutAt mark t = some (a, b) → cutAt mark (front ++ g :: (t ++ h :: (mark ++ back))) =
      some (front ++ g :: a, b ++ h :: (mark ++ back)) := by
  rw [cutAt_append_guard_of_none hg hfront]
  constructor
  · intro hnone
    rw [cutAt_append_guard_of_none hh hnone, cutAt_mark hne]
    rfl
  · intro a b hsome
    rw [cutAt_append_guard_of_some hh hsome]
    rfl

end Guard

end Text

namespace Stub

/-! ## Docstrings as texts -/

/-- What opens and closes a docstring. -/
def quotes : Text := lit "\"\"\""

/-- What stands between the quotes of a class or a function. -/
def docPart (doc : Json) : Text := lit " " ++ (doc.display ++ lit " ")

/-- What stands between the quotes at the head of a file. -/
def headPart (name doc : Json) : Text :=
  (lit "\n" ++ (name.display ++ lit "\n")) ++ (lit "\n" ++ (doc.display ++ lit "\n"))

/-- Read from behind its opening quotes, a docstring ends at its closing quotes, behind which the file goes
on. -/
def IsClosed (part back : Text) : Prop := Text.cutAt quotes (part ++ (quotes ++ back)) = some (part, back)

theorem docLine_eq (indent : Text) (doc : Json) :
    docLine indent doc = indent ++ tab ++ (quotes ++ (docPart doc ++ (quotes ++ lit "\n"))) := by
  simp only [docLine, docPart, List.append_assoc]
  rfl

theorem moduleHead_eq (name doc : Json) :
    moduleHead name doc = quotes ++ (headPart name doc ++ (quotes ++ lit "\n")) := by
  simp only [moduleHead, headPart, List.append_assoc]
  rfl

theorem not_mem_quotes {c : Char} (hc : c ≠ '"') : CodePoint.ofChar c ∉ quotes := by
  have hquotes : quotes = List.replicate 3 (CodePoint.ofChar '"') := rfl
  rw [hquotes, List.mem_replicate, CodePoint.ofChar_inj]
  exact fun h => hc h.2

/-- A docstring that is cut inside one of its texts is not closed. -/
theorem not_isClosed {t a b part read rest back : Text} {n : Nat}
    (hcut : Text.cutAt quotes t = some (a, b))
    (hread : Text.cutAt quotes (part ++ (quotes ++ back)) = some (read, rest))
    (hlong : read.length = n + a.length) (hpart : n + t.length ≤ part.length) : ¬IsClosed part back := by
  intro hclosed
  rw [IsClosed, hread] at hclosed
  have hlength := congrArg List.length (Prod.mk.inj (Option.some.inj hclosed)).1
  have ht := congrArg List.length (Text.cutAt_eq_some hcut).1
  have hthree : quotes.length = 3 := rfl
  simp only [List.length_append] at hlength ht
  omega

/-- The docstring of a class or a function ends at the first quotes of the doc, or at its own. -/
theorem cutAt_docPart (doc : Json) (back : Text) :
    (IsClosed (docPart doc) back ↔ ¬quotes <:+: doc.display) ∧
    ∀ a b, Text.cutAt quotes doc.display = some (a, b) →
      Text.cutAt quotes (docPart doc ++ (quotes ++ back)) =
        some (lit " " ++ a, b ++ (lit " " ++ (quotes ++ back))) := by
  have hblank := not_mem_quotes (c := ' ') (by decide)
  have hempty : Text.cutAt quotes [] = none := rfl
  obtain ⟨hkept, hcut⟩ := Text.cutAt_guarded (by decide) hblank hblank hempty doc.display back
  have heq : docPart doc ++ (quotes ++ back) =
      [] ++ CodePoint.ofChar ' ' :: (doc.display ++ CodePoint.ofChar ' ' :: (quotes ++ back)) := by
    simp [docPart, lit]
  rw [← heq] at hkept hcut
  refine ⟨?_, hcut⟩
  rw [← Text.cutAt_eq_none_iff]
  constructor
  · intro hclosed
    cases hdoc : Text.cutAt quotes doc.display with
    | none => rfl
    | some ab =>
        have hread := hcut ab.1 ab.2 hdoc
        rw [List.append_cons] at hread
        refine absurd hclosed (not_isClosed hdoc hread List.length_append ?_)
        simp [docPart, lit]
        omega
  · exact hkept

/-- The name at the head of a file stands between line feeds, so that it is cut at its own first quotes. -/
theorem cutAt_named (name : Json) (rest : Text) :
    (Text.cutAt quotes name.display = none → Text.cutAt quotes (lit "\n" ++ (name.display ++ lit "\n")) = none) ∧
    ∀ a b, Text.cutAt quotes name.display = some (a, b) →
      Text.cutAt quotes (lit "\n" ++ (name.display ++ lit "\n") ++ rest) =
        some (lit "\n" ++ a, b ++ (lit "\n" ++ rest)) := by
  have hfeed := not_mem_quotes (c := '\n') (by decide)
  have hstart : ∀ t, Text.cutAt quotes (lit "\n" ++ t) =
      (Text.cutAt quotes t).map fun (a, b) => (lit "\n" ++ a, b) :=
    Text.cutAt_append_guard_of_none hfeed (t := []) rfl
  constructor
  · intro hnone
    have hend := Text.cutAt_append_guard_of_none hfeed hnone []
    rw [hstart]
    exact Option.map_eq_none_iff.2 hend
  · intro a b hsome
    have hend := Text.cutAt_append_guard_of_some hfeed hsome rest
    rw [List.append_assoc, List.append_assoc, hstart]
    exact Option.map_eq_some_iff.2 ⟨_, hend, rfl⟩

/-- The docstring at the head of a file ends at the first quotes of the name or of the doc, or at its own. -/
theorem cutAt_headPart (name doc : Json) (back : Text) :
    (IsClosed (headPart name doc) back ↔ ¬quotes <:+: name.display ∧ ¬quotes <:+: doc.display) ∧
    (∀ a b, Text.cutAt quotes name.display = some (a, b) →
      Text.cutAt quotes (headPart name doc ++ (quotes ++ back)) =
        some (lit "\n" ++ a, b ++ (lit "\n\n" ++ (doc.display ++ (lit "\n" ++ (quotes ++ back)))))) ∧
    ∀ a b, Text.cutAt quotes name.display = none → Text.cutAt quotes doc.display = some (a, b) →
      Text.cutAt quotes (headPart name doc ++ (quotes ++ back)) =
        some (lit "\n" ++ (name.display ++ lit "\n") ++ (lit "\n" ++ a),
          b ++ (lit "\n" ++ (quotes ++ back))) := by
  have hfeed := not_mem_quotes (c := '\n') (by decide)
  have heq : headPart name doc ++ (quotes ++ back) = lit "\n" ++ (name.display ++ lit "\n") ++
      CodePoint.ofChar '\n' :: (doc.display ++ CodePoint.ofChar '\n' :: (quotes ++ back)) := by
    simp [headPart, lit]
  have hdoc : ∀ hname : Text.cutAt quotes name.display = none, _ := fun hname =>
    Text.cutAt_guarded (by decide) hfeed hfeed ((cutAt_named name []).1 hname) doc.display back
  have hnamed := (cutAt_named name (CodePoint.ofChar '\n' ::
    (doc.display ++ CodePoint.ofChar '\n' :: (quotes ++ back)))).2
  rw [← heq] at hdoc hnamed
  refine ⟨?_, hnamed, fun a b hname => (hdoc hname).2 a b⟩
  rw [← Text.cutAt_eq_none_iff, ← Text.cutAt_eq_none_iff]
  constructor
  · intro hclosed
    cases hname : Text.cutAt quotes name.display with
    | some ab =>
        refine absurd hclosed (not_isClosed hname (hnamed ab.1 ab.2 hname) List.length_append ?_)
        simp [headPart]
    | none =>
        cases hcut : Text.cutAt quotes doc.display with
        | none => exact ⟨rfl, rfl⟩
        | some ab =>
            have hread := (hdoc hname).2 ab.1 ab.2 hcut
            rw [List.append_cons] at hread
            refine absurd hclosed (not_isClosed hcut hread List.length_append ?_)
            simp [headPart, lit]
            omega
  · rintro ⟨hname, hcut⟩
    exact (hdoc hname).1 hcut

/-! ## Docstrings in files -/

/-- The fields are those of a function or a method with a name, and its parameters can be read. -/
def isReadable (fields : Record Json) (isMethod : Bool) : Bool :=
  (Record.get? (lit "name") fields).isSome &&
    decide (Record.get? (lit "type") fields =
      some (.str (if isMethod then lit "instancemethod" else lit "function"))) &&
    (readHead isMethod fields).isOk

/-- The doc that is written as the docstring of a node: that of a class or a type, and that of a function or a
method that is written, if it counts as true. -/
def docstring? : Json → Option Json
  | .object fields =>
    if (containerName? fields).isSome then Record.get? (lit "doc") fields
    else if isReadable fields false || isReadable fields true then
      (Record.get? (lit "doc") fields).filter Json.truthy
    else none
  | _ => none

/-- A function or a method with a doc has its docstring behind its header. -/
theorem log_writeNode_of_isReadable {fields : Record Json} {isMethod : Bool} {doc : Json}
    (hreadable : isReadable fields isMethod = true) (hcontainer : containerName? fields = none)
    (hdoc : Record.get? (lit "doc") fields = some doc) (htrue : doc.truthy = true) (indent path : Text) :
    ∃ header rest, (writeNode indent path (.object fields)).log =
      header ++ .write (docLine indent doc) :: rest := by
  simp only [isReadable, Bool.and_eq_true, decide_eq_true_eq, Option.isSome_iff_exists] at hreadable
  obtain ⟨⟨⟨name, hname⟩, htype⟩, hread⟩ := hreadable
  rw [writeNode_of_not_container hcontainer, writeSelf_of_function htype hname, writeFunction, hdoc]
  cases hhead : readHead isMethod fields with
  | error e =>
      rw [hhead] at hread
      contradiction
  | ok head =>
      obtain ⟨parameters, comment⟩ := head
      cases comment with
      | none => exact ⟨[.write (functionHeader indent name parameters)], [], by simp [write, htrue]⟩
      | some c =>
          exact ⟨[.write (functionHeader indent name parameters),
            .write (typeComment indent c.types c.returned)], [], by simp [write, htrue]⟩

/-- Where a node shows a docstring, it is written behind the header. -/
theorem log_writeNode_of_docstring {node doc : Json} (h : docstring? node = some doc)
    (indent path : Text) :
    ∃ header rest, (writeNode indent path node).log = header ++ .write (docLine indent doc) :: rest := by
  cases node with
  | object fields =>
      rw [docstring?] at h
      cases hcontainer : containerName? fields with
      | some name =>
          rw [hcontainer, Option.isSome_some, if_pos rfl] at h
          rw [writeNode_container hcontainer, writeBody, writeDoc, h]
          exact ⟨[.write (containerHeader indent name fields)], _, rfl⟩
      | none =>
          rw [hcontainer, Option.isSome_none, if_neg Bool.false_ne_true] at h
          split at h
          · rename_i hreadable
            obtain ⟨hdoc, htrue⟩ := Option.filter_eq_some_iff.1 h
            rcases Bool.or_eq_true_iff.1 hreadable with hfunction | hmethod
            · exact log_writeNode_of_isReadable hfunction hcontainer hdoc htrue indent path
            · exact log_writeNode_of_isReadable hmethod hcontainer hdoc htrue indent path
          · contradiction
  | _ => contradiction

/-- A file starts with its head. -/
theorem log_writeModule {data name : Json} (htype : data.field? (lit "type") = some (.str (lit "module")))
    (hname : data.field? (lit "name") = some name) :
    ∃ rest, (writeModule data).log =
      .write (moduleHead name ((data.field? (lit "doc")).getD (.str []))) :: rest := by
  obtain ⟨fields, rfl⟩ := Json.eq_object_of_field? htype
  rw [writeModule, Json.index_of_field? htype, Json.index_of_field? hname]
  exact ⟨_, rfl⟩

/-- **A docstring is closed by its doc, if that has quotes.** Where the writer comes to a class, a type, a
function or a method with a doc, it writes the doc between quotes, and at the head of a file the name and the
doc of the module. Whatever follows, the docstring ends at its closing quotes just if there are no quotes in
these texts, and otherwise at the first ones there. -/
theorem docstring_closed_iff (doc : Json) (back : Text) :
    (∀ (indent path : Text) (tree : Json) (before after : List Visit) (v : Visit),
      visits [] indent path tree = before ++ v :: after →
      (∀ w ∈ before, w.writeSelf.result = .ok ()) → docstring? v.node = some doc →
      ∃ header rest, (writeNode indent path tree).log = (before.flatMap fun w => w.writeSelf.log) ++
        (header ++ .write (v.indent ++ tab ++ (quotes ++ (docPart doc ++ (quotes ++ lit "\n")))) :: rest)) ∧
    (∀ (data name : Json), data.field? (lit "type") = some (.str (lit "module")) →
      data.field? (lit "name") = some name → (data.field? (lit "doc")).getD (.str []) = doc →
      ∃ rest, (writeModule data).log =
        .write (quotes ++ (headPart name doc ++ (quotes ++ lit "\n"))) :: rest) ∧
    ((IsClosed (docPart doc) back ↔ ¬quotes <:+: doc.display) ∧
      ∀ a b, Text.cutAt quotes doc.display = some (a, b) →
        Text.cutAt quotes (docPart doc ++ (quotes ++ back)) =
          some (lit " " ++ a, b ++ (lit " " ++ (quotes ++ back)))) ∧
    ∀ name : Json,
      (IsClosed (headPart name doc) back ↔ ¬quotes <:+: name.display ∧ ¬quotes <:+: doc.display) ∧
      (∀ a b, Text.cutAt quotes name.display = some (a, b) →
        Text.cutAt quotes (headPart name doc ++ (quotes ++ back)) =
          some (lit "\n" ++ a, b ++ (lit "\n\n" ++ (doc.display ++ (lit "\n" ++ (quotes ++ back)))))) ∧
      ∀ a b, Text.cutAt quotes name.display = none → Text.cutAt quotes doc.display = some (a, b) →
        Text.cutAt quotes (headPart name doc ++ (quotes ++ back)) =
          some (lit "\n" ++ (name.display ++ lit "\n") ++ (lit "\n" ++ a),
            b ++ (lit "\n" ++ (quotes ++ back))) := by
  refine ⟨?_, ?_, cutAt_docPart doc back, fun name => cutAt_headPart name doc back⟩
  · intro indent path tree before after v hvisits hreached hdoc
    obtain ⟨header, rest, hlog⟩ := log_writeNode_of_docstring hdoc v.indent v.path
    obtain ⟨more, hmore⟩ := log_writeNode_of_visit hvisits hreached
    refine ⟨header, rest ++ more, ?_⟩
    rw [hmore, hlog, docLine_eq, List.append_assoc, List.cons_append]
  · rintro data name htype hname rfl
    rw [← moduleHead_eq]
    exact log_writeModule htype hname

/-- A method with a doc. -/
def moveMethod : Json :=
  .object [(lit "name", .str (lit "move")), (lit "type", .str (lit "instancemethod")),
    (lit "doc", .str (lit "to a \"plot\""))]

/-- A class with the method. -/
def movingClass : Json :=
  .object [(lit "name", .str (lit "CyUnit")), (lit "type", .str (lit "class")),
    (lit "members", .list [moveMethod])]

theorem docstring_closed_iff_move :
    (∃ header rest, (writeNode [] (lit "M") movingClass).log =
      header ++ .write (tab ++ tab ++ (quotes ++ (docPart (.str (lit "to a \"plot\"")) ++
        (quotes ++ lit "\n")))) :: rest) ∧
    IsClosed (docPart (.str (lit "to a \"plot\""))) (lit "\n") := by
  obtain ⟨hlog, -, ⟨hclosed, -⟩, -⟩ := docstring_closed_iff (.str (lit "to a \"plot\"")) (lit "\n")
  have hvisits : visits [] [] (lit "M") movingClass =
      [⟨[], [], lit "M", movingClass⟩] ++ ⟨[0], tab, lit "M.CyUnit", moveMethod⟩ :: [] := rfl
  have hreached : ∀ w ∈ [(⟨[], [], lit "M", movingClass⟩ : Visit)], w.writeSelf.result = .ok () :=
    List.forall_mem_singleton.2 rfl
  constructor
  · obtain ⟨header, rest, h⟩ := hlog _ _ _ _ _ _ hvisits hreached rfl
    exact ⟨_, rest, h.trans (List.append_assoc _ _ _).symm⟩
  · exact hclosed.2 (Text.cutAt_eq_none_iff.1 rfl)

/-- A function whose doc quotes a word in three quotes: its docstring ends before the word. -/
theorem docstring_broken :
    fileText (writeNode [] (lit "M") (.object [(lit "name", .str (lit "f")),
      (lit "type", .str (lit "function")), (lit "doc", .str (lit "the \"\"\"unit\"\"\" moves"))])).log =
        lit "def f( *args, **kwargs ) :\n\t" ++ quotes ++
          lit " the \"\"\"unit\"\"\" moves \"\"\"\n" ∧
    Text.cutAt quotes (lit " the \"\"\"unit\"\"\" moves \"\"\"\n") =
      some (lit " the ", lit "unit\"\"\" moves \"\"\"\n") := by
  constructor
  · decide
  · decide

end Stub

end ModuleStubs
