import ModuleStubs.Bench.Round
import ModuleStubs.Proofs.Json.RoundTrip
import ModuleStubs.Proofs.Text.Cut

/-!
# The list of rounds

A round adds at most one entry to the history, and the entry has no line feed in it, since a value written
inline is printable ASCII (`Json.isPrintable_inline`). A history that rounds have written is therefore read
back as the entries that they added: `IsHistory.after_run` is the step, and `pastRounds_rounds` says of any
number of rounds on an empty history that the recorded ones are numbered from one on, without a gap.
-/

set_option autoImplicit false

namespace ModuleStubs

/-! ## Values on one line -/

namespace Json

mutual

/-- A value written inline is printable ASCII. -/
theorem isPrintable_inline : ∀ (v : Json), ∀ c ∈ inline v, c.IsPrintable
  | .null => isPrintable_of_name .null
  | .bool true => isPrintable_of_name .true
  | .bool false => isPrintable_of_name .false
  | .int n => isPrintable_of_numeral (Wire.numeral_decimalInt n)
  | .float x => isPrintable_writtenFloat x
  | .str _ => fun _ => isPrintable_writtenString
  | .list items => by
      simp only [inline, List.forall_mem_append]
      exact ⟨⟨by decide, Text.forall_mem_join (by decide) (isPrintable_inlineItems items)⟩, by decide⟩
  | .object fields => by
      simp only [inline, List.forall_mem_append]
      exact ⟨⟨by decide, Text.forall_mem_join (by decide) (isPrintable_inlineFields fields)⟩, by decide⟩

theorem isPrintable_inlineItems : ∀ (vs : List Json), ∀ t ∈ inlineItems vs, ∀ c ∈ t, c.IsPrintable
  | [] => fun _ ht => absurd ht List.not_mem_nil
  | v :: vs => List.forall_mem_cons.2 ⟨isPrintable_inline v, isPrintable_inlineItems vs⟩

theorem isPrintable_inlineFields :
    ∀ (fs : List (Text × Json)), ∀ t ∈ inlineFields fs, ∀ c ∈ t, c.IsPrintable
  | [] => fun _ ht => absurd ht List.not_mem_nil
  | (k, v) :: fs => by
      refine List.forall_mem_cons.2 ⟨?_, isPrintable_inlineFields fs⟩
      simp only [List.forall_mem_append]
      exact ⟨⟨fun _ => isPrintable_writtenString, by decide⟩, isPrintable_inline v⟩

end

end Json

namespace Round

/-! ## Lines of a history -/

/-- The line of the round with this number. -/
def IsEntry (n : Nat) (line : Text) : Prop :=
  ∃ fields, line = (Json.object fields).inline ∧ Record.get? (lit "round") fields = some (.int n)

theorem IsEntry.not_mem {n : Nat} {line : Text} (h : IsEntry n line) : CodePoint.ofChar '\n' ∉ line := by
  obtain ⟨fields, rfl, -⟩ := h
  exact fun hmem => absurd (Json.isPrintable_inline _ _ hmem) (by decide)

theorem IsEntry.not_allBlank {n : Nat} {line : Text} (h : IsEntry n line) : Text.allBlank line = false := by
  obtain ⟨fields, rfl, -⟩ := h
  have hbrace : isBlank (CodePoint.ofChar '\x7b') = false := by decide
  simp [Json.inline, lit, Text.allBlank, hbrace]

theorem isEntry_entry (f : Findings) (report : Json) (now wall : Binary64) :
    IsEntry f.number (f.entry report now wall).inline := ⟨_, rfl, rfl⟩

/-- The history is made up of these lines, and they are numbered from one on. -/
structure IsHistory (history : Option Text) (ls : List Text) : Prop where
  text : history.getD [] = ended ls
  numbered : ∀ i line, ls[i]? = some line → IsEntry (i + 1) line

theorem isHistory_none : IsHistory none [] := ⟨rfl, by simp⟩

theorem splitOn_ended {ls : List Text} (h : ∀ l ∈ ls, CodePoint.ofChar '\n' ∉ l) :
    Text.splitOn '\n' (ended ls) = ls ++ [[]] := by
  induction ls with
  | nil => rfl
  | cons l ls ih =>
      obtain ⟨hl, hls⟩ := List.forall_mem_cons.1 h
      have hended : ended (l :: ls) = l ++ CodePoint.ofChar '\n' :: ended ls := by
        simp [ended, lit]
      rw [hended, Text.splitOn_append_cons _ hl, ih hls, List.cons_append]

/-- A history is read back as its lines. -/
theorem IsHistory.pastRounds_eq {history : Option Text} {ls : List Text} (h : IsHistory history ls) :
    pastRounds history = ls := by
  have hentry : ∀ l ∈ ls, ∃ n, IsEntry n l := fun l hl => by
    obtain ⟨i, hi⟩ := List.mem_iff_getElem?.1 hl
    exact ⟨_, h.numbered i l hi⟩
  have hlines : ∀ l ∈ ls, CodePoint.ofChar '\n' ∉ l := fun l hl => (hentry l hl).elim fun _ => IsEntry.not_mem
  have hkept : ∀ l ∈ ls, (!Text.allBlank l) = true := fun l hl => by
    obtain ⟨n, hn⟩ := hentry l hl
    rw [hn.not_allBlank]
    rfl
  -- the empty piece behind the last line feed is the only blank one
  rw [pastRounds, h.text, splitOn_ended hlines, List.filter_append, List.filter_eq_self.2 hkept]
  exact List.append_nil ls

/-- One more line keeps a history if it has the next number. -/
theorem IsHistory.snoc {history : Option Text} {ls : List Text} (h : IsHistory history ls) {line : Text}
    (hline : IsEntry (ls.length + 1) line) :
    IsHistory (some (history.getD [] ++ line ++ lit "\n")) (ls ++ [line]) where
  text := by simp [h.text, ended]
  numbered i l hl := by
    rcases Nat.lt_trichotomy i ls.length with hi | rfl | hi
    · rw [List.getElem?_append_left hi] at hl
      exact h.numbered i l hl
    · rw [List.getElem?_concat_length, Option.some.injEq] at hl
      rwa [← hl]
    · rw [List.getElem?_eq_none (by simp; omega)] at hl
      exact absurd hl (by simp)

/-! ## Rounds -/

/-- The round is recorded: its coverage was counted, and the last line of the history can be read. -/
def records (s : Setting) : Bool :=
  s.coverage.toOption.any (fun f => f.exit = 0) && s.coverageReport.isSome &&
    (sinceLast? s.now (pastRounds s.history)).isSome

/-- A round that is not recorded leaves the history alone. A recorded one adds a line with the next number. -/
theorem history_run (s : Setting) :
    (records s = false ∧ (run s).history = s.history) ∨
      records s = true ∧ ∃ line, IsEntry ((pastRounds s.history).length + 1) line ∧
        (run s).history = some (s.history.getD [] ++ line ++ lit "\n") := by
  rw [run, records]
  cases s.coverage with
  | error r => exact .inl ⟨rfl, rfl⟩
  | ok f =>
      by_cases hexit : f.exit = 0
      · cases s.coverageReport with
        | none => exact .inl (by simp [Except.toOption, hexit])
        | some report =>
            simp only [Except.toOption, Option.any_some, hexit, decide_true, Option.isSome_some, Bool.and_true,
              Bool.true_and, finish]
            cases sinceLast? s.now (pastRounds s.history) with
            | none => exact .inl ⟨rfl, rfl⟩
            | some wall => exact .inr ⟨rfl, _, isEntry_entry _ report s.now wall, rfl⟩
      · exact .inl (by simp [Except.toOption, hexit])

/-- A round takes a history to a history: the lines stay, and a recorded round adds one. -/
theorem IsHistory.after_run {s : Setting} {ls : List Text} (h : IsHistory s.history ls) :
    ∃ new, IsHistory (run s).history (ls ++ new) ∧ new.length = (records s).toNat := by
  rcases history_run s with ⟨hrecords, hsame⟩ | ⟨hrecords, line, hline, hadded⟩
  · refine ⟨[], ?_, by rw [hrecords]; rfl⟩
    rw [hsame, List.append_nil]
    exact h
  · rw [h.pastRounds_eq] at hline
    refine ⟨[line], ?_, by rw [hrecords]; rfl⟩
    rw [hadded]
    exact h.snoc hline

/-- The history after rounds, each of which finds the one that the last has left. -/
def rounds (history : Option Text) : List Setting → Option Text
  | [] => history
  | s :: ss => rounds (run { s with history := history }).history ss

/-- The number of these rounds that are recorded. -/
def recorded (history : Option Text) : List Setting → Nat
  | [] => 0
  | s :: ss =>
    let s := { s with history := history }
    (records s).toNat + recorded (run s).history ss

/-- Rounds only ever add lines at the end of a history. -/
theorem IsHistory.after_rounds :
    ∀ (ss : List Setting) {history : Option Text} {ls : List Text}, IsHistory history ls →
      ∃ new, IsHistory (rounds history ss) (ls ++ new) ∧ new.length = recorded history ss
  | [], _, ls, h => ⟨[], by rwa [List.append_nil], rfl⟩
  | s :: ss, history, ls, h => by
      obtain ⟨first, hfirst, hlength⟩ := IsHistory.after_run (s := { s with history := history }) h
      obtain ⟨later, hlater, hrest⟩ := IsHistory.after_rounds ss hfirst
      rw [List.append_assoc] at hlater
      exact ⟨first ++ later, hlater, by rw [List.length_append, hlength, hrest]; rfl⟩

/-- The lines that rounds leave on an empty history are those of the recorded rounds, numbered from one on. -/
theorem pastRounds_rounds (ss : List Setting) :
    (pastRounds (rounds none ss)).length = recorded none ss ∧
      ∀ i line, (pastRounds (rounds none ss))[i]? = some line → IsEntry (i + 1) line := by
  obtain ⟨new, hnew, hlength⟩ := isHistory_none.after_rounds ss
  rw [List.nil_append] at hnew
  rw [hnew.pastRounds_eq]
  exact ⟨hlength, hnew.numbered⟩

end Round

end ModuleStubs
