import ModuleStubs.Proofs.Pattern.Captures
import ModuleStubs.Proofs.Wire.Grammar
import ModuleStubs.Wire.Token

/-!
# Scans make progress

A scan is a loop without a counter: at each position the first token of the lexicon that starts there is taken,
and the loop goes on behind it. It ends where no token starts, where the token that starts there takes nothing,
and where it fails. `Token.Scans` are the runs of this loop, with no bound on their length. A token never ends
before its start or behind the text (`Token.bounds_of_answer`), so each turn but the last moves on. From
every position in a text there is therefore just one run, and it is the scan (`Token.scan_progresses`).
-/

set_option autoImplicit false

namespace ModuleStubs

/-! ## Patterns -/

/-- What is left behind a match is an end of the text. -/
theorem Pattern.suffix_of_restAfter? {p : Pattern} {before : Option CodePoint} {mustAdvance : Bool}
    {t rest : Text} (h : p.restAfter? before mustAdvance t = some rest) : rest <:+ t := by
  obtain ⟨q, hq, rfl⟩ := Option.map_eq_some_iff.1 h
  have hend : Stays t fun q =>
      if mustAdvance && q.rest.length == t.length then none else some q := by
    intro a b ha hb
    simp only at hb
    split at hb
    · contradiction
    · obtain rfl := Option.some.inj hb
      exact ha
  have hstart : Place.Within t ⟨before, t, []⟩ := ⟨List.suffix_refl t, List.forall_mem_nil _⟩
  exact (keeps_run p.expr _ hend _ q hstart hq).rest

namespace Wire

namespace Token

/-! ## One token -/

theorem eq_cons_of_afterMark? {mark : CodePoint} {t r : Text} (h : afterMark? mark t = some r) :
    t = mark :: r := by
  cases t with
  | nil => contradiction
  | cons c t =>
      rw [afterMark?] at h
      split at h
      · rename_i hmark
        obtain rfl := Option.some.inj h
        rw [hmark]
      · contradiction

/-- Behind a token that a mark opens, what is left behind its body is left. -/
theorem suffix_of_marked {α : Type} {mark : CodePoint} {t r rest : Text} {v : Json}
    {x : Except Stop (α × Text)} {g : α → Json} (hmark : afterMark? mark t = some r)
    (hx : ∀ a rest, x = .ok (a, rest) → rest <:+ r)
    (h : x.map (fun found => some (g found.1, found.2)) = .ok (some (v, rest))) : rest <:+ t := by
  obtain ⟨⟨a, rest'⟩, hread, heq⟩ := except_map_eq_ok.1 h
  obtain ⟨-, rfl⟩ := Prod.mk.inj (Option.some.inj heq)
  rw [eq_cons_of_afterMark? hmark]
  exact (hx a rest' hread).trans (List.suffix_cons mark r)

/-- What is left behind a token is an end of the text. -/
theorem suffix_of_read {token : Token} {before : Option CodePoint} {mustAdvance : Bool} {t rest : Text}
    {v : Json} (h : token.read before mustAdvance t = .ok (some (v, rest))) : rest <:+ t := by
  cases token with
  | word text value =>
      obtain ⟨r, hr, heq⟩ := Option.map_eq_some_iff.1 (Except.ok.inj h)
      obtain ⟨-, rfl⟩ := Prod.mk.inj heq
      exact ⟨text, (Text.afterPrefix?_eq_some.1 hr).symm⟩
  | number =>
      obtain ⟨p, rfl, -⟩ := Grammar.numeral_of_numeral? (Except.ok.inj h)
      exact List.suffix_append p rest
  | string =>
      rw [read] at h
      split at h
      · simp at h
      rename_i r hmark
      refine suffix_of_marked (g := Json.str) hmark ?_ h
      intro s rest hread
      obtain ⟨p, rfl, -⟩ := body_of_stringBody hread
      exact (List.suffix_cons _ rest).trans (List.suffix_append p _)
  | list =>
      rw [read] at h
      split at h
      · simp at h
      rename_i r hmark
      refine suffix_of_marked (g := Json.list) hmark ?_ h
      intro items rest hread
      obtain ⟨p, rfl, -⟩ := value_of_readList hread
      exact List.suffix_append p rest
  | object =>
      rw [read] at h
      split at h
      · simp at h
      rename_i r hmark
      refine suffix_of_marked (g := Json.object) hmark ?_ h
      intro fields rest hread
      obtain ⟨p, rfl, -⟩ := value_of_readObject hread
      exact List.suffix_append p rest
  | blanks =>
      have hblanks := Except.ok.inj h
      split at hblanks
      · obtain ⟨-, rfl⟩ := Prod.mk.inj (Option.some.inj hblanks)
        exact List.dropWhile_suffix _
      · contradiction
  | pattern p =>
      obtain ⟨r, hr, heq⟩ := Option.map_eq_some_iff.1 (Except.ok.inj h)
      obtain ⟨-, rfl⟩ := Prod.mk.inj heq
      exact Pattern.suffix_of_restAfter? hr

theorem suffix_of_readFirst {lexicon : List Token} {before : Option CodePoint} {mustAdvance : Bool}
    {t rest : Text} {v : Json}
    (h : readFirst before mustAdvance t lexicon = .ok (some (v, rest))) : rest <:+ t := by
  induction lexicon with
  | nil => simp [readFirst] at h
  | cons token tokens ih =>
      obtain ⟨found, hread, hlater⟩ := except_bind_eq_ok.1 h
      cases found with
      | none => exact ih hlater
      | some found =>
          obtain rfl := Option.some.inj (Except.ok.inj hlater)
          exact suffix_of_read hread

/-- What a token gives at a position of a document: nothing if it does not start there, or its value and the
position behind it. -/
def answer (doc : Text) (i : Nat) (token : Token) : Except Stop (Option (Json × Nat)) :=
  (token.read (pointBefore doc (doc.drop i)) false (doc.drop i)).map fun found =>
    found.map fun (v, rest) => (v, doc.length - rest.length)

/-! ## The loop -/

/-- The first token of the lexicon that starts at the position gives the answer. -/
def Meets (lexicon : List Token) (doc : Text) (i : Nat) (r : Except Stop (Option (Json × Nat))) : Prop :=
  r ≠ .ok none ∧ ∃ earlier token later, lexicon = earlier ++ token :: later ∧
    (∀ u ∈ earlier, answer doc i u = .ok none) ∧ answer doc i token = r

/-- The runs of the loop from a position on: the values of the tokens with the positions behind them, and how it
ends. -/
inductive Scans (lexicon : List Token) (doc : Text) :
    Nat → List (Json × Nat) → Except Stop Unit → Prop
  | unmatched {i : Nat} (h : ∀ u ∈ lexicon, answer doc i u = .ok none) : Scans lexicon doc i [] (.ok ())
  | empty {i : Nat} {v : Json} (h : Meets lexicon doc i (.ok (some (v, i)))) :
      Scans lexicon doc i [] (.ok ())
  | fault {i : Nat} {s : Stop} (h : Meets lexicon doc i (.error s)) : Scans lexicon doc i [] (.error s)
  | token {i j : Nat} {v : Json} {ts : List (Json × Nat)} {r : Except Stop Unit}
      (h : Meets lexicon doc i (.ok (some (v, j)))) (hne : j ≠ i) (hlater : Scans lexicon doc j ts r) :
      Scans lexicon doc i ((v, j) :: ts) r

variable {lexicon : List Token} {doc : Text}

/-- A token lies in the text, from the position on. -/
theorem bounds_of_answer {token : Token} {i j : Nat} {v : Json} (hi : i ≤ doc.length)
    (h : answer doc i token = .ok (some (v, j))) : i ≤ j ∧ j ≤ doc.length := by
  obtain ⟨found, hread, heq⟩ := except_map_eq_ok.1 h
  obtain ⟨⟨w, rest⟩, rfl, hfound⟩ := Option.map_eq_some_iff.1 heq
  obtain ⟨rfl, rfl⟩ := Prod.mk.inj hfound
  have hlength := (suffix_of_read hread).length_le
  rw [List.length_drop] at hlength
  omega

theorem bounds_of_meets {i j : Nat} {v : Json} (hi : i ≤ doc.length)
    (h : Meets lexicon doc i (.ok (some (v, j)))) : i ≤ j ∧ j ≤ doc.length := by
  obtain ⟨-, -, token, -, -, -, hanswer⟩ := h
  exact bounds_of_answer hi hanswer

/-- The ends of a run grow from its start on and stay in the text, so there are not more tokens than code
points. -/
theorem Scans.ends {i : Nat} {ts : List (Json × Nat)} {r : Except Stop Unit}
    (h : Scans lexicon doc i ts r) (hi : i ≤ doc.length) :
    (∀ e ∈ ts.map Prod.snd, i < e ∧ e ≤ doc.length) ∧ (ts.map Prod.snd).Pairwise (· < ·) ∧
      i + ts.length ≤ doc.length := by
  induction h with
  | unmatched h => exact ⟨List.forall_mem_nil _, List.Pairwise.nil, hi⟩
  | empty h => exact ⟨List.forall_mem_nil _, List.Pairwise.nil, hi⟩
  | fault h => exact ⟨List.forall_mem_nil _, List.Pairwise.nil, hi⟩
  | @token i j v ts r h hne hlater ih =>
      -- the token ends behind the position, since it does not end there
      obtain ⟨hle, hj⟩ := bounds_of_meets hi h
      have hlt : i < j := Nat.lt_of_le_of_ne hle hne.symm
      obtain ⟨hbounds, hpairwise, hlength⟩ := ih hj
      refine ⟨?_, ?_, ?_⟩
      · refine List.forall_mem_cons.2 ⟨⟨hlt, hj⟩, ?_⟩
        intro e he
        exact ⟨Nat.lt_trans hlt (hbounds e he).1, (hbounds e he).2⟩
      · exact List.pairwise_cons.2 ⟨fun e he => (hbounds e he).1, hpairwise⟩
      · rw [List.length_cons]
        omega

/-! ## One run from each position -/

/-- The answer of the first token that starts at a position. -/
def firstAnswer (lexicon : List Token) (doc : Text) (i : Nat) : Except Stop (Option (Json × Nat)) :=
  (readFirst (pointBefore doc (doc.drop i)) false (doc.drop i) lexicon).map fun found =>
    found.map fun (v, rest) => (v, doc.length - rest.length)

theorem firstAnswer_cons_of_unmatched {token : Token} {tokens : List Token} {i : Nat}
    (h : answer doc i token = .ok none) :
    firstAnswer (token :: tokens) doc i = firstAnswer tokens doc i := by
  obtain ⟨found, hread, heq⟩ := except_map_eq_ok.1 h
  obtain rfl := Option.map_eq_none_iff.1 heq
  rw [firstAnswer, readFirst, hread]
  rfl

theorem firstAnswer_cons_of_ne {token : Token} {tokens : List Token} {i : Nat}
    (h : answer doc i token ≠ .ok none) : firstAnswer (token :: tokens) doc i = answer doc i token := by
  rw [firstAnswer, readFirst, answer]
  rw [answer] at h
  cases hread : token.read (pointBefore doc (doc.drop i)) false (doc.drop i) with
  | error s => rfl
  | ok found =>
      cases found with
      | some found => rfl
      | none =>
          rw [hread] at h
          exact absurd rfl h

theorem firstAnswer_of_unmatched {i : Nat} (h : ∀ u ∈ lexicon, answer doc i u = .ok none) :
    firstAnswer lexicon doc i = .ok none := by
  induction lexicon with
  | nil => rfl
  | cons token tokens ih =>
      rw [firstAnswer_cons_of_unmatched (h token List.mem_cons_self)]
      exact ih fun u hu => h u (List.mem_cons_of_mem token hu)

theorem firstAnswer_of_meets {i : Nat} {r : Except Stop (Option (Json × Nat))}
    (h : Meets lexicon doc i r) : firstAnswer lexicon doc i = r := by
  obtain ⟨hr, earlier, token, later, rfl, hearlier, rfl⟩ := h
  induction earlier with
  | nil => exact firstAnswer_cons_of_ne hr
  | cons u earlier ih =>
      rw [List.cons_append, firstAnswer_cons_of_unmatched (hearlier u List.mem_cons_self)]
      exact ih fun w hw => hearlier w (List.mem_cons_of_mem u hw)

/-- No token starts at a position, or the first one that does gives the answer. -/
theorem unmatched_or_meets (lexicon : List Token) (doc : Text) (i : Nat) :
    (∀ u ∈ lexicon, answer doc i u = .ok none) ∨ Meets lexicon doc i (firstAnswer lexicon doc i) := by
  induction lexicon with
  | nil => exact Or.inl (List.forall_mem_nil _)
  | cons token tokens ih =>
      by_cases h : answer doc i token = .ok none
      · rw [firstAnswer_cons_of_unmatched h]
        rcases ih with hnone | ⟨hne, earlier, u, later, heq, hearlier, hu⟩
        · exact Or.inl (List.forall_mem_cons.2 ⟨h, hnone⟩)
        · refine Or.inr ⟨hne, token :: earlier, u, later, ?_, ?_, hu⟩
          · rw [heq, List.cons_append]
          · exact List.forall_mem_cons.2 ⟨h, hearlier⟩
      · rw [firstAnswer_cons_of_ne h]
        exact Or.inr ⟨h, [], token, tokens, rfl, List.forall_mem_nil _, rfl⟩

theorem scanFrom_of_unmatched {i : Nat} (h : firstAnswer lexicon doc i = .ok none) :
    scanFrom lexicon doc false (doc.drop i) = ⟨[], .ok ()⟩ := by
  obtain ⟨found, hread, heq⟩ := except_map_eq_ok.1 h
  obtain rfl := Option.map_eq_none_iff.1 heq
  rw [scanFrom, hread]
  rfl

theorem scanFrom_of_fault {i : Nat} {s : Stop} (h : firstAnswer lexicon doc i = .error s) :
    scanFrom lexicon doc false (doc.drop i) = ⟨[], .error s⟩ := by
  have hread := except_map_eq_error.1 h
  rw [scanFrom, hread]
  rfl

/-- A turn that takes a token: the scan ends if it is empty, and goes on behind it otherwise. -/
theorem scanFrom_of_found {i j : Nat} {v : Json} (hi : i ≤ doc.length)
    (h : firstAnswer lexicon doc i = .ok (some (v, j))) :
    (j = i → scanFrom lexicon doc false (doc.drop i) = ⟨[], .ok ()⟩) ∧
      (j ≠ i → scanFrom lexicon doc false (doc.drop i) =
        ⟨(v, j) :: (scanFrom lexicon doc false (doc.drop j)).log,
          (scanFrom lexicon doc false (doc.drop j)).result⟩) := by
  obtain ⟨found, hread, heq⟩ := except_map_eq_ok.1 h
  obtain ⟨⟨w, rest⟩, rfl, hfound⟩ := Option.map_eq_some_iff.1 heq
  obtain ⟨rfl, rfl⟩ := Prod.mk.inj hfound
  have hsuffix : rest <:+ doc.drop i := suffix_of_readFirst hread
  have hlength := hsuffix.length_le
  have hrest : doc.drop (doc.length - rest.length) = rest :=
    (List.suffix_iff_eq_drop.1 (hsuffix.trans (List.drop_suffix i doc))).symm
  rw [List.length_drop] at hlength
  rw [scanFrom, hread, hrest]
  constructor
  · intro heq
    have hnot : ¬rest.length < (doc.drop i).length := by
      rw [List.length_drop]
      omega
    simp only [if_neg hnot]
    rfl
  · intro hne
    have hlt : rest.length < (doc.drop i).length := by
      rw [List.length_drop]
      omega
    simp only [if_pos hlt]
    rfl

theorem scan_of_le {i : Nat} (hi : i ≤ doc.length) :
    scan lexicon doc i = scanFrom lexicon doc false (doc.drop i) := by
  have hinside : 0 ≤ (i : Int) ∧ (i : Int) ≤ doc.length := by omega
  rw [scan, if_pos hinside, dropTo, Int.toNat_natCast]

/-- A run of the loop is the scan. -/
theorem Scans.scanFrom_eq {i : Nat} {ts : List (Json × Nat)} {r : Except Stop Unit}
    (h : Scans lexicon doc i ts r) (hi : i ≤ doc.length) :
    scanFrom lexicon doc false (doc.drop i) = ⟨ts, r⟩ := by
  induction h with
  | unmatched h => exact scanFrom_of_unmatched (firstAnswer_of_unmatched h)
  | empty h => exact (scanFrom_of_found hi (firstAnswer_of_meets h)).1 rfl
  | fault h => exact scanFrom_of_fault (firstAnswer_of_meets h)
  | token h hne _ ih =>
      rw [(scanFrom_of_found hi (firstAnswer_of_meets h)).2 hne, ih (bounds_of_meets hi h).2]

/-- The scan is a run of the loop: each turn but the last leaves less of the text. -/
theorem scans_scanFrom {i : Nat} (hi : i ≤ doc.length) :
    Scans lexicon doc i (scanFrom lexicon doc false (doc.drop i)).log
      (scanFrom lexicon doc false (doc.drop i)).result := by
  induction hleft : doc.length - i using Nat.strongRecOn generalizing i with
  | ind left ih =>
      rcases unmatched_or_meets lexicon doc i with hnone | hmeets
      · rw [scanFrom_of_unmatched (firstAnswer_of_unmatched hnone)]
        exact Scans.unmatched hnone
      cases hfirst : firstAnswer lexicon doc i with
      | error s =>
          rw [scanFrom_of_fault hfirst]
          exact Scans.fault (hfirst ▸ hmeets)
      | ok found =>
          rw [hfirst] at hmeets
          cases found with
          | none => exact absurd rfl hmeets.1
          | some found =>
              obtain ⟨v, j⟩ := found
              obtain ⟨hle, hj⟩ := bounds_of_meets hi hmeets
              by_cases heq : j = i
              · rw [(scanFrom_of_found hi hfirst).1 heq]
                exact Scans.empty (heq ▸ hmeets)
              · rw [(scanFrom_of_found hi hfirst).2 heq]
                exact Scans.token hmeets heq (ih (doc.length - j) (by omega) hj rfl)

/-- From every position in a text the loop has one run, which is the scan. Its ends grow strictly and lie behind
the position and not behind the text, so it takes at most as many tokens as there are code points left. -/
theorem scan_progresses (lexicon : List Token) (doc : Text) {i : Nat} (hi : i ≤ doc.length) :
    let run := scan lexicon doc i
    (∀ ts r, Scans lexicon doc i ts r ↔ ts = run.log ∧ r = run.result) ∧
      (∀ e ∈ run.log.map Prod.snd, i < e ∧ e ≤ doc.length) ∧
      (run.log.map Prod.snd).Pairwise (· < ·) ∧
      i + run.log.length ≤ doc.length := by
  intro run
  have hrun : run = scanFrom lexicon doc false (doc.drop i) := scan_of_le hi
  have hscans : Scans lexicon doc i run.log run.result := hrun ▸ scans_scanFrom hi
  refine ⟨?_, hscans.ends hi⟩
  intro ts r
  constructor
  · intro h
    rw [hrun, h.scanFrom_eq hi]
    exact ⟨rfl, rfl⟩
  · rintro ⟨rfl, rfl⟩
    exact hscans

theorem scan_progresses_to_empty_match :
    let lexicon : List Token := [.blanks, .list, .pattern ⟨lit "a*", .repeated (.point 'a') 0 none .greedy, 0⟩]
    let doc := lit "x[1] 2"
    1 ≤ doc.length ∧ (scan lexicon doc 1).log = [(.list [.int 1], 4), (.null, 5)] ∧
      (scan lexicon doc 1).result = .ok () := by
  intro lexicon doc
  have hlist : Meets lexicon doc 1 (.ok (some (.list [.int 1], 4))) :=
    ⟨by simp, [.blanks], .list, _, rfl, List.forall_mem_singleton.2 rfl, rfl⟩
  have hblanks : Meets lexicon doc 4 (.ok (some (.null, 5))) :=
    ⟨by simp, [], .blanks, _, rfl, List.forall_mem_nil _, rfl⟩
  -- the pattern takes nothing before the digit, which ends the run
  have hempty : Meets lexicon doc 5 (.ok (some (.str [], 5))) :=
    ⟨by simp, [.blanks, .list], _, [], rfl, List.forall_mem_cons.2 ⟨rfl, List.forall_mem_singleton.2 rfl⟩, rfl⟩
  have hrun := Scans.token hlist (by decide) (.token hblanks (by decide) (.empty hempty))
  obtain ⟨hlog, hresult⟩ := ((scan_progresses lexicon doc (i := 1) (by decide)).1 _ _).1 hrun
  exact ⟨by decide, hlog.symm, hresult.symm⟩

end Token

end Wire

end ModuleStubs
