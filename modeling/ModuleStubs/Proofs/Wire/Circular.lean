import Mathlib.Data.List.Perm.Subperm
import Mathlib.Data.List.Range
import Mathlib.Logic.Relation
import ModuleStubs.Proofs.Completion
import ModuleStubs.Wire.Writer

/-!
# Containers inside themselves

In a heap of lists and dictionaries a container may occur in several places, and it may contain itself.
With the check for open containers the writer refuses exactly the data in which a container that it
comes to contains itself, however indirectly; all other data are written as they are without the check,
and no container is left open (`chunks_circular`).

What carries the proof is that the table of open containers is the path from the root to the place
where the writer is (`IsPath`). Each container on the path is there once, so a path is no longer than
the heap, and the writer never goes deeper than that. One statement about a run (`Verdict`) says
what becomes of it with the check and without, for any depth that is allowed beyond the one that is
needed; it is passed on from the parts of a container to the container.
-/

set_option autoImplicit false

namespace ModuleStubs

namespace Wire

open Relation (ReflTransGen TransGen)

/-! ## Heaps -/

/-- The values directly inside a container. -/
def Cell.parts : Cell → List Ref
  | .items refs => refs
  | .fields refs => refs.map Prod.snd
  | .foreign _ => []

/-- The second value is directly inside the first one. -/
def Heap.Contains (h : Heap) (v w : Ref) : Prop :=
  ∃ n c, v = .cell n ∧ h[n]? = some c ∧ w ∈ c.parts

/-- A container that can be reached from the root contains itself, directly or indirectly. -/
def Heap.IsCircular (h : Heap) (root : Ref) : Prop :=
  ∃ v, ReflTransGen h.Contains root v ∧ TransGen h.Contains v v

/-- Null, truth values, integers and texts. A text is one that the options can write, which in ASCII is
any text. -/
def Atom.isPlain (o : Options) : Atom → Bool
  | .null => true
  | .bool _ => true
  | .int _ => true
  | .float _ _ => false
  | .str s => (writtenString o s).isOk
  | .foreign _ => false

/-- Plain atoms and containers. -/
def Ref.isPlain (o : Options) : Ref → Bool
  | .atom a => a.isPlain o
  | .cell _ => true

/-- Keys that are texts. -/
def Key.isPlain (o : Options) : Key → Bool
  | .atom (.str s) => (writtenString o s).isOk
  | _ => false

/-- Lists of plain values, and dictionaries of plain values under texts. -/
def Cell.isPlain (o : Options) : Cell → Bool
  | .items refs => refs.all (Ref.isPlain o)
  | .fields refs => refs.all fun (k, v) => k.isPlain o && v.isPlain o
  | .foreign _ => false

/-- Every container is plain. -/
def Heap.isPlain (o : Options) (h : Heap) : Bool := h.all (Cell.isPlain o)

/-- The options with or without the check for open containers. -/
def Options.checking (o : Options) (check : Bool) : Options := { o with checkCircular := check }

variable {h : Heap} {o : Options} {marks : Open}

theorem exists_of_isOk {ε α : Type} {x : Except ε α} (hx : x.isOk = true) : ∃ a, x = .ok a := by
  cases x with
  | ok a => exact ⟨a, rfl⟩
  | error e => contradiction

theorem exists_writtenAtom {a : Atom} (ha : a.isPlain o = true) : ∃ t, writtenAtom o a = .ok t := by
  cases a with
  | null => exact ⟨_, rfl⟩
  | bool b => exact ⟨_, rfl⟩
  | int n => exact ⟨_, rfl⟩
  | float x odd => contradiction
  | foreign name => contradiction
  | str s => exact exists_of_isOk ha

/-- A plain key is a text that can be written. -/
theorem exists_text_of_isPlain {k : Key} (hk : k.isPlain o = true) :
    ∃ s t, k = .atom (.str s) ∧ writtenString o s = .ok t := by
  cases k with
  | tuple ks => contradiction
  | atom a =>
      cases a with
      | str s =>
          obtain ⟨t, ht⟩ := exists_of_isOk hk
          exact ⟨s, t, rfl, ht⟩
      | _ => contradiction

theorem Heap.Contains.lt_length {n : Nat} {w : Ref} (hc : h.Contains (.cell n) w) : n < h.length := by
  obtain ⟨m, c, hm, hcell, -⟩ := hc
  obtain rfl := Ref.cell.inj hm
  exact (List.getElem?_eq_some_iff.1 hcell).1

theorem contains_cell_iff {n : Nat} {c : Cell} (hcell : h[n]? = some c) {w : Ref} :
    h.Contains (.cell n) w ↔ w ∈ c.parts := by
  constructor
  · rintro ⟨m, d, hm, hd, hw⟩
    obtain rfl := Ref.cell.inj hm
    obtain rfl := Option.some.inj (hcell.symm.trans hd)
    exact hw
  · intro hw
    exact ⟨n, c, rfl, hcell, hw⟩

theorem not_contains_atom (a : Atom) (w : Ref) : ¬ h.Contains (.atom a) w := by
  rintro ⟨n, c, hn, -⟩
  contradiction

/-! ## Open containers -/

/-- The open containers: each of them once, and none without anything in it. -/
structure IsPath (h : Heap) (marks : Open) : Prop where
  nodup : marks.Nodup
  nonempty : ∀ n ∈ marks, ∃ w, h.Contains (.cell n) w

theorem isPath_nil (h : Heap) : IsPath h [] := ⟨List.nodup_nil, by simp⟩

theorem IsPath.cons (hp : IsPath h marks) {n : Nat} {w : Ref} (hn : n ∉ marks)
    (hw : h.Contains (.cell n) w) : IsPath h (n :: marks) where
  nodup := List.nodup_cons.2 ⟨hn, hp.nodup⟩
  nonempty m hm := by
    rcases List.mem_cons.1 hm with rfl | hm
    · exact ⟨w, hw⟩
    · exact hp.nonempty m hm

/-- A path is no longer than the heap. -/
theorem IsPath.length_le (hp : IsPath h marks) : marks.length ≤ h.length := by
  have hsub : marks ⊆ List.range h.length := by
    intro n hn
    obtain ⟨w, hw⟩ := hp.nonempty n hn
    exact List.mem_range.2 hw.lt_length
  have hle := (List.subperm_of_subset hp.nodup hsub).length_le
  rwa [List.length_range] at hle

/-- The writer cannot get to the end of the value: it comes to an open container, or to one that
contains itself. -/
def Heap.Blocked (h : Heap) (marks : Open) (v : Ref) : Prop :=
  ∃ w, ReflTransGen h.Contains v w ∧ ((∃ n ∈ marks, w = .cell n) ∨ TransGen h.Contains w w)

theorem blocked_nil_iff {v : Ref} : h.Blocked [] v ↔ h.IsCircular v := by
  simp [Heap.Blocked, Heap.IsCircular]

theorem blocked_of_mem {n : Nat} (hn : n ∈ marks) : h.Blocked marks (.cell n) :=
  ⟨.cell n, .refl, Or.inl ⟨n, hn, rfl⟩⟩

/-- A value without anything in it is no obstacle: it is not open. -/
theorem not_blocked_of_empty (hp : IsPath h marks) {v : Ref} (hv : ∀ w, ¬ h.Contains v w) :
    ¬ h.Blocked marks v := by
  rintro ⟨w, hreach, hw⟩
  obtain rfl : w = v := by
    rcases hreach.cases_head with heq | ⟨u, hu, -⟩
    · exact heq.symm
    · exact absurd hu (hv u)
  rcases hw with ⟨n, hn, rfl⟩ | hself
  · obtain ⟨u, hu⟩ := hp.nonempty n hn
    exact hv u hu
  · obtain ⟨u, hu, -⟩ := TransGen.head'_iff.1 hself
    exact hv u hu

/-- A container that is opened is blocked exactly if something in it is, now that it is open. -/
theorem blocked_cell_iff {n : Nat} (hn : n ∉ marks) :
    h.Blocked marks (.cell n) ↔ ∃ w, h.Contains (.cell n) w ∧ h.Blocked (n :: marks) w := by
  constructor
  · rintro ⟨w, hreach, hw⟩
    rcases hreach.cases_head with rfl | ⟨u, hu, hlater⟩
    · rcases hw with ⟨m, hm, heq⟩ | hself
      · obtain rfl := Ref.cell.inj heq
        exact absurd hm hn
      -- the way from the container back to itself leads through one of its parts
      · obtain ⟨u, hu, hback⟩ := TransGen.head'_iff.1 hself
        exact ⟨u, hu, _, hback, Or.inl ⟨n, List.mem_cons_self, rfl⟩⟩
    · refine ⟨u, hu, w, hlater, hw.imp_left ?_⟩
      rintro ⟨m, hm, rfl⟩
      exact ⟨m, List.mem_cons_of_mem n hm, rfl⟩
  · rintro ⟨u, hu, w, hlater, hw⟩
    rcases hw with ⟨m, hm, rfl⟩ | hself
    · rcases List.mem_cons.1 hm with rfl | hm
      · exact ⟨.cell m, .refl, Or.inr (TransGen.head' hu hlater)⟩
      · exact ⟨.cell m, .head hu hlater, Or.inl ⟨m, hm, rfl⟩⟩
    · exact ⟨w, .head hu hlater, Or.inr hself⟩

/-! ## Runs -/

/-- A run from some open containers on, by the depth that is allowed. -/
abbrev Run := Nat → Open → Writing Open

/-- What becomes of a run with the check and of the same one without it, from the depth `n` on. Blocked
it ends with the fault; otherwise both of them write the same, and leave the open containers as they
were. -/
inductive Verdict (blocked : Prop) (n : Nat) (marks : Open) (checked unchecked : Run) : Prop
  | refused (log : List Text) (hblocked : blocked)
      (hchecked : ∀ fuel, n ≤ fuel → checked fuel marks = ⟨log, .error .circular⟩)
  | written (log : List Text) (hfree : ¬ blocked)
      (hchecked : ∀ fuel, n ≤ fuel → checked fuel marks = ⟨log, .ok marks⟩)
      (hunchecked : ∀ fuel, n ≤ fuel → ∀ m, unchecked fuel m = ⟨log, .ok m⟩)

/-- The verdict on a value. -/
def ValueVerdict (h : Heap) (o : Options) (n : Nat) (marks : Open) (v : Ref) : Prop :=
  Verdict (h.Blocked marks v) n marks (fun fuel => writeValue h.store (o.checking true) fuel v)
    (fun fuel => writeValue h.store (o.checking false) fuel v)

/-- A value without anything in it needs no depth but its own. -/
theorem Verdict.leaf {blocked : Prop} {n : Nat} {checked unchecked : Run} {log : List Text}
    (hfree : ¬ blocked) (hchecked : ∀ fuel m, checked (fuel + 1) m = ⟨log, .ok m⟩)
    (hunchecked : ∀ fuel m, unchecked (fuel + 1) m = ⟨log, .ok m⟩) :
    Verdict blocked (n + 1) marks checked unchecked := by
  refine .written log hfree (fun fuel hfuel => ?_) fun fuel hfuel m => ?_
  · obtain ⟨fuel, rfl⟩ := Nat.exists_eq_add_of_le' (Nat.le_of_add_left_le hfuel)
    exact hchecked fuel marks
  · obtain ⟨fuel, rfl⟩ := Nat.exists_eq_add_of_le' (Nat.le_of_add_left_le hfuel)
    exact hunchecked fuel m

theorem Verdict.congr {blocked blocked' : Prop} {n : Nat} {checked unchecked : Run}
    (hv : Verdict blocked n marks checked unchecked) (hiff : blocked ↔ blocked') :
    Verdict blocked' n marks checked unchecked := by
  rwa [← propext hiff]

/-- Chunks in front of a run and behind it. -/
theorem Verdict.between {blocked : Prop} {n : Nat} {checked unchecked : Run} (before after : List Text)
    (hv : Verdict blocked n marks checked unchecked) :
    Verdict blocked n marks
      (fun fuel m => ⟨before, .ok ()⟩ >>= fun _ => checked fuel m >>= fun m => ⟨after, .ok m⟩)
      (fun fuel m => ⟨before, .ok ()⟩ >>= fun _ => unchecked fuel m >>= fun m => ⟨after, .ok m⟩) := by
  cases hv with
  | refused log hblocked hchecked =>
      refine .refused (before ++ log) hblocked fun fuel hfuel => ?_
      simp [hchecked fuel hfuel]
  | written log hfree hchecked hunchecked =>
      refine .written (before ++ (log ++ after)) hfree (fun fuel hfuel => ?_) fun fuel hfuel m => ?_
      · simp [hchecked fuel hfuel]
      · simp [hunchecked fuel hfuel]

/-- Chunks and two runs one after the other. -/
theorem Verdict.andThen {blocked blocked' : Prop} {n : Nat} {checked unchecked : Run}
    {checked' unchecked' : Run} (before : List Text)
    (hv : Verdict blocked n marks checked unchecked)
    (hv' : Verdict blocked' n marks checked' unchecked') :
    Verdict (blocked ∨ blocked') n marks
      (fun fuel m => ⟨before, .ok ()⟩ >>= fun _ => checked fuel m >>= checked' fuel)
      (fun fuel m => ⟨before, .ok ()⟩ >>= fun _ => unchecked fuel m >>= unchecked' fuel) := by
  cases hv with
  | refused log hblocked hchecked =>
      refine .refused (before ++ log) (Or.inl hblocked) fun fuel hfuel => ?_
      simp [hchecked fuel hfuel]
  | written log hfree hchecked hunchecked =>
      cases hv' with
      | refused log' hblocked hchecked' =>
          refine .refused (before ++ (log ++ log')) (Or.inr hblocked) fun fuel hfuel => ?_
          simp [hchecked fuel hfuel, hchecked' fuel hfuel]
      | written log' hfree' hchecked' hunchecked' =>
          refine .written (before ++ (log ++ log')) (not_or.2 ⟨hfree, hfree'⟩) (fun fuel hfuel => ?_)
            fun fuel hfuel m => ?_
          · simp [hchecked fuel hfuel, hchecked' fuel hfuel]
          · simp [hunchecked fuel hfuel, hunchecked' fuel hfuel]

/-! ## Containers -/

theorem verdict_items {n : Nat} (isFirst : Bool) {vs : List Ref}
    (hvs : ∀ v ∈ vs, ValueVerdict h o n marks v) :
    Verdict (∃ v ∈ vs, h.Blocked marks v) n marks
      (fun fuel => writeItems (writeValue h.store (o.checking true) fuel) isFirst vs)
      (fun fuel => writeItems (writeValue h.store (o.checking false) fuel) isFirst vs) := by
  induction vs generalizing isFirst with
  | nil => exact .written [] (by simp) (fun _ _ => rfl) fun _ _ _ => rfl
  | cons v vs ih =>
      have hfirst := hvs v List.mem_cons_self
      have hlater := ih false fun w hw => hvs w (List.mem_cons_of_mem v hw)
      have hboth := hfirst.andThen (if isFirst then [] else [lit ", "]) hlater
      have hiff : (h.Blocked marks v ∨ ∃ w ∈ vs, h.Blocked marks w) ↔
          ∃ w ∈ v :: vs, h.Blocked marks w := by simp
      cases isFirst <;> exact hboth.congr hiff

theorem writeFields_text {check isFirst : Bool} {s t : Text} (ht : writtenString o s = .ok t)
    (write : Ref → Open → Writing Open) (v : Ref) (fs : List (Key × Ref)) (m : Open) :
    writeFields (o.checking check) write isFirst ((.atom (.str s), v) :: fs) m =
      ((⟨(if isFirst then [] else [lit ", "]) ++ [t, lit ":"], .ok ()⟩ : Writing Unit) >>= fun _ =>
        write v m >>= writeFields (o.checking check) write false fs) := by
  have ht' : writtenString (o.checking check) s = .ok t := ht
  cases isFirst <;> simp [writeFields, keyText, ht']

theorem verdict_fields {n : Nat} (isFirst : Bool) {fs : List (Key × Ref)}
    (hkeys : ∀ f ∈ fs, f.1.isPlain o = true) (hfs : ∀ f ∈ fs, ValueVerdict h o n marks f.2) :
    Verdict (∃ v ∈ fs.map Prod.snd, h.Blocked marks v) n marks
      (fun fuel => writeFields (o.checking true) (writeValue h.store (o.checking true) fuel) isFirst fs)
      (fun fuel =>
        writeFields (o.checking false) (writeValue h.store (o.checking false) fuel) isFirst fs) := by
  induction fs generalizing isFirst with
  | nil => exact .written [] (by simp) (fun _ _ => rfl) fun _ _ _ => rfl
  | cons f fs ih =>
      obtain ⟨k, v⟩ := f
      have hfirst := hfs (k, v) List.mem_cons_self
      have hlater := ih false (fun g hg => hkeys g (List.mem_cons_of_mem _ hg))
        fun g hg => hfs g (List.mem_cons_of_mem _ hg)
      obtain ⟨s, t, rfl, ht⟩ := exists_text_of_isPlain (hkeys (k, v) List.mem_cons_self)
      have hboth := hfirst.andThen ((if isFirst then [] else [lit ", "]) ++ [t, lit ":"]) hlater
      have hiff : (h.Blocked marks v ∨ ∃ w ∈ fs.map Prod.snd, h.Blocked marks w) ↔
          ∃ w ∈ ((Key.atom (.str s), v) :: fs).map Prod.snd, h.Blocked marks w := by simp
      have hrun : ∀ check, (fun fuel => writeFields (o.checking check)
          (writeValue h.store (o.checking check) fuel) isFirst ((.atom (.str s), v) :: fs)) = _ :=
        fun check => funext fun fuel => funext fun m => writeFields_text ht _ v fs m
      rw [hrun true, hrun false]
      exact hboth.congr hiff

/-- A container in which something is written: it is open meanwhile, and refused if it was open
before. The run without the check does not look at what is open. -/
theorem verdict_enclosed {k n : Nat} {checked unchecked inside inside' : Run}
    (hchecked : ∀ fuel m, checked (fuel + 1) m = enclosed (o.checking true) (some k) (inside fuel) m)
    (hunchecked : ∀ fuel m, unchecked (fuel + 1) m = inside' fuel m)
    (hinside : k ∉ marks →
      Verdict (∃ w, h.Contains (.cell k) w ∧ h.Blocked (k :: marks) w) n (k :: marks) inside inside') :
    Verdict (h.Blocked marks (.cell k)) (n + 1) marks checked unchecked := by
  by_cases hk : k ∈ marks
  · -- refused at once, before anything is written
    refine .refused [] (blocked_of_mem hk) fun fuel hfuel => ?_
    obtain ⟨fuel, rfl⟩ := Nat.exists_eq_add_of_le' (Nat.le_of_add_left_le hfuel)
    simp [hchecked, enclosed, Options.checking, hk]
  · -- opened for what is inside, and closed again at the end
    have hiff := (blocked_cell_iff (h := h) hk).symm
    cases hinside hk with
    | refused log hblocked hrun =>
        refine .refused log (hiff.1 hblocked) fun fuel hfuel => ?_
        obtain ⟨fuel, rfl⟩ := Nat.exists_eq_add_of_le' (Nat.le_of_add_left_le hfuel)
        simp [hchecked, enclosed, Options.checking, hk, hrun fuel (by omega)]
    | written log hfree hrun hrun' =>
        refine .written log (mt hiff.2 hfree) (fun fuel hfuel => ?_) fun fuel hfuel m => ?_
        · obtain ⟨fuel, rfl⟩ := Nat.exists_eq_add_of_le' (Nat.le_of_add_left_le hfuel)
          simp [hchecked, enclosed, Options.checking, hk, hrun fuel (by omega)]
        · obtain ⟨fuel, rfl⟩ := Nat.exists_eq_add_of_le' (Nat.le_of_add_left_le hfuel)
          simp [hunchecked, hrun' fuel (by omega)]

/-- The verdict on a container follows from those on the values inside it. -/
theorem verdict_cell {n k : Nat} {c : Cell} (hp : IsPath h marks) (hcell : h[k]? = some c)
    (hplain : c.isPlain o = true)
    (hparts : ∀ w, k ∉ marks → h.Contains (.cell k) w → w.isPlain o = true →
      ValueVerdict h o n (k :: marks) w) :
    ValueVerdict h o (n + 1) marks (.cell k) := by
  have hcontains : ∀ w, h.Contains (.cell k) w ↔ w ∈ c.parts := fun w => contains_cell_iff hcell
  have hempty : c.parts = [] → ¬ h.Blocked marks (.cell k) := by
    intro hnil
    refine not_blocked_of_empty hp fun w hw => ?_
    rw [hcontains, hnil] at hw
    contradiction
  have hiff : (∃ w ∈ c.parts, h.Blocked (k :: marks) w) ↔
      ∃ w, h.Contains (.cell k) w ∧ h.Blocked (k :: marks) w := by
    simp only [hcontains]
  -- only containers with something in them are opened; the others are leaves
  match c, hplain with
  | .items [], _ =>
      have hrun : ∀ check fuel m, writeValue h.store (o.checking check) (fuel + 1) (.cell k) m =
          ⟨[lit "[]"], .ok m⟩ := by
        intro check fuel m
        simp [writeValue, Heap.store, hcell]
      exact .leaf (hempty rfl) (hrun true) (hrun false)
  | .items (p :: ps), hplain =>
      have hinside := fun hk : k ∉ marks =>
        ((verdict_items true fun v hv =>
          hparts v hk ((hcontains v).2 hv) (List.all_eq_true.1 hplain v hv)).between [lit "["]
            [lit "]"]).congr hiff
      refine verdict_enclosed (o := o) (fun fuel m => ?_) (fun fuel m => ?_) hinside
      · simp [writeValue, Heap.store, hcell, Cell.parts]
      · simp [writeValue, Heap.store, hcell, Cell.parts, enclosed, Options.checking]
  | .fields [], _ =>
      have hrun : ∀ check fuel m, writeValue h.store (o.checking check) (fuel + 1) (.cell k) m =
          ⟨[lit "\x7b\x7d"], .ok m⟩ := by
        intro check fuel m
        simp [writeValue, Heap.store, hcell]
      exact .leaf (hempty rfl) (hrun true) (hrun false)
  | .fields (f :: fs), hplain =>
      have hwhole : ∀ g ∈ f :: fs, g.1.isPlain o = true ∧ g.2.isPlain o = true := fun g hg =>
        Bool.and_eq_true_iff.1 (List.all_eq_true.1 hplain g hg)
      have hinside := fun hk : k ∉ marks =>
        ((verdict_fields true (fun g hg => (hwhole g hg).1) fun g hg =>
          hparts g.2 hk ((hcontains g.2).2 (List.mem_map_of_mem hg)) (hwhole g hg).2).between
            [lit "\x7b"] [lit "\x7d"]).congr hiff
      refine verdict_enclosed (o := o) (fun fuel m => ?_) (fun fuel m => ?_) hinside
      · simp [writeValue, Heap.store, hcell]
      · simp [writeValue, Heap.store, hcell, enclosed, Options.checking]

/-- The verdict on a value of a plain heap: the depth that is left is enough for all the containers that
are not open yet. -/
theorem valueVerdict (hplain : h.isPlain o = true) (n : Nat) {marks : Open} (hp : IsPath h marks)
    (hn : h.length + 1 ≤ n + marks.length) {v : Ref} (hv : v.isPlain o = true) :
    ValueVerdict h o n marks v := by
  induction n generalizing marks v with
  | zero =>
      -- all containers would be open, and more
      have hle := hp.length_le
      omega
  | succ n ih =>
      cases v with
      | atom a =>
          obtain ⟨t, ht⟩ := exists_writtenAtom hv
          have hrun : ∀ check fuel m, writeValue h.store (o.checking check) (fuel + 1) (.atom a) m =
              ⟨[t], .ok m⟩ := by
            intro check fuel m
            have ht' : writtenAtom (o.checking check) a = .ok t := ht
            cases a with
            | foreign name => contradiction
            | _ => simp [writeValue, Heap.store, ht']
          exact .leaf (not_blocked_of_empty hp (not_contains_atom a)) (hrun true) (hrun false)
      | cell k =>
          cases hcell : h[k]? with
          | none =>
              have hempty : ∀ w, ¬ h.Contains (.cell k) w := by
                rintro w ⟨m, c, hm, hc, -⟩
                obtain rfl := Ref.cell.inj hm
                rw [hcell] at hc
                contradiction
              have hrun : ∀ check fuel m, writeValue h.store (o.checking check) (fuel + 1) (.cell k) m =
                  ⟨[lit "null"], .ok m⟩ := by
                intro check fuel m
                simp [writeValue, Heap.store, hcell, writtenAtom]
              exact .leaf (not_blocked_of_empty hp hempty) (hrun true) (hrun false)
          | some c =>
              refine verdict_cell hp hcell (List.all_eq_true.1 hplain c (List.mem_of_getElem? hcell)) ?_
              -- one level down there is one container more on the path
              intro w hk hc hw
              exact ih (hp.cons hk hc) (by rw [List.length_cons]; omega) hw

/-! ## Documents -/

/-- **Circular data are refused, shared data are not.** Writing plain data of a heap with the check
comes to an end that does not depend on the depth allowed. It is the fault exactly if a container that
can be reached from the root contains itself, directly or indirectly. All other data are written, with
the text that they have without the check, and no container is left open. This is so where calls may be
nested as deeply as the data are: the limit of an interpreter on nested calls is set aside, so that data
that are nested more deeply than it allows are outside of what is said here. -/
theorem chunks_circular {h : Heap} {o : Options} {root : Ref} (hplain : h.isPlain o = true)
    (hroot : root.isPlain o = true) :
    (∀ fuel, h.length + 2 ≤ fuel →
      writeValue h.store (o.checking true) fuel root [] = h.chunks (o.checking true) root) ∧
    ((h.chunks (o.checking true) root).result = .error .circular ↔ h.IsCircular root) ∧
    WriteFault.message .circular = lit "Circular reference detected" ∧
    (¬ h.IsCircular root → ∃ text,
      document (h.chunks (o.checking true) root) = .ok text ∧
      document (h.chunks (o.checking false) root) = .ok text ∧
      (h.chunks (o.checking true) root).result = .ok []) := by
  have hverdict := valueVerdict hplain (h.length + 2) (isPath_nil h) (Nat.le_succ _) hroot
  rw [ValueVerdict, propext blocked_nil_iff] at hverdict
  cases hverdict with
  | refused log hcircular hchecked =>
      have hchunks : h.chunks (o.checking true) root = _ := hchecked _ le_rfl
      rw [hchunks]
      exact ⟨hchecked, iff_of_true rfl hcircular, rfl, fun hfree => absurd hcircular hfree⟩
  | written log hfree hchecked hunchecked =>
      have hchunks : h.chunks (o.checking true) root = _ := hchecked _ le_rfl
      have hchunks' : h.chunks (o.checking false) root = _ := hunchecked _ le_rfl []
      rw [hchunks, hchunks']
      exact ⟨hchecked, iff_of_false (by simp) hfree, rfl, fun _ => ⟨Text.concat log, rfl, rfl, rfl⟩⟩

/-- A list that has one dictionary in it twice, and a list that contains itself through a dictionary. -/
def sharedAndCircular : Heap :=
  [.items [.cell 1, .cell 1], .fields [(.atom (.str (lit "a")), .atom .null)],
    .items [.cell 0, .cell 3], .fields [(.atom (.str (lit "up")), .cell 2)]]

theorem chunks_sharedAndCircular :
    sharedAndCircular.isPlain {} = true ∧
    (sharedAndCircular.chunks (Options.checking {} true) (.cell 2)).result = .error .circular ∧
    ∃ text, document (sharedAndCircular.chunks (Options.checking {} true) (.cell 0)) = .ok text ∧
      document (sharedAndCircular.chunks (Options.checking {} false) (.cell 0)) = .ok text ∧
      (sharedAndCircular.chunks (Options.checking {} true) (.cell 0)).result = .ok [] := by
  have hplain : sharedAndCircular.isPlain {} = true := by decide
  have hdown : sharedAndCircular.Contains (.cell 2) (.cell 3) := ⟨2, _, rfl, rfl, by simp [Cell.parts]⟩
  have hup : sharedAndCircular.Contains (.cell 3) (.cell 2) := ⟨3, _, rfl, rfl, by simp [Cell.parts]⟩
  have hroot : ∀ n, Ref.isPlain {} (.cell n) = true := fun _ => rfl
  obtain ⟨-, hcircular, -, -⟩ := chunks_circular hplain (hroot 2)
  obtain ⟨-, hshared, -, hwritten⟩ := chunks_circular hplain (hroot 0)
  refine ⟨hplain, hcircular.2 ⟨.cell 2, .refl, .tail (.single hdown) hup⟩, hwritten (mt hshared.2 ?_)⟩
  rintro ⟨⟩

end Wire

end ModuleStubs
