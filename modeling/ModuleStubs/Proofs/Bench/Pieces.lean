import ModuleStubs.Bench.Result
import ModuleStubs.Proofs.Text.Cut
import ModuleStubs.Proofs.Text.Utf8

/-!
# The pieces that are fed to a fingerprint

A result that is built from integers and texts by lists goes into its fingerprint piece by piece: the numeral of an
integer, a text behind its letter, the length of a list behind another letter with the items after it. Within
the limits on depth and length every piece is fed, by every walk, unless a text has no bytes
(`feed_eq_encoded`). The pieces are those of a prefix notation, in which a list says how many items follow,
so they determine the result (`pieces_append_inj`). The bytes are the pieces without their ends. What the
bytes lack is therefore where the pieces are cut, and nothing else (`eq_iff_feed_cuts`).
-/

set_option autoImplicit false

namespace ModuleStubs

/-- The integers and the code points that results are made of. -/
structure Alphabet where
  ints : Int → Prop
  points : CodePoint → Prop

/-- A piece of what is fed: an integer, a text, or the length of a list. -/
inductive Piece where
  | int (n : Int)
  | text (s : Text)
  | items (count : Nat)

namespace Piece

/-- The piece as it is fed. -/
def spelled : Piece → Text
  | .int n => decimalInt n
  | .text s => 's' :: s
  | .items count => 'L' :: decimal count

/-- Pieces one after the other, as they are fed. -/
def script (ps : List Piece) : Text := ps.flatMap spelled

/-- The piece is an integer or a text of an alphabet, or a length. -/
def IsOver (A : Alphabet) : Piece → Prop
  | .int n => A.ints n
  | .text s => ∀ c ∈ s, A.points c
  | .items _ => True

@[simp] theorem spelled_int (n : Int) : (Piece.int n).spelled = decimalInt n := rfl

@[simp] theorem spelled_text (s : Text) : (Piece.text s).spelled = CodePoint.ofChar 's' :: s := rfl

@[simp] theorem spelled_items (count : Nat) :
    (Piece.items count).spelled = CodePoint.ofChar 'L' :: decimal count := rfl

theorem script_cons (p : Piece) (ps : List Piece) : script (p :: ps) = p.spelled ++ script ps :=
  List.flatMap_cons

theorem spelled_ne_nil (p : Piece) : p.spelled ≠ [] := by
  cases p with
  | int n => exact decimalInt_ne_nil n
  | text s => exact List.cons_ne_nil _ _
  | items k => exact List.cons_ne_nil _ _

theorem spelled_injective {p q : Piece} (h : p.spelled = q.spelled) : p = q := by
  have hint : ∀ (n : Int) (c : Char) (t : Text), (CodePoint.ofChar c).isDigit = false → c ≠ '-' →
      decimalInt n ≠ CodePoint.ofChar c :: t := by
    intro n c t hdigit hsign heq
    have hmem : CodePoint.ofChar c ∉ decimalInt n :=
      not_mem_decimalInt n hdigit fun hc => hsign (CodePoint.ofChar_injective hc)
    exact hmem (heq ▸ List.mem_cons_self)
  cases p with
  | int m =>
      cases q with
      | int n => exact congrArg _ (decimalInt_injective h)
      | text t => exact absurd h (hint m 's' t rfl (by decide))
      | items k => exact absurd h (hint m 'L' _ rfl (by decide))
  | text s =>
      cases q with
      | int n => exact absurd h.symm (hint n 's' s rfl (by decide))
      | text t => exact congrArg _ (List.cons.inj h).2
      | items k => exact absurd (List.cons.inj h).1 (by decide)
  | items j =>
      cases q with
      | int n => exact absurd h.symm (hint n 'L' _ rfl (by decide))
      | text t => exact absurd (List.cons.inj h).1 (by decide)
      | items k => exact congrArg _ (decimal_injective (List.cons.inj h).2)

end Piece

namespace Result

/-- Built from integers and texts of an alphabet by lists that are nested at most so deep and have at most two
thousand items. -/
inductive Plain (A : Alphabet) : Nat → Result → Prop
  | int {depth : Nat} {n : Int} (h : A.ints n) : Plain A depth (.int n)
  | str {depth : Nat} {s : Text} (h : ∀ c ∈ s, A.points c) : Plain A depth (.str s)
  | list {depth : Nat} {items : List Result} (hlength : items.length ≤ 2000)
      (hitems : ∀ v ∈ items, Plain A depth v) : Plain A (depth + 1) (.list items)

section

variable {A : Alphabet} {depth : Nat}

@[simp] theorem plain_int {n : Int} : Plain A depth (.int n) ↔ A.ints n :=
  ⟨fun | .int h => h, .int⟩

@[simp] theorem plain_str {s : Text} : Plain A depth (.str s) ↔ ∀ c ∈ s, A.points c :=
  ⟨fun | .str h => h, .str⟩

@[simp] theorem plain_list {items : List Result} :
    Plain A (depth + 1) (.list items) ↔ items.length ≤ 2000 ∧ ∀ v ∈ items, Plain A depth v :=
  ⟨fun | .list hlength hitems => ⟨hlength, hitems⟩, fun h => .list h.1 h.2⟩

end

mutual

/-- The pieces of a result, in the order in which they are fed. -/
def pieces : Result → List Piece
  | .int n => [.int n]
  | .str s => [.text s]
  | .list items => .items items.length :: piecesOf items
  -- results of other types are not built from these pieces
  | _ => []

/-- The pieces of some results, one after the other. -/
def piecesOf : List Result → List Piece
  | [] => []
  | v :: vs => pieces v ++ piecesOf vs

end

/-- What is fed, as a text. -/
def script (v : Result) : Text := Piece.script v.pieces

/-- The lengths of the pieces, in bytes. -/
def cuts (v : Result) : List Nat := v.pieces.map fun p => (Text.utf8 p.spelled).length

theorem piecesOf_eq_flatMap (items : List Result) : piecesOf items = items.flatMap pieces := by
  induction items with
  | nil => rw [piecesOf, List.flatMap_nil]
  | cons v vs ih => rw [piecesOf, List.flatMap_cons, ih]

@[simp] theorem script_int (n : Int) : script (.int n) = decimalInt n := by
  simp [script, Piece.script, pieces]

@[simp] theorem script_str (s : Text) : script (.str s) = CodePoint.ofChar 's' :: s := by
  simp [script, Piece.script, pieces]

@[simp] theorem script_list (items : List Result) :
    script (.list items) =
      CodePoint.ofChar 'L' :: (decimal items.length ++ items.flatMap script) := by
  simp only [script, Piece.script, pieces, piecesOf_eq_flatMap, List.flatMap_cons,
    Piece.spelled_items, List.cons_append, List.flatMap_assoc]
  rfl

theorem isOver_of_mem_pieces {A : Alphabet} {depth : Nat} {v : Result} (h : Plain A depth v) :
    ∀ p ∈ v.pieces, p.IsOver A := by
  induction h with
  | int h =>
      intro p hp
      rw [pieces, List.mem_singleton] at hp
      exact hp ▸ h
  | str h =>
      intro p hp
      rw [pieces, List.mem_singleton] at hp
      exact hp ▸ h
  | list hlength hitems ih =>
      intro p hp
      rw [pieces, piecesOf_eq_flatMap, List.mem_cons, List.mem_flatMap] at hp
      rcases hp with rfl | ⟨v, hv, hp⟩
      · trivial
      · exact ih v hv p hp

/-! ## Every piece is fed -/

variable {walk : Walk}

theorem map_flatten_mapM {f : Result → Fed} {items : List Result}
    (h : ∀ v ∈ items, f v = Text.encoded v.script) :
    (items.mapM f).map List.flatten = Text.encoded (items.flatMap script) := by
  induction items with
  | nil => rfl
  | cons v vs ih =>
      have hvs := ih fun w hw => h w (List.mem_cons_of_mem v hw)
      rw [List.mapM_cons, List.flatMap_cons, Text.encoded_append, h v List.mem_cons_self, ← hvs]
      cases Text.encoded v.script with
      | error e => rfl
      | ok bytes =>
          cases vs.mapM f with
          | error e => rfl
          | ok parts => rfl

theorem feedWithin_eq_encoded {A : Alphabet} {depth : Nat} {v : Result} (h : Plain A depth v) :
    ∀ {levels : Nat}, depth < levels → walk.feedWithin levels v = Text.encoded v.script := by
  induction h with
  | int h =>
      intro levels hlevels
      obtain ⟨n, rfl⟩ := Nat.exists_eq_add_one.2 (Nat.zero_lt_of_lt hlevels)
      rw [Walk.feedWithin, script_int]
  | str h =>
      intro levels hlevels
      obtain ⟨n, rfl⟩ := Nat.exists_eq_add_one.2 (Nat.zero_lt_of_lt hlevels)
      rw [Walk.feedWithin, script_str]
      rfl
  | @list depth items hlength hitems ih =>
      intro levels hlevels
      obtain ⟨n, rfl⟩ := Nat.exists_eq_add_one.2 (Nat.zero_lt_of_lt hlevels)
      have hfed := map_flatten_mapM (f := walk.feedWithin n) fun v hv => ih v hv (by omega)
      have hcounted : items.length ≤ Walk.greatestLength := hlength
      have hscript : script (.list items) =
          (lit "L" ++ decimal items.length) ++ items.flatMap script := by
        rw [script_list]
        rfl
      rw [Walk.feedWithin, hscript, Text.encoded_append (lit "L" ++ _), ← hfed]
      simp only [hcounted, if_true]
      cases Text.encoded (lit "L" ++ decimal items.length) with
      | error e => rfl
      | ok start =>
          cases items.mapM (walk.feedWithin n) with
          | error e => rfl
          | ok parts => rfl

/-- Within the limits the bytes are those of all pieces, whatever the walk does beyond them. -/
theorem feed_eq_encoded {A : Alphabet} {v : Result} (h : Plain A 8 v) :
    walk.feed v = Text.encoded v.script :=
  feedWithin_eq_encoded h (by decide)

theorem feed_eq_ok_iff {A : Alphabet} {v : Result} {bytes : List UInt8} (h : Plain A 8 v) :
    walk.feed v = .ok bytes ↔ v.script.isScalar = true ∧ bytes = Text.utf8 v.script := by
  rw [feed_eq_encoded h, Text.encoded_eq_ok_iff]

/-- No text of the result holds half of a surrogate pair. -/
def IsScalar (v : Result) : Prop := ∀ s, Piece.text s ∈ v.pieces → s.isScalar = true

theorem isScalar_script_iff {v : Result} : v.script.isScalar = true ↔ v.IsScalar := by
  have hspelled : ∀ p : Piece, p.spelled.isScalar = true ↔ ∀ s, p = .text s → s.isScalar = true := by
    intro p
    cases p with
    | int n => simp [Text.isScalar_decimalInt]
    | text s => simp
    | items count => simp [Text.isScalar_decimal]
  rw [script, Piece.script, Text.isScalar_iff]
  constructor
  · intro h s hs
    refine (hspelled (.text s)).1 (Text.isScalar_iff.2 fun c hc => ?_) s rfl
    exact h c (List.mem_flatMap.2 ⟨_, hs, hc⟩)
  · intro h c hc
    obtain ⟨p, hp, hc⟩ := List.mem_flatMap.1 hc
    exact Text.isScalar_iff.1 ((hspelled p).2 fun s hs => h s (hs ▸ hp)) c hc

/-- A result is fed exactly if none of its texts holds half of a surrogate pair. -/
theorem exists_feed_iff {A : Alphabet} {v : Result} (h : Plain A 8 v) :
    (∃ bytes, walk.feed v = .ok bytes) ↔ v.IsScalar := by
  simp only [feed_eq_ok_iff h, isScalar_script_iff, exists_and_left, exists_eq, and_true]

/-! ## The pieces determine the result -/

/-- Two lists of results of the same length can be told apart by their pieces if their items can. -/
theorem piecesOf_append_inj {items items' : List Result} {r s : List Piece}
    (hread : ∀ v ∈ items, ∀ w ∈ items', ∀ {r s : List Piece},
      v.pieces ++ r = w.pieces ++ s → v = w ∧ r = s)
    (hcount : items.length = items'.length) (h : piecesOf items ++ r = piecesOf items' ++ s) :
    items = items' ∧ r = s := by
  induction items generalizing items' with
  | nil =>
      obtain rfl := List.eq_nil_of_length_eq_zero hcount.symm
      exact ⟨rfl, h⟩
  | cons v vs ih =>
      cases items' with
      | nil => simp at hcount
      | cons w ws =>
          rw [piecesOf, piecesOf, List.append_assoc, List.append_assoc] at h
          obtain ⟨rfl, htail⟩ := hread v List.mem_cons_self w List.mem_cons_self h
          have hrest := ih (fun u hu u' hu' =>
            hread u (List.mem_cons_of_mem _ hu) u' (List.mem_cons_of_mem _ hu'))
          obtain ⟨rfl, hrs⟩ := hrest (Nat.succ.inj hcount) htail
          exact ⟨rfl, hrs⟩

/-- A result can be read from its pieces, whatever follows them. -/
theorem pieces_append_inj {A B : Alphabet} {depth : Nat} {v : Result} (hv : Plain A depth v) :
    ∀ {depth' : Nat} {w : Result} {r s : List Piece}, Plain B depth' w →
      v.pieces ++ r = w.pieces ++ s → v = w ∧ r = s := by
  induction hv with
  | int h =>
      intro depth' w r s hw heq
      cases hw with
      | int h' => simpa [pieces] using heq
      | str h' => simp [pieces] at heq
      | list hlength' hitems' => simp [pieces] at heq
  | str h =>
      intro depth' w r s hw heq
      cases hw with
      | int h' => simp [pieces] at heq
      | str h' => simpa [pieces] using heq
      | list hlength' hitems' => simp [pieces] at heq
  | list hlength hitems ih =>
      intro depth' w r s hw heq
      cases hw with
      | int h' => simp [pieces] at heq
      | str h' => simp [pieces] at heq
      | list hlength' hitems' =>
          simp only [pieces, List.cons_append, List.cons.injEq, Piece.items.injEq] at heq
          obtain ⟨hcount, hrest⟩ := heq
          -- as many items follow as the length says
          obtain ⟨rfl, hrs⟩ := piecesOf_append_inj (fun v hv w hw => ih v hv (hitems' w hw)) hcount hrest
          exact ⟨rfl, hrs⟩

theorem eq_of_pieces_eq {A B : Alphabet} {depth depth' : Nat} {v w : Result} (hv : Plain A depth v)
    (hw : Plain B depth' w) (h : v.pieces = w.pieces) : v = w := by
  have happend : v.pieces ++ [] = w.pieces ++ [] := by rw [h]
  exact (pieces_append_inj hv hw happend).1

/-- The bytes and the cuts together determine the result. -/
theorem eq_iff_feed_cuts {A B : Alphabet} {v w : Result} {bytes bytes' : List UInt8}
    (hv : Plain A 8 v) (hw : Plain B 8 w) (hfeed : walk.feed v = .ok bytes)
    (hfeed' : walk.feed w = .ok bytes') : v = w ↔ bytes = bytes' ∧ v.cuts = w.cuts := by
  obtain ⟨-, rfl⟩ := (feed_eq_ok_iff hv).1 hfeed
  obtain ⟨-, rfl⟩ := (feed_eq_ok_iff hw).1 hfeed'
  constructor
  · rintro rfl
    exact ⟨rfl, rfl⟩
  · rintro ⟨hbytes, hcuts⟩
    have hflatten : ∀ u : Result, Text.utf8 u.script =
        (u.pieces.map fun p => Text.utf8 p.spelled).flatten := by
      intro u
      rw [script, Piece.script, Text.utf8, List.flatMap_assoc, List.flatMap_def]
      rfl
    rw [hflatten, hflatten] at hbytes
    -- equal bytes that are cut at the same places have equal pieces
    have hcut : (v.pieces.map fun p => Text.utf8 p.spelled) =
        w.pieces.map fun p => Text.utf8 p.spelled := by
      apply List.eq_iff_flatten_eq.2 ⟨hbytes, ?_⟩
      rw [List.map_map, List.map_map]
      exact hcuts
    have hpieces : v.pieces = w.pieces :=
      (List.map_inj_right fun p q h => Piece.spelled_injective (Text.utf8_injective h)).1 hcut
    exact eq_of_pieces_eq hv hw hpieces

end Result

end ModuleStubs
