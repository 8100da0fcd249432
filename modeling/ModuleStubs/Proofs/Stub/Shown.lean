import ModuleStubs.Proofs.Json.Fields
import ModuleStubs.Proofs.Stub.Visits

/-!
# What a node is written with

A stub shows some values of a node: its name, type, doc and value, and the names and types of its signature
(`shownValues`). The parameters and the type comment of a function are texts of these values, or one of a few
texts that are always the same (`fixedTexts`). So what holds of all of them holds of what is read from
the head of a function (`shown_of_readHead`).
-/

set_option autoImplicit false

namespace ModuleStubs

namespace Stub

/-- The values of a signature that are shown. -/
def signatureValues (signature : Json) : List Json :=
  (signature.field? (lit "return-type")).toList ++
    match signature.field? (lit "args") with
    | some (.list arguments) => arguments.flatMap fun a =>
        (a.field? (lit "name")).toList ++ (a.field? (lit "type")).toList
    | _ => []

/-- The values of a node that are shown: its name, type, doc and value, and those of its signature. -/
def shownValues : Json → List Json
  | .object fields =>
    [lit "name", lit "type", lit "doc", lit "value"].filterMap (Record.get? · fields) ++
      (Record.get? (lit "signature") fields).toList.flatMap signatureValues
  | _ => []

/-- The texts that stand for what a signature does not say. -/
def fixedTexts : List Text := [lit "Any", lit "self", lit "*args", lit "**kwargs"]

theorem eq_map_str_of_textsFrom {vs : List Json} {i : Nat} {ts : List Text}
    (h : textsFrom i vs = .ok ts) : vs = ts.map .str := by
  induction vs generalizing i ts with
  | nil =>
      obtain rfl := Except.ok.inj h
      rfl
  | cons v vs ih =>
      cases v with
      | str t =>
          obtain ⟨us, hus, rfl⟩ := except_map_eq_ok.1 h
          rw [List.map_cons, ← ih hus]
      | _ => contradiction

theorem fieldOr_eq_ok {v w default : Json} {key : Text} (h : v.fieldOr key default = .ok w) :
    (∃ fields, v = .object fields) ∧ w = (v.field? key).getD default := by
  cases v with
  | object fields => exact ⟨⟨fields, rfl⟩, (Except.ok.inj h).symm⟩
  | _ => contradiction

section Signature

variable {P : Text → Prop} {signature args : Json} {arguments : List Json}

/-- An argument that is an object is an item of the list of arguments. -/
theorem mem_arguments {fields : Record Json}
    (hargs : signature.fieldOr (lit "args") .null = .ok args) (helements : args.elements = .ok arguments)
    (hmem : Json.object fields ∈ arguments) :
    signature.field? (lit "args") = some (.list arguments) := by
  obtain ⟨-, rfl⟩ := fieldOr_eq_ok hargs
  by_cases hlist : ∃ items, (signature.field? (lit "args")).getD .null = .list items
  · obtain ⟨items, hitems⟩ := hlist
    rw [hitems] at helements
    obtain rfl := Except.ok.inj helements
    cases hfield : signature.field? (lit "args") with
    | none => simp [hfield] at hitems
    | some v => rw [← hitems, hfield, Option.getD_some]
  -- the parts of all other values are texts
  · obtain ⟨t, ht⟩ := Json.eq_str_of_mem_elements (fun items h => hlist ⟨items, h⟩) helements hmem
    contradiction

/-- The texts that are read from a signature are those of its values, or stand for a missing type. -/
theorem shown_of_readSignature (hany : P (lit "Any")) {names : List Json} {comment : Comment}
    (h : readSignature signature = .ok (names, comment))
    (hvalues : ∀ x ∈ signatureValues signature, P x.display) :
    (∀ n ∈ names, P n.display) ∧ (∀ t ∈ comment.types, P t) ∧ P comment.returned := by
  obtain ⟨args, hargs, h⟩ := except_bind_eq_ok.1 h
  obtain ⟨arguments, helements, h⟩ := except_bind_eq_ok.1 h
  obtain ⟨names', hnames, h⟩ := except_bind_eq_ok.1 h
  obtain ⟨types, htypes, h⟩ := except_bind_eq_ok.1 h
  obtain ⟨returned, hreturned, h⟩ := except_bind_eq_ok.1 h
  obtain ⟨texts, htexts, h⟩ := except_bind_eq_ok.1 h
  obtain ⟨rfl, rfl⟩ := Prod.mk.inj (Except.ok.inj h)
  -- what an argument says under one of the two keys is a value of the signature
  have hargument : ∀ a ∈ arguments, ∀ key ∈ [lit "name", lit "type"], ∀ v, a.field? key = some v →
      P v.display := by
    intro a ha key hkey v hv
    obtain ⟨fields, rfl⟩ := Json.eq_object_of_field? hv
    refine hvalues v (List.mem_append_right _ ?_)
    rw [mem_arguments hargs helements ha]
    refine List.mem_flatMap.2 ⟨_, ha, ?_⟩
    simp only [List.mem_cons, List.not_mem_nil, or_false] at hkey
    rcases hkey with rfl | rfl
    · exact List.mem_append_left _ (Option.mem_toList.2 hv)
    · exact List.mem_append_right _ (Option.mem_toList.2 hv)
  refine ⟨?_, ?_, ?_⟩
  · intro n hn
    obtain ⟨a, ha, hname⟩ := exists_of_mem_mapM hnames n hn
    exact hargument a ha _ (by simp) n (Json.index_eq_ok_iff.1 hname)
  · intro t ht
    have hmem : Json.str t ∈ types := by
      rw [eq_map_str_of_textsFrom htexts]
      exact List.mem_map_of_mem ht
    obtain ⟨a, ha, htype⟩ := exists_of_mem_mapM htypes _ hmem
    obtain ⟨-, htype⟩ := fieldOr_eq_ok htype
    cases hfield : a.field? (lit "type") with
    | none =>
        rw [hfield] at htype
        rw [show t = lit "Any" from Json.str.inj htype]
        exact hany
    | some v =>
        rw [hfield] at htype
        obtain rfl : Json.str t = v := htype
        exact hargument a ha _ (by simp) _ hfield
  · obtain ⟨-, rfl⟩ := fieldOr_eq_ok hreturned
    cases hfield : signature.field? (lit "return-type") with
    | none => exact hany
    | some v => exact hvalues v (List.mem_append_left _ (Option.mem_toList.2 hfield))

end Signature

/-- The parameters of a function are read from its signature, or stand for any; a method has one more. -/
theorem readHead_eq_ok {fields : Record Json} {isMethod : Bool} {parameters : List Text}
    {comment : Option Comment} (h : readHead isMethod fields = .ok (parameters, comment)) :
    ∃ names, (if isMethod then Json.str (lit "self") :: names else names) = parameters.map .str ∧
      (Record.get? (lit "signature") fields = none ∧ names = anyParameters ∧ comment = none ∨
        ∃ signature c, Record.get? (lit "signature") fields = some signature ∧
          readSignature signature = .ok (names, c) ∧ comment = some c) := by
  rw [readHead] at h
  cases hsignature : Record.get? (lit "signature") fields with
  | none =>
      rw [hsignature] at h
      obtain ⟨head, hhead, h⟩ := except_bind_eq_ok.1 h
      obtain rfl := Except.ok.inj hhead
      obtain ⟨texts, htexts, h⟩ := except_bind_eq_ok.1 h
      obtain ⟨rfl, rfl⟩ := Prod.mk.inj (Except.ok.inj h)
      exact ⟨anyParameters, eq_map_str_of_textsFrom htexts, Or.inl ⟨rfl, rfl, rfl⟩⟩
  | some signature =>
      rw [hsignature] at h
      obtain ⟨⟨names, c⟩, hread, h⟩ := except_bind_eq_ok.1 h
      obtain ⟨head, hhead, h⟩ := except_bind_eq_ok.1 h
      obtain rfl := Except.ok.inj hhead
      obtain ⟨texts, htexts, h⟩ := except_bind_eq_ok.1 h
      obtain ⟨rfl, rfl⟩ := Prod.mk.inj (Except.ok.inj h)
      exact ⟨names, eq_map_str_of_textsFrom htexts, Or.inr ⟨signature, c, rfl, hread, rfl⟩⟩

/-- The parameters and the type comment of a function are texts that the node shows, or fixed ones. -/
theorem shown_of_readHead {P : Text → Prop} (hfixed : ∀ t ∈ fixedTexts, P t) {fields : Record Json}
    {isMethod : Bool} {parameters : List Text} {comment : Option Comment}
    (h : readHead isMethod fields = .ok (parameters, comment))
    (hvalues : ∀ x ∈ shownValues (.object fields), P x.display) :
    (∀ p ∈ parameters, P p) ∧ ∀ c, comment = some c → (∀ t ∈ c.types, P t) ∧ P c.returned := by
  obtain ⟨names, hnames, horigin⟩ := readHead_eq_ok h
  have hparts : (∀ n ∈ names, P n.display) ∧
      ∀ c, comment = some c → (∀ t ∈ c.types, P t) ∧ P c.returned := by
    rcases horigin with ⟨-, rfl, rfl⟩ | ⟨signature, c, hsignature, hread, rfl⟩
    · refine ⟨?_, by simp⟩
      simp only [anyParameters, List.forall_mem_cons]
      exact ⟨hfixed _ (by decide), hfixed _ (by decide), List.forall_mem_nil _⟩
    · obtain ⟨hnamed, hcomment⟩ := shown_of_readSignature (hfixed _ (by decide)) hread fun x hx =>
        hvalues x (List.mem_append_right _ (by simpa [hsignature] using hx))
      refine ⟨hnamed, ?_⟩
      rintro c' hc'
      obtain rfl := Option.some.inj hc'
      exact hcomment
  refine ⟨?_, hparts.2⟩
  intro p hp
  have hmem : Json.str p ∈ (if isMethod then Json.str (lit "self") :: names else names) := by
    rw [hnames]
    exact List.mem_map_of_mem hp
  cases isMethod with
  | false => exact hparts.1 _ hmem
  | true =>
      rcases List.mem_cons.1 hmem with hself | hname
      · rw [Json.str.inj hself]
        exact hfixed _ (by decide)
      · exact hparts.1 _ hname

end Stub

end ModuleStubs
