import ModuleStubs.Proofs.Annotation.Unconfigured
import ModuleStubs.Proofs.Extract.Walk

/-!
# Which skeletons can be annotated

The skeleton of a module, as JSON (`Wire.Datum.image?`), has what annotating looks at: every node has a name,
a type, docs that are texts and members that are a list (`skeleton_of_image`). But a skeleton has no field for
members that are cut off by the greatest depth, or that cannot be listed, and annotating wants one of the module
and of each member that is a class or a type by the name of its type (`annotate_image_completes_iff`).
-/

set_option autoImplicit false

namespace ModuleStubs

/-! ## Data as JSON -/

namespace Wire

/-- The JSON value of an atom. Foreign objects have none. -/
def Atom.image? : Atom → Option Json
  | .null => some .null
  | .bool b => some (.bool b)
  | .int n => some (.int n)
  | .float x _ => some (.float x)
  | .str s => some (.str s)
  | .foreign _ => none

/-- The text of a key that is one. -/
def Key.text? : Key → Option Text
  | .atom (.str s) => some s
  | _ => none

namespace Datum

mutual

/-- The JSON value of data whose keys are texts. -/
def image? : Datum → Option Json
  | .atom a => a.image?
  | .list items => (itemImages? items).map .list
  | .dict fields => (fieldImages? fields).map .object

/-- The JSON values of the items of a list. -/
def itemImages? : List Datum → Option (List Json)
  | [] => some []
  | d :: ds => do
    let v ← image? d
    let vs ← itemImages? ds
    return v :: vs

/-- The JSON values of the fields of a dictionary. -/
def fieldImages? : List (Key × Datum) → Option (Record Json)
  | [] => some []
  | (k, d) :: fs => do
    let key ← k.text?
    let v ← image? d
    let r ← fieldImages? fs
    return (key, v) :: r

end

/-- The values of the items are those of a list, and there are no others. -/
theorem mem_itemImages? {ds : List Datum} {vs : List Json} (h : itemImages? ds = some vs) :
    (∀ d ∈ ds, ∃ v ∈ vs, d.image? = some v) ∧ ∀ v ∈ vs, ∃ d ∈ ds, d.image? = some v := by
  induction ds generalizing vs with
  | nil =>
      obtain rfl := Option.some.inj h
      exact ⟨nofun, nofun⟩
  | cons d ds ih =>
      obtain ⟨v, hv, h⟩ := Option.bind_eq_some_iff.1 h
      obtain ⟨vs', hvs, h⟩ := Option.bind_eq_some_iff.1 h
      obtain rfl := Option.some.inj h
      obtain ⟨hto, hfrom⟩ := ih hvs
      constructor
      · refine List.forall_mem_cons.2 ⟨⟨v, List.mem_cons_self, hv⟩, ?_⟩
        intro d' hd'
        obtain ⟨w, hw, heq⟩ := hto d' hd'
        exact ⟨w, List.mem_cons_of_mem v hw, heq⟩
      · refine List.forall_mem_cons.2 ⟨⟨d, List.mem_cons_self, hv⟩, ?_⟩
        intro w hw
        obtain ⟨d', hd', heq⟩ := hfrom w hw
        exact ⟨d', List.mem_cons_of_mem d hd', heq⟩

/-- A record as JSON is an object with the values of its fields. -/
theorem image?_record {fields : List (Text × Datum)} {v : Json}
    (h : (record fields).image? = some v) :
    ∃ r, v = .object r ∧
      (∀ key, Record.get? key fields = none → Record.get? key r = none) ∧
      ∀ key d, Record.get? key fields = some d →
        ∃ w, d.image? = some w ∧ Record.get? key r = some w := by
  obtain ⟨r, hr, rfl⟩ := Option.map_eq_some_iff.1 h
  refine ⟨r, rfl, ?_⟩
  clear h
  induction fields generalizing r with
  | nil =>
      obtain rfl := Option.some.inj hr
      exact ⟨fun key _ => rfl, nofun⟩
  | cons f fields ih =>
      obtain ⟨k, d⟩ := f
      obtain ⟨v, hv, hr⟩ := Option.bind_eq_some_iff.1 hr
      obtain ⟨r', hr', heq⟩ := Option.bind_eq_some_iff.1 hr
      obtain rfl := Option.some.inj heq
      obtain ⟨hnone, hsome⟩ := ih r' hr'
      simp only [Record.get?]
      constructor
      · intro key hkey
        split at hkey
        · contradiction
        · rename_i hne
          rw [if_neg hne]
          exact hnone key hkey
      · intro key d' hkey
        split at hkey
        · rename_i heq
          obtain rfl := Option.some.inj hkey
          exact ⟨v, hv, if_pos heq⟩
        · rename_i hne
          rw [if_neg hne]
          exact hsome key d' hkey

end Datum

end Wire

namespace DocTree

open Annotator (annotate annotate_null_completes_iff)

variable {P : Json → Prop}

/-! ## Skeletons as JSON -/

theorem toData_eq_map (ts : List DocTree) : toData ts = ts.map toDatum := by
  induction ts with
  | nil => rfl
  | cons t ts ih => rw [toData, ih, List.map_cons]

/-- The values of skeletons are those of a list, and there are no others. -/
theorem mem_images {ts : List DocTree} {items : List Json}
    (h : Wire.Datum.itemImages? (toData ts) = some items) :
    (∀ t ∈ ts, ∃ x ∈ items, t.toDatum.image? = some x) ∧
      ∀ x ∈ items, ∃ t ∈ ts, t.toDatum.image? = some x := by
  obtain ⟨hto, hfrom⟩ := Wire.Datum.mem_itemImages? h
  rw [toData_eq_map] at hto hfrom
  constructor
  · intro t ht
    exact hto _ (List.mem_map_of_mem ht)
  · intro x hx
    obtain ⟨d, hd, hx⟩ := hfrom x hx
    obtain ⟨t, ht, rfl⟩ := List.mem_map.1 hd
    exact ⟨t, ht, hx⟩

theorem get?_contentFields {key : Text}
    (h : key ∉ [lit "value", lit "getter", lit "setter", lit "deleter"]) (content : Content) :
    Record.get? key (contentFields content) = none := by
  simp only [List.mem_cons, List.not_mem_nil, or_false, not_or] at h
  obtain ⟨hvalue, hgetter, hsetter, hdeleter⟩ := h
  cases content with
  | nothing => rfl
  | plain v => simp [contentFields, Record.get?, Ne.symm hvalue]
  | entries items => simp [contentFields, Record.get?, Ne.symm hvalue]
  | access getter setter deleter =>
      simp [contentFields, Record.get?, Ne.symm hgetter, Ne.symm hsetter, Ne.symm hdeleter]

/-- The fields of a skeleton as JSON. -/
structure HasImage (name type : Text) (doc : Option Text) (members : Option (List DocTree))
    (v : Json) : Prop where
  name : v.field? (lit "name") = some (.str name)
  type : v.field? (lit "type") = some (.str type)
  doc : v.field? (lit "doc") = doc.map .str
  signature : v.field? (lit "signature") = none
  unlisted : members = none → v.field? (lit "members") = none
  listed : ∀ ts, members = some ts → ∃ items, v.field? (lit "members") = some (.list items) ∧
    Wire.Datum.itemImages? (toData ts) = some items

theorem hasImage {name type : Text} {content : Content} {doc : Option Text}
    {members : Option (List DocTree)} {v : Json}
    (h : (node name type content doc members).toDatum.image? = some v) :
    HasImage name type doc members v := by
  rw [toDatum.eq_def] at h
  obtain ⟨r, rfl, hnone, hsome⟩ := Wire.Datum.image?_record h
  simp only [Record.get?_append] at hnone hsome
  -- what is shown beside the members has fields of other names
  have hother : ∀ key ∈ [lit "doc", lit "signature", lit "members"],
      Record.get? key (contentFields content) = none := by
    intro key hkey
    refine get?_contentFields ?_ content
    revert key
    decide
  have hdoc := hother (lit "doc") (by decide)
  have hsignature := hother (lit "signature") (by decide)
  have hmembers := hother (lit "members") (by decide)
  constructor
  · obtain ⟨w, hw, hfield⟩ := hsome (lit "name") (.str name) rfl
    rwa [← Option.some.inj hw] at hfield
  · obtain ⟨w, hw, hfield⟩ := hsome (lit "type") (.str type) rfl
    rwa [← Option.some.inj hw] at hfield
  · cases doc with
    | none =>
        refine hnone (lit "doc") ?_
        rw [hdoc]
        cases members <;> rfl
    | some d =>
        obtain ⟨w, hw, hfield⟩ := hsome (lit "doc") (.str d) (by rw [hdoc]; rfl)
        rwa [← Option.some.inj hw] at hfield
  · refine hnone (lit "signature") ?_
    rw [hsignature]
    cases doc <;> cases members <;> rfl
  · rintro rfl
    refine hnone (lit "members") ?_
    rw [hmembers]
    cases doc <;> rfl
  · rintro ts rfl
    obtain ⟨w, hw, hfield⟩ := hsome (lit "members") (.list (toData ts)) (by
      rw [hmembers]
      cases doc <;> rfl)
    obtain ⟨items, hitems, rfl⟩ := Option.map_eq_some_iff.1 hw
    exact ⟨items, hfield, hitems⟩

/-- A skeleton as JSON has the fields of a skeleton, and no signatures. -/
theorem skeleton_of_image : ∀ (t : DocTree) {v : Json}, t.toDatum.image? = some v → Skeleton P v
  | .node name type content doc members, v, h => by
      have himage := hasImage h
      refine Skeleton.iff_fields.2 ⟨⟨name, himage.name⟩, ⟨type, himage.type⟩, ?_, ?_, ?_⟩
      · intro w hw
        rw [himage.doc] at hw
        obtain ⟨d, -, rfl⟩ := Option.map_eq_some_iff.1 hw
        exact ⟨d, rfl⟩
      · intro s hs
        rw [himage.signature] at hs
        contradiction
      · intro w hw
        cases hmembers : members with
        | none =>
            rw [himage.unlisted hmembers] at hw
            contradiction
        | some ts =>
            obtain ⟨items, hitems, himages⟩ := himage.listed ts hmembers
            obtain rfl := Option.some.inj (hitems.symm.trans hw)
            refine ⟨items, rfl, ?_⟩
            intro x hx
            obtain ⟨t, ht, hx⟩ := (mem_images himages).2 x hx
            have hsize : sizeOf t < sizeOf members := by
              have hlist := List.sizeOf_lt_of_mem ht
              rw [hmembers]
              simp
              omega
            exact skeleton_of_image t hx
termination_by t => sizeOf t
decreasing_by
  simp
  omega

/-! ## Skeletons of modules -/

section Modules

variable {ρ : Type} [DecidableEq ρ] {memory : Memory ρ} {greatest : Int} {room : Nat} {p : Place ρ}

/-- The object at a place is a class, or a type, by the name of its type. -/
def IsTypeLike (memory : Memory ρ) (p : Place ρ) : Prop :=
  (memory p.object).typeName = lit "class" ∨ (memory p.object).typeName = lit "type"

/-- A skeleton has the name it was made under and the type of its object, and members where they are
listed. -/
theorem make_eq_node {t : DocTree} (h : (make memory greatest room p).result = .ok t) :
    ∃ content doc members, t = .node p.name (memory p.object).typeName content doc members ∧
      (members.isSome = true ↔ ListsMembers memory greatest p) := by
  cases room with
  | zero => contradiction
  | succ room =>
      obtain ⟨content, members, rfl, -, hmembers, -⟩ := make_completed h
      exact ⟨content, _, members, rfl, (makeMembers_completed hmembers).1⟩

/-- The skeleton of an object as JSON: its name, its type, and whether it has members. -/
structure ImageOf (memory : Memory ρ) (greatest : Int) (p : Place ρ) (x : Json) : Prop where
  name : x.field? (lit "name") = some (.str p.name)
  type : x.field? (lit "type") = some (.str (memory p.object).typeName)
  members : (∃ items, x.field? (lit "members") = some (.list items)) ↔
    ListsMembers memory greatest p

theorem imageOf_make {t : DocTree} {x : Json} (ht : (make memory greatest room p).result = .ok t)
    (hx : t.toDatum.image? = some x) : ImageOf memory greatest p x := by
  obtain ⟨content, doc, members, rfl, hmembers⟩ := make_eq_node ht
  have himage := hasImage hx
  refine ⟨himage.name, himage.type, ?_⟩
  rw [← hmembers]
  cases hsome : members with
  | none => simp [himage.unlisted hsome]
  | some ts =>
      obtain ⟨items, hitems, -⟩ := himage.listed ts hsome
      simp [hitems]

omit [DecidableEq ρ] in
theorem ImageOf.isTypeNode_iff {x : Json} (h : ImageOf memory greatest p x) :
    x.IsTypeNode ↔ IsTypeLike memory p := by
  simp [Json.IsTypeNode, IsTypeLike, h.type]

/-- The members of a skeleton as JSON are those of the places right below. -/
theorem forall_members_image_iff {t : DocTree} {x : Json} {items : List Json}
    (ht : (make memory greatest room p).result = .ok t) (hx : t.toDatum.image? = some x)
    (hitems : x.field? (lit "members") = some (.list items)) {Q : Json → Prop} {R : Place ρ → Prop}
    (hQ : ∀ q y, ImageOf memory greatest q y → (Q y ↔ R q)) :
    (∀ y ∈ items, Q y) ↔ ∀ q, Below memory greatest p .member q → R q := by
  cases room with
  | zero => contradiction
  | succ room =>
      have hnested := (make_completes_iff.1 ⟨t, ht⟩).2 .member
      obtain ⟨content, members, rfl, -, hmembers, -⟩ := make_completed ht
      have himage := hasImage hx
      obtain ⟨-, hparts, -⟩ := makeMembers_completed hmembers
      cases hts : members with
      | none =>
          rw [himage.unlisted hts] at hitems
          contradiction
      | some ts =>
          obtain ⟨items', hitems', himages⟩ := himage.listed ts hts
          obtain rfl := Json.list.inj (Option.some.inj (hitems.symm.trans hitems'))
          obtain ⟨hto, hfrom⟩ := mem_images himages
          constructor
          · intro hall q hq
            obtain ⟨u, hu⟩ := hnested q hq
            obtain ⟨ts', heq, hmem⟩ := (hparts u).2 ⟨q, hq, hu⟩
            obtain rfl := Option.some.inj (hts.symm.trans heq)
            obtain ⟨y, hy, hyimage⟩ := hto u hmem
            exact (hQ q y (imageOf_make hu hyimage)).1 (hall y hy)
          · intro hall y hy
            obtain ⟨u, hmem, hyimage⟩ := hfrom y hy
            obtain ⟨q, hq, hu⟩ := (hparts u).1 ⟨ts, hts, hmem⟩
            exact (hQ q y (imageOf_make hu hyimage)).2 (hall q hq)

/-- The skeleton of a module whose classes have identifiers as their names can be annotated without a
configuration if and only if its members are listed, and so are those of each shown member that is a class or a
type by the name of its type: it is a container above the greatest depth whose attributes can be listed. -/
theorem annotate_image_completes_iff {o : ρ} {name : Text} {t : DocTree} {v : Json} {verbosity : Int}
    (hmodule : (memory o).typeName = lit "module")
    (ht : (make memory greatest room ⟨o, name, 0, false⟩).result = .ok t)
    (hv : t.toDatum.image? = some v)
    (hnames : ∀ q, Below memory greatest ⟨o, name, 0, false⟩ .member q → IsTypeLike memory q →
      ∀ c, (memory q.object).form = .container c → isIdentifier q.name = true) :
    (annotate .null verbosity v).failure = none ↔
      ListsMembers memory greatest ⟨o, name, 0, false⟩ ∧
        ∀ q, Below memory greatest ⟨o, name, 0, false⟩ .member q → IsTypeLike memory q →
          ListsMembers memory greatest q := by
  have himage := imageOf_make ht hv
  have htype : v.field? (lit "type") = some (.str (lit "module")) := by
    rw [himage.type]
    exact congrArg (fun t => some (Json.str t)) hmodule
  have hskeleton : Skeleton (fun _ => False) v := skeleton_of_image t hv
  rw [annotate_null_completes_iff hskeleton htype, ← himage.members]
  -- what annotating wants of a member as JSON is what is wanted of its place
  have hmember : ∀ q y, ImageOf memory greatest q y →
      ((y.IsTypeNode → (∃ part, y.field? (lit "name") = some (.str part) ∧ isIdentifier part = true) ∧
          ∃ members, y.field? (lit "members") = some (.list members)) ↔
        (IsTypeLike memory q → isIdentifier q.name = true ∧ ListsMembers memory greatest q)) := by
    intro q y hy
    rw [hy.isTypeNode_iff, hy.members]
    simp [hy.name]
  constructor
  · rintro ⟨items, hitems, hall⟩
    refine ⟨⟨items, hitems⟩, fun q hq hlike => ?_⟩
    exact ((forall_members_image_iff ht hv hitems hmember).1 hall q hq hlike).2
  · rintro ⟨⟨items, hitems⟩, hall⟩
    refine ⟨items, hitems, (forall_members_image_iff ht hv hitems hmember).2 fun q hq hlike => ?_⟩
    have hlists := hall q hq hlike
    obtain ⟨c, -, hform, -⟩ := hlists
    exact ⟨hnames q hq hlike c hform, hall q hq hlike⟩

end Modules

/-- A module with a class that has a method. -/
def classMemory : Memory Nat := .ofObjects
  ⟨lit "module", none, none, .error [], .container ⟨.ok [(lit "A", 1)], []⟩⟩
  [⟨lit "class", none, none, .error [], .container ⟨.ok [(lit "kill", 2)], []⟩⟩,
   ⟨lit "instancemethod", none, some (lit "void (int)"), .error [], .other⟩]

theorem below_classMemory {greatest : Int} {q : Place Nat}
    (h : Below classMemory greatest ⟨0, lit "Ext", 0, false⟩ .member q) :
    q = ⟨1, lit "A", 1, false⟩ := by
  cases h with
  | member hform _ hlisted ho _ =>
      obtain rfl := Form.container.inj hform
      obtain rfl := Except.ok.inj hlisted
      obtain ⟨rfl, rfl⟩ := Prod.mk.inj (List.mem_singleton.1 (Record.mem_of_get? ho))
      rfl

/-- Its skeleton as JSON. -/
def classImage : Json :=
  .object [(lit "name", .str (lit "Ext")), (lit "type", .str (lit "module")),
    (lit "members", .list [.object [(lit "name", .str (lit "A")), (lit "type", .str (lit "class")),
      (lit "members", .list [.object [(lit "name", .str (lit "kill")),
        (lit "type", .str (lit "instancemethod")), (lit "doc", .str (lit "void (int)"))]])]])]

/-- A closed skeleton is evaluated to its JSON, which is compared. -/
theorem exists_image_of_eq {making : Making DocTree} {v : Json}
    (h : (making.result.toOption.bind fun t => t.toDatum.image?) = some v) :
    ∃ t, making.result = .ok t ∧ t.toDatum.image? = some v := by
  obtain ⟨t, ht, hv⟩ := Option.bind_eq_some_iff.1 h
  exact ⟨t, except_eq_ok_of_toOption ht, hv⟩

/-- Down to the members of the class the skeleton can be annotated. -/
theorem annotate_classImage_completes :
    (∃ t, (make classMemory 2 3 ⟨0, lit "Ext", 0, false⟩).result = .ok t ∧
      t.toDatum.image? = some classImage) ∧
      (annotate .null 0 classImage).failure = none := by
  obtain ⟨t, ht, hv⟩ := @exists_image_of_eq (make classMemory 2 3 ⟨0, lit "Ext", 0, false⟩) classImage
    (by decide +kernel)
  refine ⟨⟨t, ht, hv⟩, (annotate_image_completes_iff rfl ht hv ?_).2 ⟨?_, ?_⟩⟩
  · intro q hq _ c _
    obtain rfl := below_classMemory hq
    decide
  · exact ⟨_, _, rfl, by decide, rfl, by decide⟩
  · intro q hq _
    obtain rfl := below_classMemory hq
    exact ⟨_, _, rfl, by decide, rfl, by decide⟩

/-- A module with a class whose members cannot be listed. -/
def closedMemory : Memory Nat := .ofObjects
  ⟨lit "module", none, none, .error [], .container ⟨.ok [(lit "A", 1)], []⟩⟩
  [⟨lit "type", none, none, .error [], .container ⟨.error (lit "closed"), []⟩⟩]

/-- With less depth than that it cannot, and neither can a skeleton with a class whose members cannot be listed,
although the only class has a name that is an identifier. -/
theorem annotate_cut_skeletons : isIdentifier (lit "A") = true ∧
    (∀ greatest ∈ ([0, 1] : List Int), ∃ t v,
      (make classMemory greatest 3 ⟨0, lit "Ext", 0, false⟩).result = .ok t ∧
      t.toDatum.image? = some v ∧
      (annotate .null 0 v).failure = some (.missingKey (lit "members"))) ∧
    ∃ t v, (make closedMemory 3 3 ⟨0, lit "Ext", 0, false⟩).result = .ok t ∧
      t.toDatum.image? = some v ∧
      (annotate .null 0 v).failure = some (.missingKey (lit "members")) := by
  refine ⟨by decide, fun greatest hgreatest => ?_, ?_⟩
  · simp only [List.mem_cons, List.not_mem_nil, or_false] at hgreatest
    rcases hgreatest with rfl | rfl
    · obtain ⟨t, ht, hv⟩ := @exists_image_of_eq (make classMemory 0 3 ⟨0, lit "Ext", 0, false⟩)
        (.object [(lit "name", .str (lit "Ext")), (lit "type", .str (lit "module"))])
        (by decide +kernel)
      exact ⟨t, _, ht, hv, rfl⟩
    · obtain ⟨t, ht, hv⟩ := @exists_image_of_eq (make classMemory 1 3 ⟨0, lit "Ext", 0, false⟩)
        (.object [(lit "name", .str (lit "Ext")), (lit "type", .str (lit "module")),
          (lit "members", .list [.object [(lit "name", .str (lit "A")),
            (lit "type", .str (lit "class"))]])])
        (by decide +kernel)
      exact ⟨t, _, ht, hv, rfl⟩
  · obtain ⟨t, ht, hv⟩ := @exists_image_of_eq (make closedMemory 3 3 ⟨0, lit "Ext", 0, false⟩)
      (.object [(lit "name", .str (lit "Ext")), (lit "type", .str (lit "module")),
        (lit "members", .list [.object [(lit "name", .str (lit "A")),
          (lit "type", .str (lit "type"))]])])
      (by decide +kernel)
    exact ⟨t, _, ht, hv, rfl⟩

end DocTree

end ModuleStubs
