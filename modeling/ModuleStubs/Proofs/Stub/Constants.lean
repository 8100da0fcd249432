import ModuleStubs.Proofs.Literal
import ModuleStubs.Proofs.Stub.Bodies

/-!
# Right sides of constants

A node with a value that is neither a class nor a function is written as one assignment. Its right side is
the literal of the value, and read as the value up to the comment, for all values but two kinds
(`constant_read_iff`): a string is written without quotes, and numbers that are not finite have names for
literals.
-/

set_option autoImplicit false

namespace ModuleStubs

namespace Stub

/-- The types of the nodes that have a form of their own. -/
def formedTypes : List Text := [lit "type", lit "class", lit "function", lit "instancemethod"]

/-- What stands behind the right side of a constant. -/
def typeNote (type : Json) : Text := lit " # type: " ++ type.display ++ lit "\n"

/-- The run writes one assignment with the given right side and nothing else. -/
def Assigns (indent : Text) (name type : Json) (right : Text) (run : Writing Unit) : Prop :=
  run = ⟨[.write (indent ++ name.display ++ lit " = " ++ right ++ typeNote type)], .ok ()⟩

/-! ## The line of a constant -/

section Line

variable {fields : Record Json} {type name value : Json}

theorem writeNode_of_other (htype : Record.get? (lit "type") fields = some type)
    (hname : Record.get? (lit "name") fields = some name)
    (hforms : ∀ form ∈ formedTypes, type ≠ .str form) (indent path : Text) :
    writeNode indent path (.object fields) =
      if type.isStr (lit "module") then Trace.fail (.violated .isNoModule)
      else writeOther indent path name type fields := by
  have hother : ∀ form ∈ formedTypes, type.isStr form = false := fun form hform =>
    Json.isStr_eq_false (hforms form hform)
  simp only [formedTypes, List.forall_mem_cons] at hother
  obtain ⟨hplain, hclass, hfunction, hmethod, -⟩ := hother
  have hcontainer : containerName? fields = none := by
    rw [containerName?, htype]
    simp [hplain, hclass]
  rw [writeNode_of_not_container hcontainer, writeSelf_of_fields htype hname, hplain, hclass, hfunction,
    hmethod]
  rfl

/-- A constant is one assignment, and the text of its value stands on the right. -/
theorem assigns_display (htype : Record.get? (lit "type") fields = some type)
    (hname : Record.get? (lit "name") fields = some name)
    (hvalue : Record.get? (lit "value") fields = some value)
    (hforms : ∀ form ∈ formedTypes, type ≠ .str form) (hmodule : type ≠ .str (lit "module"))
    (indent path : Text) :
    Assigns indent name type value.display (writeNode indent path (.object fields)) := by
  have hline : indent ++ name.display ++ lit " = " ++ value.display ++ typeNote type =
      constantLine indent name value type := by
    simp only [constantLine, typeNote, List.append_assoc]
  rw [Assigns, hline, writeNode_of_other htype hname hforms, Json.isStr_eq_false hmodule,
    if_neg Bool.false_ne_true, writeOther, hvalue]
  rfl

end Line

/-! ## Texts of values -/

/-- No text is read as itself, with nothing left out but what is behind it. -/
theorem read?_self_ne (s rest : Text) : Literal.read? (s ++ rest) ≠ some (.str s, rest) := by
  intro h
  have hlength := Literal.length_read?_str h
  rw [List.length_append] at hlength
  omega

theorem display_eq_literal_iff (value : Json) :
    value.display = value.literal ↔ ∀ s, value ≠ .str s := by
  cases value with
  | str s =>
      refine iff_of_false ?_ fun h => h s rfl
      intro h
      -- a literal is read back, and a text is not
      have hread : Literal.read? ((Json.str s).literal ++ []) = some (.str s, []) :=
        Literal.read?_literal rfl rfl
      rw [← h] at hread
      exact read?_self_ne s [] hread
  | _ => exact iff_of_true rfl nofun

/-- The text of a value is read as the value just if the value is no string and its numbers are finite. -/
theorem read?_display_iff {value : Json} (hcanonical : value.every Json.isCanonical = true) {rest : Text}
    (hrest : Json.endsNumeral rest = true) :
    Literal.read? (value.display ++ rest) = some (value, rest) ↔
      (∀ s, value ≠ .str s) ∧ value.hasFiniteNumbers = true := by
  by_cases hstring : ∃ s, value = .str s
  · obtain ⟨s, rfl⟩ := hstring
    exact iff_of_false (read?_self_ne s rest) fun h => h.1 s rfl
  · have hplain : ∀ s, value ≠ .str s := fun s hs => hstring ⟨s, hs⟩
    rw [(display_eq_literal_iff value).2 hplain, Literal.read?_literal hcanonical hrest,
      and_iff_right hplain]
    cases value.hasFiniteNumbers with
    | true => exact iff_of_true rfl rfl
    | false => exact iff_of_false nofun nofun

/-- A node with a value that has no form of its own is refused if it is a module, and otherwise written as
one assignment. The right side is the literal of the value, unless that is a string, which stands there
as it is. Reading the line from there on gives the value, and leaves the comment, for the values that are
no strings and have finite numbers only. -/
theorem constant_read_iff {fields : Record Json} {type name value : Json}
    (htype : Record.get? (lit "type") fields = some type)
    (hname : Record.get? (lit "name") fields = some name)
    (hvalue : Record.get? (lit "value") fields = some value)
    (hforms : ∀ form ∈ formedTypes, type ≠ .str form)
    (hcanonical : value.every Json.isCanonical = true) (indent path : Text) :
    (type = .str (lit "module") ∧
      writeNode indent path (.object fields) = ⟨[], .error (.violated .isNoModule)⟩) ∨
    ∃ right, Assigns indent name type right (writeNode indent path (.object fields)) ∧
      (right = value.literal ↔ ∀ s, value ≠ .str s) ∧
      (∀ s, value = .str s → right = s) ∧
      (Literal.read? (right ++ typeNote type) = some (value, typeNote type) ↔
        (∀ s, value ≠ .str s) ∧ value.hasFiniteNumbers = true) := by
  by_cases hmodule : type = .str (lit "module")
  · refine Or.inl ⟨hmodule, ?_⟩
    rw [writeNode_of_other htype hname hforms, hmodule]
    rfl
  · refine Or.inr ⟨value.display, assigns_display htype hname hvalue hforms hmodule indent path,
      display_eq_literal_iff value, ?_, read?_display_iff hcanonical rfl⟩
    intro s hs
    rw [hs]
    rfl

/-- A table of constants in one constant. -/
def tableValue : Json :=
  .object [(lit "costs", .list [.int (-1), .float ⟨0x4004000000000000⟩, .null, .bool true]),
    (lit "it's", .object [(lit "say \"hi\"", .str [CodePoint.ofNat 10, CodePoint.ofNat 0x200B])])]

def tableFields : Record Json :=
  [(lit "name", .str (lit "TABLE")), (lit "type", .str (lit "dict")), (lit "value", tableValue)]

theorem constant_read_iff_table :
    fileText (writeNode [] (lit "M") (.object tableFields)).log =
      lit "TABLE = \x7b'costs': [-1, 2.5, None, True], \"it's\": " ++
        lit "\x7b'say \"hi\"': '\\n\\u200b'\x7d\x7d # type: dict\n" ∧
    Literal.read? (tableValue.literal ++ lit " # type: dict\n") =
      some (tableValue, lit " # type: dict\n") := by
  have htype : Record.get? (lit "type") tableFields = some (.str (lit "dict")) := rfl
  have hplain : ∀ s, tableValue ≠ .str s := nofun
  obtain ⟨hmodule, -⟩ | ⟨right, hline, hright, -, hread⟩ :=
    constant_read_iff htype rfl rfl (by decide) (by decide) [] (lit "M")
  · exact absurd hmodule (by decide)
  · obtain rfl := hright.2 hplain
    refine ⟨?_, hread.2 ⟨hplain, by decide⟩⟩
    rw [Assigns] at hline
    rw [hline]
    decide +kernel

/-- A version is written without quotes, and what stands there is a number. -/
theorem version_unquoted :
    fileText (writeNode [] (lit "M") (.object [(lit "name", .str (lit "VERSION")),
      (lit "type", .str (lit "str")), (lit "value", .str (lit "1.0"))])).log =
        lit "VERSION = 1.0 # type: str\n" ∧
    (Json.str (lit "1.0")).literal = lit "'1.0'" ∧
    Literal.read? (lit "1.0 # type: str\n") =
      some (.float ⟨0x3FF0000000000000⟩, lit " # type: str\n") := by
  refine ⟨?_, ?_, ?_⟩
  · decide
  · decide
  · decide +kernel

end Stub

end ModuleStubs
