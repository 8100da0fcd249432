import ModuleStubs.Command
import ModuleStubs.Proofs.Completion

/-!
# Files that a command writes

A command that writes a file makes the folders on the way to it, finds the place of the file and puts
the text there. `Files.opened` is the first part of this, which can fail; neither part changes the
content of any other place (`contents_of_makeFolders`, `contentAt?_putContent`). So a text without halves of
surrogate pairs is either written or all files stay as they were (`write_of_target`,
`write_of_target_error`).
-/

set_option autoImplicit false

namespace ModuleStubs

namespace Files

/-- The files after the folders on the way to a path were made, and the place of the file that writing
to the path then makes. -/
def opened (fs : Files) (path : Text) : Except FileFault (Files × Location) :=
  match fs.makeFolders (folderOf path) with
  | .error f => .error f
  | .ok made => (named path (made.target path)).map fun l => (made, l)

theorem write_of_target {fs : Files} {path text : Text} {l : Location} (h : fs.target path = .ok l)
    (htext : text.isScalar = true) :
    fs.write path text = .ok { fs with contents := putContent l text fs.contents } := by
  simp [write, h, htext, named, bind, Except.bind, pure, Except.pure]

theorem write_of_target_error {fs : Files} {path : Text} {c : FileCause}
    (h : fs.target path = .error c) (text : Text) : fs.write path text = .error ⟨c, path⟩ := by
  rw [write, h]
  rfl

/-- A file that has content can be read. -/
theorem read_of_content? {fs : Files} {path text : Text} (h : fs.content? path = some text) :
    fs.read path = .ok (Text.unifyLineEnds text) := by
  rw [content?] at h
  cases hcontent : fs.contentOf path with
  | error c =>
      rw [hcontent] at h
      contradiction
  | ok t =>
      rw [hcontent] at h
      obtain rfl := Option.some.inj h
      rw [read, hcontent]
      rfl

/-! ## Folders -/

theorem contents_of_makeFolder {fs made : Files} {path : Text} (h : fs.makeFolder path = .ok made) :
    made.contents = fs.contents := by
  simp only [makeFolder, bind, Except.bind, pure, Except.pure] at h
  split at h
  · contradiction
  · split at h
    · contradiction
    · obtain rfl := Except.ok.inj h
      rfl

/-- The last folder of a path is made or was there before. -/
theorem contents_of_lastFolder {fs made : Files} {path : Text}
    (h : (match fs.makeFolder path with
      | .ok fs => Except.ok fs
      | .error c =>
        if fs.hasFolder path then Except.ok fs
        else (throw (FileFault.mk c path) : Except FileFault Files)) = .ok made) :
    made.contents = fs.contents := by
  split at h
  · rename_i g hg
    obtain rfl := Except.ok.inj h
    exact contents_of_makeFolder hg
  · split at h
    · obtain rfl := Except.ok.inj h
      rfl
    · contradiction

/-- Making folders changes no content. -/
theorem contents_of_makeFoldersWith {fuel : Nat} {path : Text} {fs made : Files}
    (h : makeFoldersWith fuel path fs = .ok made) : made.contents = fs.contents := by
  induction fuel generalizing path fs made with
  | zero => contradiction
  | succ fuel ih =>
      simp only [makeFoldersWith, bind, Except.bind, pure, Except.pure] at h
      -- where the path ends in a slash, its last name is that before the slash
      split at h <;> split at h
      all_goals try exact contents_of_lastFolder h
      all_goals
        split at h
        · exact contents_of_lastFolder h
        · split at h
          · contradiction
          · rename_i between hbetween
            exact (contents_of_lastFolder h).trans (ih hbetween)

theorem contents_of_makeFolders {fs made : Files} {path : Text} (h : fs.makeFolders path = .ok made) :
    made.contents = fs.contents := by
  rw [makeFolders] at h
  split at h
  · contradiction
  · exact contents_of_makeFoldersWith h

theorem opened_eq_ok {fs made : Files} {path : Text} {l : Location}
    (h : fs.opened path = .ok (made, l)) :
    fs.makeFolders (folderOf path) = .ok made ∧ made.target path = .ok l := by
  rw [opened] at h
  split at h
  · contradiction
  · rename_i g hg
    cases ht : g.target path with
    | error c =>
        rw [ht] at h
        contradiction
    | ok k =>
        rw [ht] at h
        obtain ⟨rfl, rfl⟩ := Prod.mk.inj (Except.ok.inj h)
        exact ⟨hg, ht⟩

end Files

end ModuleStubs
