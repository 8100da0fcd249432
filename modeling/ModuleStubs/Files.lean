import ModuleStubs.Record
import ModuleStubs.Text.Lines
import ModuleStubs.Text.Utf8

/-!
# Files

The files that a command can see, below one working folder. A path is a text with
slashes; its parts are followed one by one, and each part but the last must name
a folder. Reading and writing say why they fail with the path as it was given.
Files are of UTF-8: a text with surrogates is not written. Writing replaces the
content of one file and changes nothing else (`content?_write`).
-/

set_option autoImplicit false

namespace ModuleStubs

/-- A place below the working folder: the names on the way to it. -/
abbrev Location := List Text

/-- Contents by place, and the folders there are. -/
structure Files where
  contents : List (Location × Text) := []
  folders : List Location := [[]]

/-- Why a path cannot be used. -/
inductive FileCause where
  | notFound
  | fileExists
  | notDirectory
  | isDirectory
  /-- The text for the file has surrogates. -/
  | unencodable (text : Text)
deriving DecidableEq

/-- A path that cannot be used. -/
structure FileFault where
  cause : FileCause
  path : Text
deriving DecidableEq

/-- The wording of a fault: the number of its cause and what the number means, or
what is wrong with the text. -/
def FileFault.message (f : FileFault) : Text :=
  let numbered (number : Nat) (meaning : String) : Text :=
    lit "[Errno " ++ decimal number ++ lit "] " ++ lit meaning ++ lit ": " ++ Text.quoted f.path
  match f.cause with
  | .notFound => numbered 2 "No such file or directory"
  | .fileExists => numbered 17 "File exists"
  | .notDirectory => numbered 20 "Not a directory"
  | .isDirectory => numbered 21 "Is a directory"
  | .unencodable t => t.encodingFault

namespace Files

/-- The content of the file at a place. -/
def contentAt? (l : Location) : List (Location × Text) → Option Text
  | [] => none
  | (k, t) :: r => if k = l then some t else contentAt? l r

/-- The contents with that of one place replaced. -/
def putContent (l : Location) (t : Text) : List (Location × Text) → List (Location × Text)
  | [] => [(l, t)]
  | (k, u) :: r => if k = l then (k, t) :: r else (k, u) :: putContent l t r

/-- A folder is at the place. -/
def isFolder (fs : Files) (l : Location) : Bool := fs.folders.contains l

/-- A file is at the place. -/
def isFile (fs : Files) (l : Location) : Bool := (contentAt? l fs.contents).isSome

/-- The place of one part of a path below a folder. -/
def step (l : Location) (part : Text) : Location :=
  if part = [] ∨ part = lit "." then l
  else if part = lit ".." then l.dropLast
  else l ++ [part]

/-- The folder that parts of a path lead to. -/
def follow (fs : Files) : Location → List Text → Except FileCause Location
  | l, [] => .ok l
  | l, part :: parts =>
    let next := step l part
    if fs.isFolder next then follow fs next parts
    else if fs.isFile next then .error .notDirectory
    else .error .notFound

/-- The parts of a path. -/
def parts (path : Text) : List Text := Text.splitOn '/' path

/-- The content of the file at a path. -/
def contentOf (fs : Files) (path : Text) : Except FileCause Text := do
  if path = [] then throw .notFound
  let folder ← fs.follow [] (parts path).dropLast
  let l := step folder ((parts path).getLastD [])
  match contentAt? l fs.contents with
  | some t => return t
  | none => throw (if fs.isFolder l then .isDirectory else .notFound)

/-- The content of the file at a path, if it can be read. -/
def content? (fs : Files) (path : Text) : Option Text := (fs.contentOf path).toOption

/-- A failure that names the path. -/
def named {α : Type} (path : Text) (r : Except FileCause α) : Except FileFault α :=
  r.mapError fun c => ⟨c, path⟩

/-- The text of the file at a path. -/
def read (fs : Files) (path : Text) : Except FileFault Text :=
  named path ((fs.contentOf path).map Text.unifyLineEnds)

/-- The path without slashes at its end. -/
def trimSlashes (path : Text) : Text :=
  (path.reverse.dropWhile (· == CodePoint.ofChar '/')).reverse

/-- The last part of a path names no file. -/
def endsInFolder (path : Text) : Bool :=
  let last := (parts path).getLastD []
  last == [] || last == lit "." || last == lit ".."

/-- The place of the file that writing to a path makes. -/
def target (fs : Files) (path : Text) : Except FileCause Location := do
  if path = [] then throw .notFound
  if endsInFolder path then
    let _ ← fs.follow [] (parts (trimSlashes path)).dropLast
    throw .isDirectory
  let folder ← fs.follow [] (parts path).dropLast
  let l := step folder ((parts path).getLastD [])
  if fs.isFolder l then throw .isDirectory
  return l

/-- The files after a text was written to a path. A text with surrogates is refused
before anything is written. -/
def write (fs : Files) (path text : Text) : Except FileFault Files :=
  named path (do
    let l ← fs.target path
    if !text.isScalar then throw (.unencodable text)
    return { fs with contents := putContent l text fs.contents })

/-- The files with one more folder. -/
def makeFolder (fs : Files) (path : Text) : Except FileCause Files := do
  let shortened := trimSlashes path
  let folder ← fs.follow [] (parts shortened).dropLast
  let l := step folder ((parts shortened).getLastD [])
  if fs.isFolder l || fs.isFile l then throw .fileExists
  return { fs with folders := fs.folders ++ [l] }

/-- A path cut at its last slash; the first part loses the slashes at its end,
unless it has nothing else. -/
def split (path : Text) : Text × Text :=
  match Text.cutLast '/' path with
  | none => ([], path)
  | some (before, name) =>
    let head := before ++ lit "/"
    (if trimSlashes head = [] then head else trimSlashes head, name)

/-- The folder part of a path. -/
def folderOf (path : Text) : Text := (split path).1

/-- A folder is at a path. -/
def hasFolder (fs : Files) (path : Text) : Bool :=
  path ≠ [] && (match fs.follow [] (parts path) with
    | .ok _ => true
    | .error _ => false)

/-- Something is at a path. -/
def exists? (fs : Files) (path : Text) : Bool := fs.hasFolder path || (fs.content? path).isSome

/-- The folder at a path and all folders on the way to it made. A folder that is
there already is no fault. The fuel is the length of the path. -/
def makeFoldersWith : Nat → Text → Files → Except FileFault Files
  | 0, path, _ => .error ⟨.notFound, path⟩
  | fuel + 1, path, fs => do
    let (head, name) := if (split path).2 = [] then split (split path).1 else split path
    let fs ←
      if head ≠ [] ∧ name ≠ [] ∧ fs.exists? head = false then
        match makeFoldersWith fuel head fs with
        | .error ⟨.fileExists, _⟩ => pure fs
        | r => r
      else pure fs
    match fs.makeFolder path with
    | .ok fs => return fs
    | .error c => if fs.hasFolder path then return fs else throw ⟨c, path⟩

/-- The folder at a path and all folders on the way to it made. -/
def makeFolders (fs : Files) (path : Text) : Except FileFault Files :=
  if path = [] then .error ⟨.notFound, []⟩ else makeFoldersWith path.length path fs

/-- A file put in its place, with the folders on the way to it. -/
def place (fs : Files) (path text : Text) : Files :=
  let prepared := ((fs.makeFolders (folderOf path)).toOption).getD fs
  ((prepared.write path text).toOption).getD prepared

/-! ## Laws -/

theorem contentAt?_putContent (l k : Location) (t : Text) (cs : List (Location × Text)) :
    contentAt? k (putContent l t cs) = if l = k then some t else contentAt? k cs := by
  induction cs with
  | nil => simp [putContent, contentAt?]
  | cons e cs ih =>
    obtain ⟨m, u⟩ := e
    by_cases h : m = l
    · subst h
      by_cases h' : m = k <;> simp [putContent, contentAt?, h']
    · by_cases h' : l = k
      · subst h'
        simp [putContent, contentAt?, h, ih]
      · simp only [putContent, h, if_false, contentAt?, ih, h']

/-- Which folder a path leads to depends on the folders only. -/
theorem follow_withContents {fs : Files} {cs : List (Location × Text)} {ps : List Text}
    {l r : Location} (h : fs.follow l ps = .ok r) :
    follow { fs with contents := cs } l ps = .ok r := by
  induction ps generalizing l with
  | nil => exact h
  | cons p ps ih =>
    simp only [follow] at h ⊢
    by_cases hf : fs.isFolder (step l p) = true
    · rw [if_pos hf] at h
      rw [if_pos (show isFolder { fs with contents := cs } (step l p) = true from hf)]
      exact ih h
    · rw [if_neg hf] at h
      split at h <;> simp at h

/-- What was written is what is read. -/
theorem content?_write {fs fs' : Files} {path text : Text} (h : fs.write path text = .ok fs') :
    fs'.content? path = some text := by
  unfold write named at h
  cases ht : fs.target path with
  | error c =>
    rw [ht] at h
    contradiction
  | ok l =>
    simp only [ht, bind, Except.bind, pure, Except.pure] at h
    split at h
    · contradiction
    obtain rfl := Except.ok.inj h
    unfold target at ht
    by_cases hp : path = []
    · simp [hp, bind, Except.bind, throw, throwThe, MonadExceptOf.throw] at ht
    · rw [if_neg hp] at ht
      by_cases he : endsInFolder path = true
      · rw [if_pos he] at ht
        cases hf : fs.follow [] (parts (trimSlashes path)).dropLast <;>
          simp [hf, bind, Except.bind, throw, throwThe, MonadExceptOf.throw] at ht
      · rw [if_neg he] at ht
        cases hf : fs.follow [] (parts path).dropLast with
        | error c => simp [hf, bind, Except.bind] at ht
        | ok folder =>
          simp only [hf, bind, Except.bind, pure, Except.pure] at ht
          split at ht
          · simp [throw, throwThe, MonadExceptOf.throw] at ht
          · simp only [Except.ok.injEq] at ht
            subst ht
            unfold content? contentOf
            rw [if_neg hp]
            simp [follow_withContents hf, bind, Except.bind, pure, Except.pure,
              contentAt?_putContent, Except.toOption]

end Files

end ModuleStubs
