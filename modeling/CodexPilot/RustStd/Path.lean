import CodexPilot.RustStd.Text

/-!
# Unix paths

A `PathBuf` is the text of a path; `components` is the sequence that `std::path` compares, hashes
and orders paths by.  Repeated separators, a trailing separator and every `.` but a leading one of a
relative path leave no component, while `..` is kept.
-/

namespace RustStd

/-- An owned path, by its text. -/
abbrev PathBuf := Text

/-- One component of a unix path. -/
inductive Component where
  | rootDir
  | curDir
  | parentDir
  | normal (name : Text)
  deriving DecidableEq

/-- A path as `std::path` sees it when it compares paths. -/
abbrev Path := List Component

namespace PathBuf

/-- The component of one piece between separators. -/
def pieceComponent (piece : Text) : Option Component :=
  if piece = [] ∨ piece = ['.'] then none
  else if piece = ['.', '.'] then some .parentDir
  else some (.normal piece)

/-- `Path::is_absolute`. -/
def isAbsolute (path : PathBuf) : Bool := path.head? == some '/'

/-- `Path::components`. -/
def components (path : PathBuf) : Path :=
  let pieces := List.splitOn '/' path
  if isAbsolute path then
    .rootDir :: pieces.filterMap pieceComponent
  else
    match pieces with
    | ['.'] :: rest => .curDir :: rest.filterMap pieceComponent
    | pieces => pieces.filterMap pieceComponent

/-- `Path::join`: an absolute argument replaces the base. -/
def join (base path : PathBuf) : PathBuf :=
  if isAbsolute path || base.isEmpty then path
  else if base.getLast? = some '/' then base ++ path
  else base ++ '/' :: path

theorem pieceComponent_eq_normal {piece name : Text}
    (component : pieceComponent piece = some (.normal name)) :
    name = piece ∧ piece ≠ [] ∧ piece ≠ ['.'] ∧ piece ≠ ['.', '.'] := by
  unfold pieceComponent at component
  split at component
  · cases component
  · rename_i visible
    split at component
    · cases component
    · rename_i notParent
      cases component
      rw [not_or] at visible
      exact ⟨rfl, visible.1, visible.2, notParent⟩

/-- The names of a path are pieces between its separators. -/
theorem exists_piece_of_mem_components {path : PathBuf} {name : Text}
    (member : Component.normal name ∈ components path) :
    name ∈ List.splitOn '/' path ∧ pieceComponent name = some (.normal name) := by
  have ofPieces : ∀ pieces : List Text, pieces ⊆ List.splitOn '/' path →
      Component.normal name ∈ pieces.filterMap pieceComponent →
      name ∈ List.splitOn '/' path ∧ pieceComponent name = some (.normal name) := by
    intro pieces within found
    obtain ⟨piece, inPieces, component⟩ := List.mem_filterMap.mp found
    obtain ⟨rfl, _⟩ := pieceComponent_eq_normal component
    exact ⟨within inPieces, component⟩
  unfold components at member
  split at member
  · have later : Component.normal name ∈ (List.splitOn '/' path).filterMap pieceComponent := by
      simpa using member
    exact ofPieces _ (fun _ inside => inside) later
  · dsimp only at member
    split at member
    · rename_i rest pieces
      have later : Component.normal name ∈ rest.filterMap pieceComponent := by
        simpa using member
      exact ofPieces rest (fun _ inside => pieces ▸ List.mem_cons_of_mem _ inside) later
    · exact ofPieces _ (fun _ inside => inside) member

end PathBuf

namespace Path

/-- `Path::is_absolute` on components. -/
def isAbsolute : Path → Bool
  | .rootDir :: _ => true
  | _ => false

/-- The text of a component. -/
def componentText : Component → Text
  | .rootDir => ['/']
  | .curDir => ['.']
  | .parentDir => ['.', '.']
  | .normal name => name

/-- The text of the path with the given components. -/
def toPathBuf : Path → PathBuf
  | .rootDir :: path => '/' :: Text.join ['/'] (path.map componentText)
  | path => Text.join ['/'] (path.map componentText)

/-- `Path::parent`: there is none above the root and none above the empty path. -/
def parent (path : Path) : Option Path :=
  match path.getLast? with
  | none | some .rootDir => none
  | some _ => some path.dropLast

/-- `PathBuf::pop`. -/
def pop (path : Path) : Path := (parent path).getD path

/-- `Path::file_name`. -/
def fileName (path : Path) : Option Text :=
  match path.getLast? with
  | some (.normal name) => some name
  | _ => none

/-- `Path::file_stem`: the file name up to its last dot, a leading dot not counted. -/
def fileStem (path : Path) : Option Text :=
  path.fileName.map fun name =>
    let pieces := List.splitOn '.' name
    let stem := Text.join ['.'] pieces.dropLast
    if stem = [] then name else stem

end Path
end RustStd
