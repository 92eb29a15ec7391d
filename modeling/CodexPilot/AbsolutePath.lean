import CodexPilot.RustStd.Path

/-!
# Absolute paths

An `AbsolutePathBuf` is absolute and normalized: it is the list of the names on the way from the
root, without `.` and `..`.  The host supplies what the process can observe: the home directory,
its own working directory, and the files.
-/

namespace CodexPilot

open RustStd

/-- The text of a path component that is neither `.` nor `..`. -/
def IsName (name : Text) : Prop :=
  name ≠ [] ∧ name ≠ ['.'] ∧ name ≠ ['.', '.'] ∧ '/' ∉ name

instance : DecidablePred IsName := fun name =>
  inferInstanceAs (Decidable (name ≠ [] ∧ name ≠ ['.'] ∧ name ≠ ['.', '.'] ∧ '/' ∉ name))

/-- A path that is absolute and normalized. -/
@[ext]
structure AbsolutePathBuf where
  /-- The names on the way from the root. -/
  segments : List Text
  /-- Every segment is a plain name. -/
  named : ∀ name ∈ segments, IsName name
  deriving DecidableEq

namespace AbsolutePathBuf

/-- The file system root. -/
def root : AbsolutePathBuf := ⟨[], by simp⟩

/-- The text of a path. -/
def asPath (path : AbsolutePathBuf) : PathBuf := '/' :: Text.join ['/'] path.segments

/-- `Path::starts_with`. -/
def startsWith (path base : AbsolutePathBuf) : Bool := base.segments.isPrefixOf path.segments

/-- The number of components, the root directory included. -/
def componentsCount (path : AbsolutePathBuf) : ℕ := path.segments.length + 1

/-- The path of the first `count` segments. -/
def take (path : AbsolutePathBuf) (count : ℕ) : AbsolutePathBuf :=
  ⟨path.segments.take count, fun name member => path.named name (List.mem_of_mem_take member)⟩

/-- `Path::parent`. -/
def parent (path : AbsolutePathBuf) : Option AbsolutePathBuf :=
  if path.segments = [] then none else some (path.take (path.segments.length - 1))

/-- `Path::ancestors`, from the path itself up to the root. -/
def ancestors (path : AbsolutePathBuf) : List AbsolutePathBuf :=
  (List.range (path.segments.length + 1)).reverse.map path.take

/-- `Path::strip_prefix`, as the segments that are left. -/
def stripPrefix (path base : AbsolutePathBuf) : Option (List Text) :=
  base.segments.isPrefixOf? path.segments

theorem startsWith_iff {path base : AbsolutePathBuf} :
    path.startsWith base = true ↔ base.segments <+: path.segments :=
  List.isPrefixOf_iff_prefix

theorem prefix_of_stripPrefix {path base : AbsolutePathBuf} {suffix : List Text}
    (stripped : path.stripPrefix base = some suffix) : base.segments <+: path.segments :=
  ⟨suffix, (Text.isPrefixOf?_eq_some_iff.mp stripped).symm⟩

/-! ## Normalization -/

theorem isName_of_mem_components {path : PathBuf} {name : Text}
    (member : Component.normal name ∈ PathBuf.components path) : IsName name := by
  obtain ⟨isPiece, component⟩ := PathBuf.exists_piece_of_mem_components member
  obtain ⟨_, nonempty, notCurrent, notParent⟩ := PathBuf.pieceComponent_eq_normal component
  exact ⟨nonempty, notCurrent, notParent, Text.separator_not_mem_splitOn isPiece⟩

/-- Apply one component to the segments read so far. -/
def applyComponent (segments : List Text) : Component → List Text
  | .rootDir => []
  | .curDir => segments
  | .parentDir => segments.dropLast
  | .normal name => segments ++ [name]

theorem isName_foldl_applyComponent {components : Path} {segments : List Text}
    (named : ∀ name ∈ segments, IsName name)
    (plain : ∀ name, Component.normal name ∈ components → IsName name) :
    ∀ name ∈ components.foldl applyComponent segments, IsName name := by
  induction components generalizing segments with
  | nil => exact named
  | cons component components ih =>
      refine ih ?_ fun name member => plain name (List.mem_cons_of_mem _ member)
      intro name member
      cases component with
      | rootDir => cases member
      | curDir => exact named name member
      | parentDir => exact named name (List.mem_of_mem_dropLast member)
      | normal last =>
          rcases List.mem_append.mp member with early | isLast
          · exact named name early
          · rw [List.mem_singleton.mp isLast]
            exact plain last List.mem_cons_self

/-- Where a path leads from an absolute one: `.` and `..` are resolved by their text. -/
def lexical (base : AbsolutePathBuf) (path : PathBuf) : AbsolutePathBuf where
  segments := (PathBuf.components path).foldl applyComponent base.segments
  named := isName_foldl_applyComponent base.named fun _ => isName_of_mem_components

theorem pieceComponent_of_isName {name : Text} (named : IsName name) :
    PathBuf.pieceComponent name = some (.normal name) := by
  obtain ⟨nonempty, notCurrent, notParent, _⟩ := named
  simp [PathBuf.pieceComponent, nonempty, notCurrent, notParent]

theorem filterMap_pieceComponent {names : List Text} (named : ∀ name ∈ names, IsName name) :
    names.filterMap PathBuf.pieceComponent = names.map .normal := by
  induction names with
  | nil => rfl
  | cons name names ih =>
      rw [List.filterMap_cons, pieceComponent_of_isName (named name List.mem_cons_self),
        ih fun other member => named other (List.mem_cons_of_mem _ member)]
      rfl

theorem components_asPath (path : AbsolutePathBuf) :
    PathBuf.components path.asPath = .rootDir :: path.segments.map .normal := by
  have absolute : PathBuf.isAbsolute path.asPath = true := rfl
  rw [PathBuf.components, if_pos absolute]
  congr 1
  have pieces : List.splitOn '/' path.asPath =
      [] :: List.splitOn '/' (Text.join ['/'] path.segments) := by
    rw [asPath, List.splitOn_cons_eq_if_modifyHead]
    simp
  rw [pieces, List.filterMap_cons]
  have skipped : PathBuf.pieceComponent [] = none := rfl
  rw [skipped, ← filterMap_pieceComponent path.named]
  by_cases empty : path.segments = []
  · rw [empty]
    rfl
  · have clean : ∀ name ∈ path.segments, '/' ∉ name := fun name member =>
      (path.named name member).2.2.2
    rw [Text.join, List.splitOn_intercalate '/' clean empty]

theorem foldl_applyComponent_normal (names segments : List Text) :
    (names.map Component.normal).foldl applyComponent segments = segments ++ names := by
  induction names generalizing segments with
  | nil => simp
  | cons name names ih => simp [applyComponent, ih]

theorem lexical_of_isAbsolute {path : PathBuf} (absolute : PathBuf.isAbsolute path = true)
    (base : AbsolutePathBuf) : base.lexical path = root.lexical path := by
  ext1
  simp only [lexical, PathBuf.components, if_pos absolute, List.foldl_cons, applyComponent]

@[simp]
theorem lexical_asPath (base path : AbsolutePathBuf) : base.lexical path.asPath = path := by
  have folded := foldl_applyComponent_normal path.segments []
  ext1
  simpa [lexical, components_asPath, applyComponent] using folded

end AbsolutePathBuf

/-- What the process can observe of its host, and how its paths are made absolute. -/
structure Host where
  /-- `dirs::home_dir`. -/
  homeDir : Option PathBuf
  /-- `std::env::current_dir`. -/
  currentDir : Option AbsolutePathBuf
  /-- The variable `TMPDIR`. -/
  tmpdir : Option Text
  /-- `Path::exists`. -/
  pathExists : AbsolutePathBuf → Bool
  /-- `Path::is_dir`. -/
  isDir : AbsolutePathBuf → Bool
  /-- `Path::is_file`. -/
  isFile : AbsolutePathBuf → Bool
  /-- The file itself is a symbolic link. -/
  isSymlink : AbsolutePathBuf → Bool
  /-- `fs::read_to_string`. -/
  readToString : AbsolutePathBuf → Option Text
  /-- `Path::canonicalize`. -/
  canonicalize : AbsolutePathBuf → Option AbsolutePathBuf
  /-- `Absolutize::absolutize_from` of the crate `path_absolutize`, with the base first. -/
  absolutizeFrom : PathBuf → PathBuf → AbsolutePathBuf
  /-- From an absolute and normalized base a path is resolved by its text. -/
  absolutizeFrom_base : ∀ (base : AbsolutePathBuf) (path : PathBuf),
    absolutizeFrom base.asPath path = base.lexical path
  /-- An absolute path does not depend on the base. -/
  absolutizeFrom_absolute : ∀ base path, PathBuf.isAbsolute path = true →
    absolutizeFrom base path = AbsolutePathBuf.root.lexical path

/-- A host without any files. -/
def Host.bare : Host where
  homeDir := none
  currentDir := none
  tmpdir := none
  pathExists := fun _ => false
  isDir := fun _ => false
  isFile := fun _ => false
  isSymlink := fun _ => false
  readToString := fun _ => none
  canonicalize := fun _ => none
  absolutizeFrom := fun base path => (AbsolutePathBuf.root.lexical base).lexical path
  absolutizeFrom_base := fun base path => by rw [AbsolutePathBuf.lexical_asPath]
  absolutizeFrom_absolute := fun _ _ absolute => AbsolutePathBuf.lexical_of_isAbsolute absolute _

namespace AbsolutePathBuf

/-- Replace a leading `~` by the home directory. -/
def maybeExpandHomeDirectory (host : Host) (path : PathBuf) : PathBuf :=
  match host.homeDir, path.stripPrefix ['~'] with
  | some home, some rest =>
      if rest = [] then home
      else
        match rest.stripPrefix ['/'] with
        | some rest => PathBuf.join home (rest.dropWhile (· == '/'))
        | none => path
  | _, _ => path

def resolvePathAgainstBase (host : Host) (path basePath : PathBuf) : AbsolutePathBuf :=
  host.absolutizeFrom basePath (maybeExpandHomeDirectory host path)

def fromAbsolutePath (host : Host) (path : PathBuf) : Option AbsolutePathBuf :=
  let expanded := maybeExpandHomeDirectory host path
  if PathBuf.isAbsolute expanded then some (host.absolutizeFrom [] expanded)
  else host.currentDir.map fun directory => host.absolutizeFrom directory.asPath expanded

def join (host : Host) (path : AbsolutePathBuf) (subpath : PathBuf) : AbsolutePathBuf :=
  resolvePathAgainstBase host subpath path.asPath

/-! ## Paths that are absolute already -/

theorem isAbsolute_of_isName {name : Text} (named : IsName name) :
    PathBuf.isAbsolute name = false := by
  cases name with
  | nil => rfl
  | cons c rest =>
      have notSeparator : c ≠ '/' := fun same => named.2.2.2 (by simp [same])
      simpa [PathBuf.isAbsolute] using notSeparator

theorem components_of_isName {name : Text} (named : IsName name) :
    PathBuf.components name = [.normal name] := by
  have pieces : List.splitOn '/' name = [name] := by
    have clean : ∀ piece ∈ [name], '/' ∉ piece := by simpa using named.2.2.2
    simpa using List.splitOn_intercalate '/' clean (by simp)
  simp [PathBuf.components, isAbsolute_of_isName named, pieces,
    pieceComponent_of_isName named, named.2.1]

theorem maybeExpandHomeDirectory_of_head {host : Host} {path : PathBuf}
    (notHome : path.head? ≠ some '~') : maybeExpandHomeDirectory host path = path := by
  have unstripped : path.stripPrefix ['~'] = none := by
    cases stripped : path.stripPrefix ['~'] with
    | none => rfl
    | some rest =>
        rw [Text.stripPrefix_eq_some_iff.mp stripped] at notHome
        exact absurd rfl notHome
  simp [maybeExpandHomeDirectory, unstripped]

theorem maybeExpandHomeDirectory_of_isAbsolute {host : Host} {path : PathBuf}
    (absolute : PathBuf.isAbsolute path = true) : maybeExpandHomeDirectory host path = path := by
  apply maybeExpandHomeDirectory_of_head
  have separator : path.head? = some '/' := by simpa [PathBuf.isAbsolute] using absolute
  rw [separator]
  decide

@[simp]
theorem fromAbsolutePath_asPath (host : Host) (path : AbsolutePathBuf) :
    fromAbsolutePath host path.asPath = some path := by
  have absolute : PathBuf.isAbsolute path.asPath = true := rfl
  rw [fromAbsolutePath, maybeExpandHomeDirectory_of_isAbsolute absolute, if_pos absolute,
    host.absolutizeFrom_absolute _ _ absolute, lexical_asPath]

/-- A plain name other than `~` is the last segment of the path it stands for. -/
theorem getLast?_fromAbsolutePath_of_isName {host : Host} {name : Text} {path : AbsolutePathBuf}
    (named : IsName name) (notHome : name ≠ ['~'])
    (resolved : fromAbsolutePath host name = some path) : path.segments.getLast? = some name := by
  have unexpanded : maybeExpandHomeDirectory host name = name := by
    unfold maybeExpandHomeDirectory
    split
    · rename_i home rest _ stripped
      have isName := Text.stripPrefix_eq_some_iff.mp stripped
      split
      · rename_i empty
        rw [empty, List.append_nil] at isName
        exact absurd isName notHome
      · split
        · rename_i inner slashed
          rw [Text.stripPrefix_eq_some_iff.mp slashed] at isName
          exact absurd (by simp [isName]) named.2.2.2
        · rfl
    · rfl
  simp only [fromAbsolutePath, unexpanded, isAbsolute_of_isName named, Bool.false_eq_true, if_false,
    Option.map_eq_some_iff] at resolved
  obtain ⟨base, _, rfl⟩ := resolved
  simp [host.absolutizeFrom_base, lexical, components_of_isName named, applyComponent]

/-! ## Paths with the same components -/

section Names

open PathBuf

variable {host : Host} {path left right : PathBuf} {more : Path}

/-- The components of a path, without the root and a leading `.`. -/
def names (path : PathBuf) : Path := (List.splitOn '/' path).filterMap pieceComponent

theorem names_append_separator (front path : PathBuf) :
    names (front ++ '/' :: path) = names front ++ names path := by
  rw [names, List.splitOn_append_cons_self, List.filterMap_append]
  rfl

theorem names_dropWhile (path : PathBuf) : names (path.dropWhile (· == '/')) = names path := by
  induction path with
  | nil => rfl
  | cons c path ih =>
      by_cases separator : c = '/'
      · subst separator
        have shorter : names ('/' :: path) = names path := names_append_separator [] path
        rw [shorter, ← ih]
        rfl
      · have kept : (c :: path).dropWhile (· == '/') = c :: path := by
          simp [separator]
        rw [kept]

theorem isAbsolute_dropWhile (path : PathBuf) :
    PathBuf.isAbsolute (path.dropWhile (· == '/')) = false := by
  induction path with
  | nil => rfl
  | cons c path ih =>
      by_cases separator : c = '/'
      · subst separator
        exact ih
      · simp [PathBuf.isAbsolute, separator]

theorem foldl_components (segments : List Text) (path : PathBuf) :
    (components path).foldl applyComponent segments =
      (names path).foldl applyComponent (if PathBuf.isAbsolute path then [] else segments) := by
  rw [components]
  split
  case isTrue => rfl
  case isFalse =>
    split
    case h_1 rest pieces =>
      have dot : names path = rest.filterMap pieceComponent := by
        rw [names, pieces]
        rfl
      rw [dot]
      rfl
    case h_2 => rfl

/-- Below a base a relative path goes on from where the base leads. -/
theorem foldl_components_join (segments : List Text) (base : PathBuf)
    (relative : PathBuf.isAbsolute path = false) :
    (components (PathBuf.join base path)).foldl applyComponent segments =
      (names path).foldl applyComponent ((components base).foldl applyComponent segments) := by
  rw [PathBuf.join, relative, Bool.false_or]
  split
  case isTrue empty =>
    obtain rfl : base = [] := List.isEmpty_iff.mp empty
    rw [foldl_components, relative]
    rfl
  case isFalse nonempty =>
    rw [List.isEmpty_iff] at nonempty
    obtain ⟨c, rest, rfl⟩ := List.exists_cons_of_ne_nil nonempty
    have joined (extended : PathBuf) (first : extended.head? = some c)
        (same : names extended = names (c :: rest) ++ names path) :
        (components extended).foldl applyComponent segments =
          (names path).foldl applyComponent
            ((components (c :: rest)).foldl applyComponent segments) := by
      have absolute : PathBuf.isAbsolute extended = PathBuf.isAbsolute (c :: rest) := by
        rw [PathBuf.isAbsolute, first]
        rfl
      rw [foldl_components, foldl_components, same, absolute, List.foldl_append]
    split
    case isTrue ends =>
      obtain ⟨front, same⟩ := List.getLast?_eq_some_iff.mp ends
      refine joined _ rfl ?_
      have whole : names (front ++ ['/']) = names front := by
        rw [names_append_separator]
        exact List.append_nil _
      rw [same, List.append_assoc, List.singleton_append, names_append_separator, whole]
    case isFalse => exact joined _ rfl (names_append_separator _ _)

/-- The first piece of a relative path. -/
theorem exists_firstPiece (relative : PathBuf.isAbsolute path = false) (nonempty : path ≠ []) :
    ∃ piece later, List.splitOn '/' path = piece :: later ∧ piece ≠ [] ∧
      ((path = piece ∧ later = []) ∨
        ∃ rest, path = piece ++ '/' :: rest ∧ later = List.splitOn '/' rest) := by
  by_cases separated : '/' ∈ path
  · obtain ⟨piece, rest, rfl, clean⟩ := List.eq_append_cons_of_mem separated
    refine ⟨piece, List.splitOn '/' rest, ?_, ?_, Or.inr ⟨rest, rfl, rfl⟩⟩
    · exact List.splitOn_append_cons_self_of_not_mem clean rest
    · rintro rfl
      cases relative
  · have whole : List.splitOn '/' path = [path] := by
      have clean : ∀ piece ∈ [path], '/' ∉ piece := by simpa using separated
      simpa using List.splitOn_intercalate '/' clean (by simp)
    exact ⟨path, [], whole, nonempty, Or.inl ⟨rfl, rfl⟩⟩

theorem components_home (rest : PathBuf) :
    components ('~' :: '/' :: rest) = .normal ['~'] :: names rest := by
  have relative : PathBuf.isAbsolute ('~' :: '/' :: rest) = false := rfl
  have pieces : List.splitOn '/' ('~' :: '/' :: rest) = ['~'] :: List.splitOn '/' rest :=
    List.splitOn_append_cons_self ['~'] rest
  rw [components, relative, pieces]
  rfl

/-- A path whose first component is `~` is that alone, or goes on behind a separator. -/
theorem exists_of_components_home (first : components path = .normal ['~'] :: more) :
    (path = ['~'] ∧ more = []) ∨ ∃ rest, path = '~' :: '/' :: rest ∧ more = names rest := by
  have nonempty : path ≠ [] := by
    rintro rfl
    cases first
  have relative : PathBuf.isAbsolute path = false := by
    cases absolute : PathBuf.isAbsolute path with
    | false => rfl
    | true =>
        rw [components, if_pos absolute] at first
        cases first
  obtain ⟨piece, later, pieces, filled, shape⟩ := exists_firstPiece relative nonempty
  have home : piece = ['~'] := by
    rw [components, relative, pieces] at first
    by_cases dot : piece = ['.']
    · subst dot
      cases first
    · have undotted : (piece :: later).filterMap pieceComponent = .normal ['~'] :: more := by
        rw [← first, if_neg Bool.false_ne_true]
        split
        case h_1 rest same => exact absurd (List.cons.inj same).1 dot
        case h_2 => rfl
      have neither : ¬(piece = [] ∨ piece = ['.']) := not_or.mpr ⟨filled, dot⟩
      by_cases up : piece = ['.', '.']
      · subst up
        cases undotted
      · have shown : pieceComponent piece = some (.normal piece) := by
          rw [pieceComponent, if_neg neither, if_neg up]
        rw [List.filterMap_cons_some shown] at undotted
        exact Component.normal.inj (List.cons.inj undotted).1
  subst home
  obtain ⟨rfl, -⟩ | ⟨rest, rfl, -⟩ := shape
  · exact Or.inl ⟨rfl, (List.cons.inj first).2.symm⟩
  · refine Or.inr ⟨rest, rfl, ?_⟩
    exact (List.cons.inj (first.symm.trans (components_home rest))).2

/-- A path that does not begin with `~` is not expanded. -/
theorem maybeExpandHomeDirectory_of_components
    (other : ∀ more, components path ≠ .normal ['~'] :: more) :
    maybeExpandHomeDirectory host path = path := by
  rw [maybeExpandHomeDirectory]
  split
  case h_1 home rest known stripped =>
    rw [Text.stripPrefix_eq_some_iff.mp stripped] at other
    split
    case isTrue alone =>
      subst alone
      exact absurd rfl (other [])
    case isFalse =>
      split
      case h_1 inner slashed =>
        rw [Text.stripPrefix_eq_some_iff.mp slashed] at other
        exact absurd (components_home inner) (other (names inner))
      case h_2 => rfl
  case h_2 => rfl

/-- A path that begins with `~` leads on from the home directory. -/
theorem foldl_components_expand {home : PathBuf} (known : host.homeDir = some home)
    (first : components path = .normal ['~'] :: more) (segments : List Text) :
    (components (maybeExpandHomeDirectory host path)).foldl applyComponent segments =
      more.foldl applyComponent ((components home).foldl applyComponent segments) := by
  obtain ⟨rfl, rfl⟩ | ⟨rest, rfl, rfl⟩ := exists_of_components_home first
  · have stripped : Text.stripPrefix ['~'] ['~'] = some [] := Text.stripPrefix_append ['~'] []
    have expanded : maybeExpandHomeDirectory host ['~'] = home := by
      rw [maybeExpandHomeDirectory, known, stripped]
      rfl
    rw [expanded]
    rfl
  · have stripped : Text.stripPrefix ('~' :: '/' :: rest) ['~'] = some ('/' :: rest) :=
      Text.stripPrefix_append ['~'] ('/' :: rest)
    have slashed : Text.stripPrefix ('/' :: rest) ['/'] = some rest :=
      Text.stripPrefix_append ['/'] rest
    have expanded : maybeExpandHomeDirectory host ('~' :: '/' :: rest) =
        PathBuf.join home (rest.dropWhile (· == '/')) := by
      simp only [maybeExpandHomeDirectory, known, stripped, slashed, List.cons_ne_nil, if_false]
    have relative := isAbsolute_dropWhile rest
    rw [expanded, foldl_components_join segments home relative, names_dropWhile]

/-- What a path leads to depends on its components only. -/
theorem resolvePathAgainstBase_congr (same : components left = components right)
    (base : AbsolutePathBuf) :
    resolvePathAgainstBase host left base.asPath =
      resolvePathAgainstBase host right base.asPath := by
  have folds (segments : List Text) :
      (components (maybeExpandHomeDirectory host left)).foldl applyComponent segments =
        (components (maybeExpandHomeDirectory host right)).foldl applyComponent segments := by
    by_cases begins : ∃ more, components left = .normal ['~'] :: more
    · obtain ⟨more, first⟩ := begins
      cases known : host.homeDir with
      | some home =>
          rw [foldl_components_expand known first,
            foldl_components_expand known (same.symm.trans first)]
      | none => simp only [maybeExpandHomeDirectory, known, same]
    · push Not at begins
      rw [maybeExpandHomeDirectory_of_components begins,
        maybeExpandHomeDirectory_of_components fun more => same ▸ begins more, same]
  rw [resolvePathAgainstBase, resolvePathAgainstBase, host.absolutizeFrom_base,
    host.absolutizeFrom_base]
  exact AbsolutePathBuf.ext (folds base.segments)

end Names

end AbsolutePathBuf
end CodexPilot
