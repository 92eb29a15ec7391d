import CodexPilot.AbsolutePath
import CodexPilot.Library.Specificity

/-!
# File system sandbox policies

A policy is a list of entries, each granting an access mode to a path or to a special location.  The
entries are resolved against the working directory, and the access of a path is that of the most
specific resolved entry that contains it.
-/

namespace CodexPilot.Sandbox

open RustStd

/-! ## Policies -/

/-- The policy for the network. -/
inductive NetworkSandboxPolicy where
  | restricted
  | enabled
  deriving DecidableEq

def NetworkSandboxPolicy.isEnabled (policy : NetworkSandboxPolicy) : Bool :=
  policy == .enabled

/-- Access mode of an entry. -/
inductive FileSystemAccessMode where
  | read
  | write
  | none
  deriving DecidableEq

namespace FileSystemAccessMode

def canRead (mode : FileSystemAccessMode) : Bool := mode != .none

def canWrite (mode : FileSystemAccessMode) : Bool := mode == .write

/-- Position in the order of the declaration: `none` beats `write`, and `write` beats `read`. -/
def rank : FileSystemAccessMode → ℕ
  | .read => 0
  | .write => 1
  | .none => 2

theorem rank_injective : Function.Injective rank := by
  intro left right same
  cases left <;> cases right <;> first | rfl | cases same

instance : LinearOrder FileSystemAccessMode := LinearOrder.lift' rank rank_injective

theorem le_iff_rank {left right : FileSystemAccessMode} : left ≤ right ↔ left.rank ≤ right.rank :=
  Iff.rfl

@[simp]
theorem canWrite_iff {mode : FileSystemAccessMode} : mode.canWrite = true ↔ mode = .write := by
  simp [canWrite]

@[simp]
theorem canRead_iff {mode : FileSystemAccessMode} : mode.canRead = true ↔ mode ≠ .none := by
  simp [canRead]

end FileSystemAccessMode

/-- A location that is named by what it is for. -/
inductive FileSystemSpecialPath where
  | root
  | minimal
  | currentWorkingDirectory
  | projectRoots (subpath : Option PathBuf)
  | tmpdir
  | slashTmp
  | unknown (path : Text) (subpath : Option PathBuf)
  deriving DecidableEq

/-- The path of an entry. -/
inductive FileSystemPath where
  | path (path : AbsolutePathBuf)
  | special (value : FileSystemSpecialPath)
  deriving DecidableEq

/-- A path and the access to it. -/
structure FileSystemSandboxEntry where
  path : FileSystemPath
  access : FileSystemAccessMode
  deriving DecidableEq

/-- The kind of a policy. -/
inductive FileSystemSandboxKind where
  | restricted
  | unrestricted
  | externalSandbox
  deriving DecidableEq

/-- The policy for the file system. -/
structure FileSystemSandboxPolicy where
  kind : FileSystemSandboxKind
  entries : List FileSystemSandboxEntry

/-- An entry with its path resolved. -/
structure ResolvedFileSystemEntry where
  path : AbsolutePathBuf
  access : FileSystemAccessMode
  deriving DecidableEq

/-! ## Entries of one target -/

def slashTmpPath : AbsolutePathBuf := ⟨["tmp".toList], by decide⟩

/-- Special locations that resolve to one place whatever the working directory is. -/
def specialPathsShareTarget : FileSystemSpecialPath → FileSystemSpecialPath → Bool
  | .root, .root | .minimal, .minimal | .currentWorkingDirectory, .currentWorkingDirectory
  | .tmpdir, .tmpdir | .slashTmp, .slashTmp => true
  | .currentWorkingDirectory, .projectRoots none
  | .projectRoots none, .currentWorkingDirectory => true
  | .projectRoots left, .projectRoots right =>
      left.map PathBuf.components == right.map PathBuf.components
  | .unknown left leftSubpath, .unknown right rightSubpath =>
      left == right &&
        leftSubpath.map PathBuf.components == rightSubpath.map PathBuf.components
  | _, _ => false

def specialPathMatchesAbsolutePath (value : FileSystemSpecialPath) (path : AbsolutePathBuf) :
    Bool :=
  match value with
  | .root => path.parent.isNone
  | .slashTmp => path == slashTmpPath
  | _ => false

/-- `file_system_paths_share_target`. -/
def fileSystemPathsShareTarget : FileSystemPath → FileSystemPath → Bool
  | .path left, .path right => left == right
  | .special left, .special right => specialPathsShareTarget left right
  | .path path, .special value | .special value, .path path =>
      specialPathMatchesAbsolutePath value path

/-! ## Resolution -/

/-- The root above a working directory. -/
def absoluteRootPathForCwd (cwd : AbsolutePathBuf) : AbsolutePathBuf :=
  cwd.ancestors.getLastD AbsolutePathBuf.root

def resolveFileSystemSpecialPath (host : Host) (value : FileSystemSpecialPath)
    (cwd : Option AbsolutePathBuf) : Option AbsolutePathBuf :=
  match value with
  | .root | .minimal | .unknown _ _ => none
  | .currentWorkingDirectory => cwd
  | .projectRoots subpath => do
      let cwd ← cwd
      match subpath with
      | some subpath => some (AbsolutePathBuf.resolvePathAgainstBase host subpath cwd.asPath)
      | none => some cwd
  | .tmpdir => do
      let tmpdir ← host.tmpdir
      if tmpdir = [] then none else AbsolutePathBuf.fromAbsolutePath host tmpdir
  | .slashTmp => if host.isDir slashTmpPath then some slashTmpPath else none

def resolveFileSystemPath (host : Host) (path : FileSystemPath) (cwd : Option AbsolutePathBuf) :
    Option AbsolutePathBuf :=
  match path with
  | .path path => some path
  | .special value => resolveFileSystemSpecialPath host value cwd

/-- `resolve_entry_path`. -/
def resolveEntryPath (host : Host) (path : FileSystemPath) (cwd : Option AbsolutePathBuf) :
    Option AbsolutePathBuf :=
  match path with
  | .special .root => cwd.map absoluteRootPathForCwd
  | path => resolveFileSystemPath host path cwd

def resolveCandidatePath (host : Host) (path cwd : PathBuf) : Option AbsolutePathBuf :=
  if PathBuf.isAbsolute path then AbsolutePathBuf.fromAbsolutePath host path
  else some (AbsolutePathBuf.resolvePathAgainstBase host path cwd)

/-- The most specific path comes first, then the access mode breaks the tie. -/
def resolvedEntryPrecedence (entry : ResolvedFileSystemEntry) : ℕ ×ₗ FileSystemAccessMode :=
  toLex (entry.path.componentsCount, entry.access)

/-- The access of a path under resolved entries. -/
def mostSpecificAccess (entries : List ResolvedFileSystemEntry) (path : AbsolutePathBuf) :
    FileSystemAccessMode :=
  ((maxByKey resolvedEntryPrecedence
    (entries.filter fun entry => path.startsWith entry.path)).map (·.access)).getD .none

namespace FileSystemSandboxPolicy

/-- `has_root_access`. -/
def hasRootAccess (policy : FileSystemSandboxPolicy) (predicate : FileSystemAccessMode → Bool) :
    Bool :=
  policy.kind == .restricted &&
    policy.entries.any fun entry => entry.path == .special .root && predicate entry.access

def hasExplicitDenyEntries (policy : FileSystemSandboxPolicy) : Bool :=
  policy.kind == .restricted && policy.entries.any fun entry => entry.access == .none

/-- A write entry of the same target that beats the given entry. -/
def hasSameTargetWriteOverride (policy : FileSystemSandboxPolicy)
    (entry : FileSystemSandboxEntry) : Bool :=
  policy.entries.any fun candidate =>
    candidate.access.canWrite && decide (entry.access < candidate.access) &&
      fileSystemPathsShareTarget candidate.path entry.path

/-- Some entry reduces a write grant on the root. -/
def hasWriteNarrowingEntries (policy : FileSystemSandboxPolicy) : Bool :=
  policy.kind == .restricted &&
    policy.entries.any fun entry =>
      if entry.access.canWrite then false
      else
        match entry.path with
        | .path _ => !policy.hasSameTargetWriteOverride entry
        | .special .root => entry.access == .none
        | .special .minimal | .special (.unknown _ _) => false
        | .special _ => !policy.hasSameTargetWriteOverride entry

def hasFullDiskReadAccess (policy : FileSystemSandboxPolicy) : Bool :=
  match policy.kind with
  | .unrestricted | .externalSandbox => true
  | .restricted =>
      policy.hasRootAccess FileSystemAccessMode.canRead && !policy.hasExplicitDenyEntries

/-- `has_full_disk_write_access`. -/
def hasFullDiskWriteAccess (policy : FileSystemSandboxPolicy) : Bool :=
  match policy.kind with
  | .unrestricted | .externalSandbox => true
  | .restricted =>
      policy.hasRootAccess FileSystemAccessMode.canWrite && !policy.hasWriteNarrowingEntries

/-- Whether the platform's default readable roots are wanted. -/
def includePlatformDefaults (policy : FileSystemSandboxPolicy) : Bool :=
  !policy.hasFullDiskReadAccess && policy.kind == .restricted &&
    policy.entries.any fun entry =>
      entry.path == .special .minimal && entry.access.canRead

def resolvedEntriesWithCwd (host : Host) (policy : FileSystemSandboxPolicy) (cwd : PathBuf) :
    List ResolvedFileSystemEntry :=
  let cwdAbsolute := AbsolutePathBuf.fromAbsolutePath host cwd
  policy.entries.filterMap fun entry =>
    (resolveEntryPath host entry.path cwdAbsolute).map fun path => { path, access := entry.access }

/-- `resolve_access_with_cwd`. -/
def resolveAccessWithCwd (host : Host) (policy : FileSystemSandboxPolicy) (path cwd : PathBuf) :
    FileSystemAccessMode :=
  match policy.kind with
  | .unrestricted | .externalSandbox => .write
  | .restricted =>
      match resolveCandidatePath host path cwd with
      | none => .none
      | some path => mostSpecificAccess (policy.resolvedEntriesWithCwd host cwd) path

/-- `can_read_path_with_cwd`. -/
def canReadPathWithCwd (host : Host) (policy : FileSystemSandboxPolicy) (path cwd : PathBuf) :
    Bool :=
  (policy.resolveAccessWithCwd host path cwd).canRead

/-- `can_write_path_with_cwd`. -/
def canWritePathWithCwd (host : Host) (policy : FileSystemSandboxPolicy) (path cwd : PathBuf) :
    Bool :=
  (policy.resolveAccessWithCwd host path cwd).canWrite

end FileSystemSandboxPolicy

theorem absoluteRootPathForCwd_eq (directory : AbsolutePathBuf) :
    absoluteRootPathForCwd directory = AbsolutePathBuf.root := by
  have last : directory.ancestors = ((List.range directory.segments.length).reverse.map fun count =>
      directory.take (count + 1)) ++ [directory.take 0] := by
    rw [AbsolutePathBuf.ancestors, List.range_succ_eq_map]
    simp [Function.comp_def]
  rw [absoluteRootPathForCwd, last, List.getLastD_eq_getLast?, List.getLast?_concat]
  rfl

/-! ## The deciding entry -/

/-- The entry decides the access of the path. -/
abbrev Decides (entries : List ResolvedFileSystemEntry) (path : AbsolutePathBuf)
    (entry : ResolvedFileSystemEntry) : Prop :=
  Specificity.Decides (fun entry : ResolvedFileSystemEntry => entry.path.segments)
    (fun entry => entry.access) entries path.segments entry

theorem exists_decides {entries : List ResolvedFileSystemEntry} {path : AbsolutePathBuf}
    {entry : ResolvedFileSystemEntry} (member : entry ∈ entries)
    (covers : entry.path.segments <+: path.segments) : ∃ winner, Decides entries path winner :=
  Specificity.exists_decides ⟨entry, member, covers⟩

theorem mostSpecificAccess_cases (entries : List ResolvedFileSystemEntry) (path : AbsolutePathBuf) :
    (∃ entry, Decides entries path entry ∧ mostSpecificAccess entries path = entry.access) ∨
      ((∀ entry ∈ entries, ¬ entry.path.segments <+: path.segments) ∧
        mostSpecificAccess entries path = .none) := by
  cases found : maxByKey resolvedEntryPrecedence
      (entries.filter fun entry => path.startsWith entry.path) with
  | some entry =>
      refine Or.inl ⟨entry, ?_, by simp [mostSpecificAccess, found]⟩
      exact Specificity.decides_of_maxByKey 1 (fun _ => rfl) found
  | none =>
      refine Or.inr ⟨?_, by simp [mostSpecificAccess, found]⟩
      intro entry member covers
      have empty := maxByKey_eq_none_iff.mp found
      have inside : entry ∈ entries.filter fun entry => path.startsWith entry.path :=
        List.mem_filter.mpr ⟨member, AbsolutePathBuf.startsWith_iff.mpr covers⟩
      rw [empty] at inside
      cases inside

theorem mostSpecificAccess_of_decides {entries : List ResolvedFileSystemEntry}
    {path : AbsolutePathBuf} {entry : ResolvedFileSystemEntry}
    (decides : Decides entries path entry) : mostSpecificAccess entries path = entry.access := by
  rcases mostSpecificAccess_cases entries path with ⟨other, others, same⟩ | ⟨uncovered, _⟩
  · rw [same]
    exact decides.value_eq others
  · exact absurd decides.covers (uncovered entry decides.member)

/-- A path is readable or writable only through an entry that decides it. -/
theorem exists_decides_of_access {entries : List ResolvedFileSystemEntry} {path : AbsolutePathBuf}
    (granted : mostSpecificAccess entries path ≠ .none) :
    ∃ entry, Decides entries path entry ∧ entry.access = mostSpecificAccess entries path := by
  rcases mostSpecificAccess_cases entries path with ⟨entry, decides, same⟩ | ⟨_, denied⟩
  · exact ⟨entry, decides, same.symm⟩
  · exact absurd denied granted

namespace FileSystemSandboxPolicy

theorem mem_resolvedEntriesWithCwd {policy : FileSystemSandboxPolicy} {host : Host}
    {cwd : PathBuf} {resolved : ResolvedFileSystemEntry} :
    resolved ∈ policy.resolvedEntriesWithCwd host cwd ↔
      ∃ entry ∈ policy.entries, entry.access = resolved.access ∧
        resolveEntryPath host entry.path (AbsolutePathBuf.fromAbsolutePath host cwd) =
          some resolved.path := by
  obtain ⟨path, access⟩ := resolved
  simp only [resolvedEntriesWithCwd, List.mem_filterMap,
    Option.map_eq_some_iff, ResolvedFileSystemEntry.mk.injEq]
  constructor
  · rintro ⟨entry, member, resolvedPath, found, rfl, rfl⟩
    exact ⟨entry, member, rfl, found⟩
  · rintro ⟨entry, member, rfl, found⟩
    exact ⟨entry, member, path, found, rfl, rfl⟩

theorem resolveAccessWithCwd_restricted {host : Host} {policy : FileSystemSandboxPolicy}
    (restricted : policy.kind = .restricted) {path cwd : PathBuf} {resolved : AbsolutePathBuf}
    (candidate : resolveCandidatePath host path cwd = some resolved) :
    policy.resolveAccessWithCwd host path cwd =
      mostSpecificAccess (policy.resolvedEntriesWithCwd host cwd) resolved := by
  simp [resolveAccessWithCwd, restricted, candidate]

theorem resolveCandidatePath_asPath (host : Host) (path : AbsolutePathBuf) (cwd : PathBuf) :
    resolveCandidatePath host path.asPath cwd = some path := by
  have absolute : PathBuf.isAbsolute path.asPath = true := rfl
  rw [resolveCandidatePath, if_pos absolute, AbsolutePathBuf.fromAbsolutePath_asPath]

theorem canWritePathWithCwd_iff {host : Host} {policy : FileSystemSandboxPolicy}
    (restricted : policy.kind = .restricted) {path cwd : PathBuf} {resolved : AbsolutePathBuf}
    (candidate : resolveCandidatePath host path cwd = some resolved) :
    policy.canWritePathWithCwd host path cwd = true ↔
      mostSpecificAccess (policy.resolvedEntriesWithCwd host cwd) resolved = .write := by
  rw [canWritePathWithCwd, resolveAccessWithCwd_restricted restricted candidate]
  exact FileSystemAccessMode.canWrite_iff

theorem canReadPathWithCwd_iff {host : Host} {policy : FileSystemSandboxPolicy}
    (restricted : policy.kind = .restricted) {path cwd : PathBuf} {resolved : AbsolutePathBuf}
    (candidate : resolveCandidatePath host path cwd = some resolved) :
    policy.canReadPathWithCwd host path cwd = true ↔
      mostSpecificAccess (policy.resolvedEntriesWithCwd host cwd) resolved ≠ .none := by
  rw [canReadPathWithCwd, resolveAccessWithCwd_restricted restricted candidate]
  exact FileSystemAccessMode.canRead_iff

end FileSystemSandboxPolicy

end CodexPilot.Sandbox
