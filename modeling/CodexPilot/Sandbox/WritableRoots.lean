import CodexPilot.Sandbox.Permissions

/-!
# Writable roots

The flattened form of a policy that sandboxes consume: every effective write entry becomes a root,
and everything below it that must stay read-only becomes one of its carve-outs.
-/

namespace CodexPilot

open RustStd

namespace AbsolutePathBuf

/-- What is left of a path behind its first `count` segments, put under another path. -/
def rebase (base path : AbsolutePathBuf) (count : ℕ) : AbsolutePathBuf where
  segments := base.segments ++ path.segments.drop count
  named := by
    intro name member
    rcases List.mem_append.mp member with inBase | inPath
    · exact base.named name inBase
    · exact path.named name (List.mem_of_mem_drop inPath)

end AbsolutePathBuf

namespace Sandbox

/-- Resolve the symbolic links of the longest existing ancestor. -/
def normalizeEffectiveAbsolutePath (host : Host) (path : AbsolutePathBuf) : AbsolutePathBuf :=
  ((List.range (path.segments.length + 1)).reverse.findSome? fun count =>
    (host.canonicalize (path.take count)).map fun canonicalAncestor =>
      canonicalAncestor.rebase path count).getD path

/-- Keep the first of equal paths. -/
def dedupAbsolutePaths (host : Host) (paths : List AbsolutePathBuf)
    (normalizeEffectivePaths : Bool) : List AbsolutePathBuf :=
  (if normalizeEffectivePaths then paths.map (normalizeEffectiveAbsolutePath host)
    else paths).eraseDups

/-! ## Protected metadata -/

def dotGit : Text := ".git".toList
def dotAgents : Text := ".agents".toList
def dotCodex : Text := ".codex".toList

def isGitPointerFile (host : Host) (path : AbsolutePathBuf) : Bool :=
  host.isFile path && path.segments.getLast? == some dotGit

/-- `str::split_once(':')`, the second half. -/
def afterColon (text : Text) : Option Text :=
  match text.dropWhile (· != ':') with
  | [] => none
  | _ :: rest => some rest

/-- The existing directory that a `gitdir:` pointer file names. -/
def resolveGitdirFromFile (host : Host) (dotGit : AbsolutePathBuf) : Option AbsolutePathBuf := do
  let contents ← host.readToString dotGit
  let gitdirRaw ← afterColon contents.trim
  if gitdirRaw.trim = [] then none
  else do
    let base ← dotGit.parent
    let gitdirPath := AbsolutePathBuf.resolvePathAgainstBase host gitdirRaw.trim base.asPath
    if host.pathExists gitdirPath then some gitdirPath else none

def defaultReadOnlySubpathsForWritableRoot (host : Host) (writableRoot : AbsolutePathBuf)
    (protectMissingDotCodex : Bool) : List AbsolutePathBuf :=
  let topLevelGit := writableRoot.join host dotGit
  let git :=
    if host.isDir topLevelGit || host.isFile topLevelGit then
      (if host.isFile topLevelGit && isGitPointerFile host topLevelGit then
        (resolveGitdirFromFile host topLevelGit).toList
      else []) ++ [topLevelGit]
    else []
  let topLevelAgents := writableRoot.join host dotAgents
  let agents := if host.isDir topLevelAgents then [topLevelAgents] else []
  let topLevelCodex := writableRoot.join host dotCodex
  let codex :=
    if protectMissingDotCodex || host.isDir topLevelCodex then [topLevelCodex] else []
  dedupAbsolutePaths host (git ++ agents ++ codex) false

def hasExplicitResolvedPathEntry (entries : List ResolvedFileSystemEntry)
    (path : AbsolutePathBuf) : Bool :=
  entries.any fun entry => entry.path == path

/-! ## Roots -/

/-- A root, and what is read-only below. -/
structure WritableRoot where
  root : AbsolutePathBuf
  readOnlySubpaths : List AbsolutePathBuf
  deriving DecidableEq

/-- `is_path_writable`. -/
def WritableRoot.isPathWritable (writableRoot : WritableRoot) (path : AbsolutePathBuf) : Bool :=
  path.startsWith writableRoot.root &&
    !writableRoot.readOnlySubpaths.any fun subpath => path.startsWith subpath

/-- Where a non-write entry is carved out of a root: at its literal place when that lies in the
root, else at its effective place. -/
def carveoutPath (host : Host) (root : AbsolutePathBuf) (rawWritableRoots : List AbsolutePathBuf)
    (path : AbsolutePathBuf) : Option AbsolutePathBuf :=
  let effectivePath := normalizeEffectiveAbsolutePath host path
  let rawCarveoutPath :=
    if root.parent.isSome then
      if path = root then none
      else if path.startsWith root then some path
      else
        rawWritableRoots.findSome? fun rawRoot =>
          match path.stripPrefix rawRoot with
          | none | some [] => none
          | some suffix => some (root.join host (Text.join ['/'] suffix))
    else none
  match rawCarveoutPath with
  | some rawCarveoutPath => some rawCarveoutPath
  | none =>
      if effectivePath = root ∨ effectivePath.startsWith root = false then none
      else some effectivePath

namespace FileSystemSandboxPolicy

/-- The paths of the write entries that are in effect. -/
def writableEntries (host : Host) (policy : FileSystemSandboxPolicy) (cwd : PathBuf) :
    List AbsolutePathBuf :=
  (((policy.resolvedEntriesWithCwd host cwd).filter fun entry => entry.access.canWrite).filter
    fun entry => policy.canWritePathWithCwd host entry.path.asPath cwd).map (·.path)

/-- The working directory itself protects its `.codex` before it exists. -/
def protectMissingDotCodex (host : Host) (cwd : PathBuf) (root : AbsolutePathBuf) : Bool :=
  (AbsolutePathBuf.fromAbsolutePath host cwd).any fun cwd =>
    normalizeEffectiveAbsolutePath host cwd == root

/-- The default carve-outs of a root that no entry overrides. -/
def defaultCarveouts (host : Host) (policy : FileSystemSandboxPolicy) (cwd : PathBuf)
    (root : AbsolutePathBuf) : List AbsolutePathBuf :=
  (defaultReadOnlySubpathsForWritableRoot host root (protectMissingDotCodex host cwd root)).filter
    fun path => !hasExplicitResolvedPathEntry (policy.resolvedEntriesWithCwd host cwd) path

/-- The carve-outs of a root that non-write entries make. -/
def explicitCarveouts (host : Host) (policy : FileSystemSandboxPolicy) (cwd : PathBuf)
    (root : AbsolutePathBuf) : List AbsolutePathBuf :=
  let rawWritableRoots := (policy.writableEntries host cwd).filter fun path =>
    normalizeEffectiveAbsolutePath host path == root
  (((policy.resolvedEntriesWithCwd host cwd).filter fun entry => !entry.access.canWrite).filter
    fun entry => !policy.canWritePathWithCwd host entry.path.asPath cwd).filterMap
      fun entry => carveoutPath host root rawWritableRoots entry.path

/-- A root together with its carve-outs. -/
def writableRootFor (host : Host) (policy : FileSystemSandboxPolicy) (cwd : PathBuf)
    (root : AbsolutePathBuf) : WritableRoot where
  root := root
  readOnlySubpaths :=
    dedupAbsolutePaths host
      (policy.defaultCarveouts host cwd root ++ policy.explicitCarveouts host cwd root) false

/-- `get_writable_roots_with_cwd`. -/
def getWritableRootsWithCwd (host : Host) (policy : FileSystemSandboxPolicy) (cwd : PathBuf) :
    List WritableRoot :=
  if policy.hasFullDiskWriteAccess then []
  else
    (dedupAbsolutePaths host (policy.writableEntries host cwd) true).map
      (policy.writableRootFor host cwd)

def getReadableRootsWithCwd (host : Host) (policy : FileSystemSandboxPolicy) (cwd : PathBuf) :
    List AbsolutePathBuf :=
  if policy.hasFullDiskReadAccess then []
  else
    dedupAbsolutePaths host
      ((((policy.resolvedEntriesWithCwd host cwd).filter fun entry => entry.access.canRead).filter
        fun entry => policy.canReadPathWithCwd host entry.path.asPath cwd).map (·.path))
      true

/-- The denied roots.  The file system root is left out, since everything that is not granted is
denied anyway. -/
def getUnreadableRootsWithCwd (host : Host) (policy : FileSystemSandboxPolicy) (cwd : PathBuf) :
    List AbsolutePathBuf :=
  if policy.kind ≠ .restricted then []
  else
    let root := (AbsolutePathBuf.fromAbsolutePath host cwd).map absoluteRootPathForCwd
    dedupAbsolutePaths host
      (((((policy.resolvedEntriesWithCwd host cwd).filter fun entry => entry.access == .none).filter
        fun entry => !policy.canReadPathWithCwd host entry.path.asPath cwd).filter
          fun entry => root != some entry.path).map (·.path))
      true

end FileSystemSandboxPolicy

/-! ## Membership -/

section Membership

variable {host : Host} {policy : FileSystemSandboxPolicy} {cwd : PathBuf} {path : AbsolutePathBuf}

theorem mem_dedupAbsolutePaths_false {paths : List AbsolutePathBuf} :
    path ∈ dedupAbsolutePaths host paths false ↔ path ∈ paths := by
  simp [dedupAbsolutePaths, List.mem_eraseDups]

theorem mem_dedupAbsolutePaths_true {paths : List AbsolutePathBuf} :
    path ∈ dedupAbsolutePaths host paths true ↔
      ∃ raw ∈ paths, normalizeEffectiveAbsolutePath host raw = path := by
  simp [dedupAbsolutePaths, List.mem_eraseDups]

theorem WritableRoot.isPathWritable_iff {writableRoot : WritableRoot} :
    writableRoot.isPathWritable path = true ↔
      writableRoot.root.segments <+: path.segments ∧
        ∀ subpath ∈ writableRoot.readOnlySubpaths, ¬ subpath.segments <+: path.segments := by
  simp [WritableRoot.isPathWritable, AbsolutePathBuf.startsWith_iff]

theorem mem_writableEntries (restricted : policy.kind = .restricted) :
    path ∈ policy.writableEntries host cwd ↔
      ⟨path, .write⟩ ∈ policy.resolvedEntriesWithCwd host cwd ∧
        mostSpecificAccess (policy.resolvedEntriesWithCwd host cwd) path = .write := by
  simp only [FileSystemSandboxPolicy.writableEntries, List.mem_map, List.mem_filter,
    FileSystemAccessMode.canWrite_iff, FileSystemSandboxPolicy.canWritePathWithCwd_iff restricted
      (FileSystemSandboxPolicy.resolveCandidatePath_asPath host _ cwd)]
  constructor
  · rintro ⟨⟨_, _⟩, ⟨⟨member, rfl⟩, writable⟩, rfl⟩
    exact ⟨member, writable⟩
  · rintro ⟨member, writable⟩
    exact ⟨⟨path, .write⟩, ⟨⟨member, rfl⟩, writable⟩, rfl⟩

/-- The non-write entries that are in effect. -/
def Denies (entries : List ResolvedFileSystemEntry) (entry : ResolvedFileSystemEntry) : Prop :=
  entry ∈ entries ∧ entry.access ≠ .write ∧ mostSpecificAccess entries entry.path ≠ .write

theorem mem_explicitCarveouts (restricted : policy.kind = .restricted) {root : AbsolutePathBuf} :
    path ∈ policy.explicitCarveouts host cwd root ↔
      ∃ entry, Denies (policy.resolvedEntriesWithCwd host cwd) entry ∧
        carveoutPath host root ((policy.writableEntries host cwd).filter fun raw =>
          normalizeEffectiveAbsolutePath host raw == root) entry.path = some path := by
  simp only [FileSystemSandboxPolicy.explicitCarveouts, List.mem_filterMap, List.mem_filter,
    Bool.not_eq_true', ← Bool.not_eq_true, FileSystemAccessMode.canWrite_iff,
    FileSystemSandboxPolicy.canWritePathWithCwd_iff restricted
      (FileSystemSandboxPolicy.resolveCandidatePath_asPath host _ cwd), Denies, and_assoc, ne_eq]

theorem mem_defaultCarveouts {root : AbsolutePathBuf} :
    path ∈ policy.defaultCarveouts host cwd root ↔
      path ∈ defaultReadOnlySubpathsForWritableRoot host root
          (FileSystemSandboxPolicy.protectMissingDotCodex host cwd root) ∧
        ∀ entry ∈ policy.resolvedEntriesWithCwd host cwd, entry.path ≠ path := by
  simp [FileSystemSandboxPolicy.defaultCarveouts, hasExplicitResolvedPathEntry]

theorem mem_readOnlySubpaths_writableRootFor (restricted : policy.kind = .restricted)
    {root : AbsolutePathBuf} :
    path ∈ (policy.writableRootFor host cwd root).readOnlySubpaths ↔
      path ∈ policy.defaultCarveouts host cwd root ∨
      ∃ entry, Denies (policy.resolvedEntriesWithCwd host cwd) entry ∧
        carveoutPath host root ((policy.writableEntries host cwd).filter fun raw =>
          normalizeEffectiveAbsolutePath host raw == root) entry.path = some path := by
  rw [FileSystemSandboxPolicy.writableRootFor, mem_dedupAbsolutePaths_false, List.mem_append,
    mem_explicitCarveouts restricted]

/-- The returned roots are the effective write entries. -/
theorem mem_getWritableRootsWithCwd (limited : policy.hasFullDiskWriteAccess = false)
    {writableRoot : WritableRoot} :
    writableRoot ∈ policy.getWritableRootsWithCwd host cwd ↔
      ∃ raw ∈ policy.writableEntries host cwd,
        writableRoot = policy.writableRootFor host cwd
          (normalizeEffectiveAbsolutePath host raw) := by
  simp only [FileSystemSandboxPolicy.getWritableRootsWithCwd, limited, Bool.false_eq_true,
    ↓reduceIte, List.mem_map, mem_dedupAbsolutePaths_true]
  constructor
  · rintro ⟨_, ⟨raw, member, rfl⟩, rfl⟩
    exact ⟨raw, member, rfl⟩
  · rintro ⟨raw, member, rfl⟩
    exact ⟨_, ⟨raw, member, rfl⟩, rfl⟩

end Membership

/-! ## Without symbolic links -/

/-- No path of the host leads through a symbolic link. -/
structure SymlinkFree (host : Host) : Prop where
  canonical : ∀ path resolved, host.canonicalize path = some resolved → resolved = path
  plain : ∀ path, host.isSymlink path = false

section SymlinkFree

variable {host : Host} {policy : FileSystemSandboxPolicy} {cwd : PathBuf} {path : AbsolutePathBuf}

theorem SymlinkFree.normalize (symlinkFree : SymlinkFree host) (path : AbsolutePathBuf) :
    normalizeEffectiveAbsolutePath host path = path := by
  rw [normalizeEffectiveAbsolutePath]
  cases found : (List.range (path.segments.length + 1)).reverse.findSome? fun count =>
      (host.canonicalize (path.take count)).map fun canonicalAncestor =>
        canonicalAncestor.rebase path count with
  | none => rfl
  | some normalized =>
      obtain ⟨count, _, mapped⟩ := List.exists_of_findSome?_eq_some found
      obtain ⟨canonical, canonicalized, rfl⟩ := Option.map_eq_some_iff.mp mapped
      rw [symlinkFree.canonical _ _ canonicalized]
      ext1
      exact List.take_append_drop count path.segments

/-- Without links, an entry is carved out of the roots strictly above it, at its own place. -/
theorem SymlinkFree.carveoutPath_eq_some (symlinkFree : SymlinkFree host)
    {root : AbsolutePathBuf} {rawWritableRoots : List AbsolutePathBuf}
    (raw : ∀ rawRoot ∈ rawWritableRoots, rawRoot = root) {carved : AbsolutePathBuf} :
    carveoutPath host root rawWritableRoots path = some carved ↔
      carved = path ∧ path ≠ root ∧ root.segments <+: path.segments := by
  simp only [carveoutPath, symlinkFree.normalize]
  by_cases same : path = root
  · simp [same]
  cases inside : path.startsWith root with
  | true =>
      have covers := AbsolutePathBuf.startsWith_iff.mp inside
      by_cases parent : root.parent.isSome = true
      all_goals simp [parent, same, covers, eq_comm]
  | false =>
      have outside : ¬ root.segments <+: path.segments := by
        rw [← AbsolutePathBuf.startsWith_iff, inside]
        exact Bool.false_ne_true
      have unstripped : rawWritableRoots.findSome? (fun rawRoot =>
          match path.stripPrefix rawRoot with
          | none | some [] => none
          | some suffix => some (root.join host (Text.join ['/'] suffix))) = none := by
        rw [List.findSome?_eq_none_iff]
        intro rawRoot member
        have nothing : path.stripPrefix rawRoot = none := by
          cases stripped : path.stripPrefix rawRoot with
          | none => rfl
          | some suffix =>
              rw [raw rawRoot member] at stripped
              exact absurd (AbsolutePathBuf.prefix_of_stripPrefix stripped) outside
        simp [nothing]
      by_cases parent : root.parent.isSome = true
      · simp [parent, same, outside, unstripped]
      · simp [parent, outside]

theorem SymlinkFree.mem_readOnlySubpaths (symlinkFree : SymlinkFree host)
    (restricted : policy.kind = .restricted) {root : AbsolutePathBuf} :
    path ∈ (policy.writableRootFor host cwd root).readOnlySubpaths ↔
      path ∈ policy.defaultCarveouts host cwd root ∨
      (∃ entry, Denies (policy.resolvedEntriesWithCwd host cwd) entry ∧ entry.path = path) ∧
        path ≠ root ∧ root.segments <+: path.segments := by
  rw [mem_readOnlySubpaths_writableRootFor restricted]
  have raw : ∀ rawRoot ∈ (policy.writableEntries host cwd).filter fun raw =>
      normalizeEffectiveAbsolutePath host raw == root, rawRoot = root := by
    intro rawRoot inside
    have normalized := (List.mem_filter.mp inside).2
    rwa [symlinkFree.normalize, beq_iff_eq] at normalized
  simp only [symlinkFree.carveoutPath_eq_some raw]
  constructor
  · rintro (default | ⟨entry, denies, rfl, strict⟩)
    · exact Or.inl default
    · exact Or.inr ⟨⟨entry, denies, rfl⟩, strict⟩
  · rintro (default | ⟨⟨entry, denies, rfl⟩, strict⟩)
    · exact Or.inl default
    · exact Or.inr ⟨entry, denies, rfl, strict⟩

/-- Without links, the roots are the write entries in effect. -/
theorem SymlinkFree.mem_roots (symlinkFree : SymlinkFree host)
    (restricted : policy.kind = .restricted) (limited : policy.hasFullDiskWriteAccess = false)
    {writableRoot : WritableRoot} :
    writableRoot ∈ policy.getWritableRootsWithCwd host cwd ↔
      ∃ root, ⟨root, .write⟩ ∈ policy.resolvedEntriesWithCwd host cwd ∧
        mostSpecificAccess (policy.resolvedEntriesWithCwd host cwd) root = .write ∧
        writableRoot = policy.writableRootFor host cwd root := by
  rw [mem_getWritableRootsWithCwd limited]
  simp only [mem_writableEntries restricted, symlinkFree.normalize, and_assoc]

/-- Where a path below a root is not writable, a carve-out of the root contains it. -/
theorem SymlinkFree.exists_carveout (symlinkFree : SymlinkFree host)
    (restricted : policy.kind = .restricted) {root : AbsolutePathBuf}
    (member : ⟨root, .write⟩ ∈ policy.resolvedEntriesWithCwd host cwd)
    (effective : mostSpecificAccess (policy.resolvedEntriesWithCwd host cwd) root = .write)
    (inside : root.segments <+: path.segments)
    (narrowed : mostSpecificAccess (policy.resolvedEntriesWithCwd host cwd) path ≠ .write) :
    ∃ carved ∈ (policy.writableRootFor host cwd root).readOnlySubpaths,
      root.segments <+: carved.segments ∧ carved.segments <+: path.segments := by
  obtain ⟨entry, decides⟩ := exists_decides member inside
  rw [mostSpecificAccess_of_decides decides] at narrowed
  have atEntry := mostSpecificAccess_of_decides decides.at_place
  have notRoot : entry.path ≠ root := by
    intro same
    rw [same, effective] at atEntry
    exact narrowed atEntry.symm
  have denies : Denies (policy.resolvedEntriesWithCwd host cwd) entry :=
    ⟨decides.member, narrowed, fun write => narrowed (atEntry.symm.trans write)⟩
  have below := decides.deepest _ member inside
  refine ⟨entry.path, ?_, below, decides.covers⟩
  exact (symlinkFree.mem_readOnlySubpaths restricted).mpr
    (Or.inr ⟨⟨entry, denies, rfl⟩, notRoot, below⟩)

/-- A path that a root lets be written is writable under the policy. -/
theorem SymlinkFree.write_of_isPathWritable (symlinkFree : SymlinkFree host)
    (restricted : policy.kind = .restricted) {root : AbsolutePathBuf}
    (member : ⟨root, .write⟩ ∈ policy.resolvedEntriesWithCwd host cwd)
    (effective : mostSpecificAccess (policy.resolvedEntriesWithCwd host cwd) root = .write)
    (writable : (policy.writableRootFor host cwd root).isPathWritable path = true) :
    mostSpecificAccess (policy.resolvedEntriesWithCwd host cwd) path = .write := by
  obtain ⟨inside, uncarved⟩ := WritableRoot.isPathWritable_iff.mp writable
  by_contra narrowed
  obtain ⟨carved, isCarved, _, covers⟩ :=
    symlinkFree.exists_carveout restricted member effective inside narrowed
  exact uncarved carved isCarved covers

/-- The most specific root around a path. -/
def IsNearestRoot (roots : List WritableRoot) (path : AbsolutePathBuf) (nearest : WritableRoot) :
    Prop :=
  nearest ∈ roots ∧ path.startsWith nearest.root = true ∧
    ∀ other ∈ roots, path.startsWith other.root = true → nearest.root.startsWith other.root = true

/-- A writable path lies in the root of the entry that decides it, and only default carve-outs of
that root can contain it. -/
theorem SymlinkFree.nearest_of_write (symlinkFree : SymlinkFree host)
    (restricted : policy.kind = .restricted) (limited : policy.hasFullDiskWriteAccess = false)
    (write : mostSpecificAccess (policy.resolvedEntriesWithCwd host cwd) path = .write) :
    ∃ nearest, IsNearestRoot (policy.getWritableRootsWithCwd host cwd) path nearest ∧
      (nearest.isPathWritable path = true ∨
        ∃ subpath ∈ policy.defaultCarveouts host cwd nearest.root,
          path.startsWith subpath = true) := by
  obtain ⟨⟨root, access⟩, decides, sameAccess⟩ := exists_decides_of_access
    (show mostSpecificAccess (policy.resolvedEntriesWithCwd host cwd) path ≠ .none by simp [write])
  obtain rfl : access = .write := sameAccess.trans write
  have effective : mostSpecificAccess (policy.resolvedEntriesWithCwd host cwd) root = .write :=
    mostSpecificAccess_of_decides decides.at_place
  have inside : path.startsWith root = true := AbsolutePathBuf.startsWith_iff.mpr decides.covers
  refine ⟨policy.writableRootFor host cwd root, ⟨?_, inside, ?_⟩, ?_⟩
  · exact (symlinkFree.mem_roots restricted limited).mpr ⟨root, decides.member, effective, rfl⟩
  · intro other member covers
    obtain ⟨otherRoot, otherMember, _, rfl⟩ :=
      (symlinkFree.mem_roots restricted limited).mp member
    exact AbsolutePathBuf.startsWith_iff.mpr
      (decides.deepest _ otherMember (AbsolutePathBuf.startsWith_iff.mp covers))
  · by_cases writable : (policy.writableRootFor host cwd root).isPathWritable path = true
    · exact Or.inl writable
    · rw [WritableRoot.isPathWritable_iff] at writable
      push Not at writable
      obtain ⟨subpath, carved, covers⟩ := writable decides.covers
      rcases (symlinkFree.mem_readOnlySubpaths restricted).mp carved with
        default | ⟨⟨entry, denies, rfl⟩, notRoot, below⟩
      · exact Or.inr ⟨subpath, default, AbsolutePathBuf.startsWith_iff.mpr covers⟩
      · have above := decides.deepest entry denies.1 covers
        have same : entry.path.segments = root.segments :=
          above.eq_of_length_le below.length_le
        exact absurd (AbsolutePathBuf.ext same) notRoot

/-- The writable roots grant what the policy grants, up to the protected metadata of the most
specific root around a path.  A policy that grants the whole disk has no roots. -/
theorem writableRoots_agree (symlinkFree : SymlinkFree host)
    (restricted : policy.kind = .restricted) (cwd : PathBuf) (path : AbsolutePathBuf) :
    ((∃ root ∈ policy.getWritableRootsWithCwd host cwd, root.isPathWritable path = true) →
        policy.canWritePathWithCwd host path.asPath cwd = true) ∧
      (policy.canWritePathWithCwd host path.asPath cwd = true →
        (∃ root ∈ policy.getWritableRootsWithCwd host cwd, root.isPathWritable path = true) ∨
        policy.hasFullDiskWriteAccess = true ∨
        ∃ nearest, IsNearestRoot (policy.getWritableRootsWithCwd host cwd) path nearest ∧
          ∃ subpath ∈ defaultReadOnlySubpathsForWritableRoot host nearest.root
              (FileSystemSandboxPolicy.protectMissingDotCodex host cwd nearest.root),
            path.startsWith subpath = true) := by
  rw [FileSystemSandboxPolicy.canWritePathWithCwd_iff restricted
    (FileSystemSandboxPolicy.resolveCandidatePath_asPath host path cwd)]
  cases limited : policy.hasFullDiskWriteAccess with
  | true => simp [FileSystemSandboxPolicy.getWritableRootsWithCwd, limited]
  | false =>
      constructor
      · rintro ⟨writableRoot, member, writable⟩
        obtain ⟨root, entry, effective, rfl⟩ :=
          (symlinkFree.mem_roots restricted limited).mp member
        exact symlinkFree.write_of_isPathWritable restricted entry effective writable
      · intro write
        obtain ⟨nearest, isNearest, writable | ⟨subpath, carved, covers⟩⟩ :=
          symlinkFree.nearest_of_write restricted limited write
        · exact Or.inl ⟨nearest, isNearest.1, writable⟩
        · exact Or.inr (Or.inr
            ⟨nearest, isNearest, subpath, (mem_defaultCarveouts.mp carved).1, covers⟩)

/-- A host with the given directories and files, and without links. -/
def treeHost (directories : List AbsolutePathBuf) (files : List (AbsolutePathBuf × Text)) : Host :=
  { Host.bare with
    pathExists := fun path => (directories ++ files.map Prod.fst).contains path
    isDir := fun path => directories.contains path
    isFile := fun path => (files.map Prod.fst).contains path
    readToString := fun path => files.lookup path
    canonicalize := fun path =>
      if (directories ++ files.map Prod.fst).contains path then some path else none }

theorem symlinkFree_treeHost (directories : List AbsolutePathBuf)
    (files : List (AbsolutePathBuf × Text)) : SymlinkFree (treeHost directories files) where
  canonical := by
    intro path resolved canonicalized
    simp only [treeHost, Option.ite_none_right_eq_some] at canonicalized
    exact (Option.some.inj canonicalized.2).symm
  plain := fun _ => rfl

/-- The directory `/a`. -/
def outerPath : AbsolutePathBuf := ⟨[['a']], by decide⟩

/-- The directory `/a/b`. -/
def innerPath : AbsolutePathBuf := ⟨[['a'], ['b']], by decide⟩

/-- A writable repository inside a read-only directory of a writable root. -/
def reopenedPolicy : FileSystemSandboxPolicy where
  kind := .restricted
  entries :=
    [⟨.path outerPath, .write⟩, ⟨.path innerPath, .read⟩,
      ⟨.path ⟨[['a'], ['b'], ['c']], by decide⟩, .write⟩]

def reopenedGit : AbsolutePathBuf := ⟨[['a'], ['b'], ['c'], dotGit], by decide⟩

theorem writableRoots_agree_reopened :
    (treeHost [reopenedGit] []).isDir reopenedGit = true ∧
      ∃ nearest, IsNearestRoot
          (reopenedPolicy.getWritableRootsWithCwd (treeHost [reopenedGit] []) ['/'])
          reopenedGit nearest ∧
        ∃ subpath ∈ defaultReadOnlySubpathsForWritableRoot (treeHost [reopenedGit] [])
            nearest.root (FileSystemSandboxPolicy.protectMissingDotCodex
              (treeHost [reopenedGit] []) ['/'] nearest.root),
          reopenedGit.startsWith subpath = true := by
  refine ⟨by decide, ?_⟩
  have agree := (@writableRoots_agree (treeHost [reopenedGit] []) reopenedPolicy
    (symlinkFree_treeHost [reopenedGit] []) rfl ['/'] reopenedGit).2 (by decide)
  rcases agree with writable | full | nearest
  · exact absurd writable (by decide)
  · exact absurd full (by decide)
  · exact nearest

/-- The repository's metadata is no default carve-out of the outer root, which contains it too. -/
theorem writableRoots_disagree_reopened :
    ¬ ∀ (host : Host) (policy : FileSystemSandboxPolicy) (cwd : PathBuf) (path : AbsolutePathBuf),
      SymlinkFree host → policy.kind = .restricted → PathBuf.isAbsolute cwd = true →
        ((∃ root ∈ policy.getWritableRootsWithCwd host cwd, root.isPathWritable path = true) →
          policy.canWritePathWithCwd host path.asPath cwd = true) ∧
        (policy.canWritePathWithCwd host path.asPath cwd = true →
          (∃ root ∈ policy.getWritableRootsWithCwd host cwd, root.isPathWritable path = true) ∨
          ∀ root ∈ policy.getWritableRootsWithCwd host cwd, path.startsWith root.root = true →
            ∃ subpath ∈ defaultReadOnlySubpathsForWritableRoot host root.root
                (FileSystemSandboxPolicy.protectMissingDotCodex host cwd root.root),
              path.startsWith subpath = true) := by
  intro agree
  have split := (agree (treeHost [reopenedGit] []) reopenedPolicy ['/'] reopenedGit
    (symlinkFree_treeHost [reopenedGit] []) rfl rfl).2 (by decide)
  rcases split with writable | protectedEverywhere
  · exact absurd writable (by decide)
  · exact absurd protectedEverywhere (by decide)

end SymlinkFree

/-! ## Protected metadata under several roots -/

section DotCodex

variable {host : Host} {policy : FileSystemSandboxPolicy} {cwd : PathBuf}
  {directory : AbsolutePathBuf}

/-- A carve-out of the root contains the place: a default one without an entry of its own, or that
of a non-write entry in effect. -/
def ShieldedAt (host : Host) (policy : FileSystemSandboxPolicy) (cwd : PathBuf)
    (root place : AbsolutePathBuf) : Prop :=
  (∃ subpath ∈ defaultReadOnlySubpathsForWritableRoot host root
      (FileSystemSandboxPolicy.protectMissingDotCodex host cwd root),
    (∀ entry ∈ policy.resolvedEntriesWithCwd host cwd, entry.path ≠ subpath) ∧
      place.startsWith subpath = true) ∨
  ∃ entry, Denies (policy.resolvedEntriesWithCwd host cwd) entry ∧
    ∃ carved, carveoutPath host root ((policy.writableEntries host cwd).filter fun raw =>
        normalizeEffectiveAbsolutePath host raw == root) entry.path = some carved ∧
      place.startsWith carved = true

/-- Every write entry in effect whose root is not the directory itself is kept off the `.codex` of
the directory by a carve-out of its own. -/
def OtherRootsShielded (host : Host) (policy : FileSystemSandboxPolicy) (cwd : PathBuf)
    (directory : AbsolutePathBuf) : Prop :=
  ∀ raw, ⟨raw, .write⟩ ∈ policy.resolvedEntriesWithCwd host cwd →
    policy.canWritePathWithCwd host raw.asPath cwd = true →
    normalizeEffectiveAbsolutePath host raw ≠ directory →
      ((directory.join host dotCodex).startsWith (normalizeEffectiveAbsolutePath host raw) = true →
        ShieldedAt host policy cwd (normalizeEffectiveAbsolutePath host raw)
          (directory.join host dotCodex)) ∧
      ((normalizeEffectiveAbsolutePath host raw).startsWith (directory.join host dotCodex) = true →
        ShieldedAt host policy cwd (normalizeEffectiveAbsolutePath host raw)
          (normalizeEffectiveAbsolutePath host raw))

theorem shieldedAt_iff (restricted : policy.kind = .restricted) {root place : AbsolutePathBuf} :
    ShieldedAt host policy cwd root place ↔
      ∃ subpath ∈ (policy.writableRootFor host cwd root).readOnlySubpaths,
        subpath.segments <+: place.segments := by
  simp only [ShieldedAt, mem_readOnlySubpaths_writableRootFor restricted, mem_defaultCarveouts,
    AbsolutePathBuf.startsWith_iff]
  constructor
  · rintro (⟨subpath, default, unnamed, covers⟩ | ⟨entry, denies, carved, found, covers⟩)
    · exact ⟨subpath, Or.inl ⟨default, unnamed⟩, covers⟩
    · exact ⟨carved, Or.inr ⟨entry, denies, found⟩, covers⟩
  · rintro ⟨subpath, ⟨default, unnamed⟩ | ⟨entry, denies, found⟩, covers⟩
    · exact Or.inl ⟨subpath, default, unnamed, covers⟩
    · exact Or.inr ⟨entry, denies, subpath, found, covers⟩

/-- A root leaves everything below a place read-only exactly when a carve-out contains the place, or
the whole root when the root lies below the place. -/
theorem readOnly_below_iff (writableRoot : WritableRoot) (place : AbsolutePathBuf) :
    (∀ path : AbsolutePathBuf, path.startsWith place = true →
        writableRoot.isPathWritable path = false) ↔
      (writableRoot.root.segments <+: place.segments →
        ∃ subpath ∈ writableRoot.readOnlySubpaths, subpath.segments <+: place.segments) ∧
      (place.segments <+: writableRoot.root.segments →
        ∃ subpath ∈ writableRoot.readOnlySubpaths,
          subpath.segments <+: writableRoot.root.segments) := by
  simp only [AbsolutePathBuf.startsWith_iff, ← Bool.not_eq_true, WritableRoot.isPathWritable_iff,
    not_and, not_forall, not_not]
  constructor
  · intro readOnly
    constructor
    · intro above
      simpa using readOnly place List.prefix_rfl above
    · intro below
      simpa using readOnly writableRoot.root below List.prefix_rfl
  · rintro ⟨above, below⟩ path inPlace inRoot
    have shielded : ∃ subpath ∈ writableRoot.readOnlySubpaths,
        subpath.segments <+: path.segments := by
      rcases List.prefix_or_prefix_of_prefix inRoot inPlace with rootAbove | placeAbove
      · obtain ⟨subpath, member, covers⟩ := above rootAbove
        exact ⟨subpath, member, covers.trans inPlace⟩
      · obtain ⟨subpath, member, covers⟩ := below placeAbove
        exact ⟨subpath, member, covers.trans inRoot⟩
    simpa using shielded

/-- The root of the directory itself protects its `.codex`. -/
theorem own_root_protects (codexExists : host.isDir (directory.join host dotCodex) = true)
    (unnamed : ∀ entry ∈ policy.resolvedEntriesWithCwd host cwd,
      entry.path.startsWith (directory.join host dotCodex) = false) :
    directory.join host dotCodex ∈
      (policy.writableRootFor host cwd directory).readOnlySubpaths := by
  rw [FileSystemSandboxPolicy.writableRootFor, mem_dedupAbsolutePaths_false, List.mem_append,
    mem_defaultCarveouts]
  refine Or.inl ⟨?_, ?_⟩
  · simp [defaultReadOnlySubpathsForWritableRoot, mem_dedupAbsolutePaths_false, codexExists]
  · intro entry member same
    have apart := unnamed entry member
    rw [same, ← Bool.not_eq_true, AbsolutePathBuf.startsWith_iff] at apart
    exact apart List.prefix_rfl

/-- The `.codex` of a writable root, such as the working directory, is read-only under all the roots
exactly when every other root is kept off it by a carve-out of its own. -/
theorem dotCodex_protected_iff (restricted : policy.kind = .restricted)
    (isRoot : ∃ root ∈ policy.getWritableRootsWithCwd host cwd, root.root = directory)
    (codexExists : host.isDir (directory.join host dotCodex) = true)
    (unnamed : ∀ entry ∈ policy.resolvedEntriesWithCwd host cwd,
      entry.path.startsWith (directory.join host dotCodex) = false) :
    (∀ root ∈ policy.getWritableRootsWithCwd host cwd, ∀ path : AbsolutePathBuf,
      path.startsWith (directory.join host dotCodex) = true →
        root.isPathWritable path = false) ↔
      OtherRootsShielded host policy cwd directory := by
  have limited : policy.hasFullDiskWriteAccess = false := by
    obtain ⟨root, member, _⟩ := isRoot
    cases full : policy.hasFullDiskWriteAccess with
    | false => rfl
    | true => simp [FileSystemSandboxPolicy.getWritableRootsWithCwd, full] at member
  have own := @own_root_protects host policy cwd directory codexExists unnamed
  simp only [readOnly_below_iff]
  simp only [OtherRootsShielded, shieldedAt_iff restricted, AbsolutePathBuf.startsWith_iff,
    mem_getWritableRootsWithCwd limited, mem_writableEntries restricted,
    FileSystemSandboxPolicy.canWritePathWithCwd_iff restricted
      (FileSystemSandboxPolicy.resolveCandidatePath_asPath host _ cwd)]
  constructor
  · intro readOnly raw member write _
    exact readOnly _ ⟨raw, ⟨member, write⟩, rfl⟩
  · rintro shielded root ⟨raw, ⟨member, write⟩, rfl⟩
    by_cases same : normalizeEffectiveAbsolutePath host raw = directory
    · rw [same]
      exact ⟨fun _ => ⟨_, own, List.prefix_rfl⟩, fun below => ⟨_, own, below⟩⟩
    · exact shielded raw member write same

/-- The working directory `/a/b` with a `.codex` directory. -/
def codexHost : Host := treeHost [⟨[['a'], ['b'], dotCodex], by decide⟩] []

/-- Only the working directory is writable. -/
def workspacePolicy : FileSystemSandboxPolicy where
  kind := .restricted
  entries := [⟨.special .currentWorkingDirectory, .write⟩]

theorem dotCodex_protected_iff_workspace :
    (∀ root ∈ workspacePolicy.getWritableRootsWithCwd codexHost "/a/b".toList,
      ∀ path : AbsolutePathBuf, path.startsWith
        ((⟨[['a'], ['b']], by decide⟩ : AbsolutePathBuf).join codexHost dotCodex) = true →
          root.isPathWritable path = false) ↔
      OtherRootsShielded codexHost workspacePolicy "/a/b".toList ⟨[['a'], ['b']], by decide⟩ :=
  dotCodex_protected_iff rfl (by decide) (by decide) (by decide)

/-- Making the parent `/a` writable as well opens `/a/b/.codex`. -/
theorem dotCodex_unprotected_parent :
    ¬ ∀ (host : Host) (policy : FileSystemSandboxPolicy) (cwd : PathBuf)
        (directory : AbsolutePathBuf),
      policy.kind = .restricted → AbsolutePathBuf.fromAbsolutePath host cwd = some directory →
      (∃ root ∈ policy.getWritableRootsWithCwd host cwd, root.root = directory) →
      host.isDir (directory.join host dotCodex) = true →
      (∀ entry ∈ policy.resolvedEntriesWithCwd host cwd,
        entry.path.startsWith (directory.join host dotCodex) = false) →
      ∀ root ∈ policy.getWritableRootsWithCwd host cwd, ∀ path : AbsolutePathBuf,
        path.startsWith (directory.join host dotCodex) = true →
          root.isPathWritable path = false := by
  intro safe
  have readOnly := safe codexHost
    ⟨.restricted, [⟨.special .currentWorkingDirectory, .write⟩,
      ⟨.path ⟨[['a']], by decide⟩, .write⟩]⟩
    "/a/b".toList ⟨[['a'], ['b']], by decide⟩ rfl (by decide) (by decide) (by decide) (by decide)
    ⟨⟨[['a']], by decide⟩, []⟩ (by decide) ⟨[['a'], ['b'], dotCodex], by decide⟩ (by decide)
  exact absurd readOnly (by decide)

end DotCodex

end Sandbox
end CodexPilot
