import CodexPilot.Sandbox.Permissions

/-!
# Full access and additional roots

Whether a policy leaves the whole disk readable or writable is told from its entries, without a
working directory.  A policy that is said to do so grants every path when its entries are resolved.

A list of roots is made readable or writable on top of a policy by appending an entry for each root
that is not covered yet.  Nothing that was granted is taken away by it, and every root of the list
is granted unless an entry denies exactly that place.
-/

namespace CodexPilot.Sandbox

open RustStd FileSystemSandboxPolicy

section Targets

variable {host : Host} {base path : AbsolutePathBuf} {left right : FileSystemPath}

theorem resolveEntryPath_root (host : Host) (base : AbsolutePathBuf) :
    resolveEntryPath host (.special .root) (some base) = some AbsolutePathBuf.root := by
  rw [resolveEntryPath, Option.map_some, absoluteRootPathForCwd_eq]

theorem eq_root_of_parent {path : AbsolutePathBuf} (top : path.parent = none) :
    path = AbsolutePathBuf.root := by
  rw [AbsolutePathBuf.parent] at top
  split at top
  case isTrue empty => exact AbsolutePathBuf.ext empty
  case isFalse => cases top

/-- A special location that is matched by a path leads to that path. -/
theorem resolveEntryPath_of_matches {value : FileSystemSpecialPath}
    (isTmp : host.isDir slashTmpPath = true)
    (same : specialPathMatchesAbsolutePath value path = true) :
    resolveEntryPath host (.special value) (some base) = some path := by
  cases value with
  | root =>
      rw [specialPathMatchesAbsolutePath, Option.isNone_iff_eq_none] at same
      rw [resolveEntryPath_root, eq_root_of_parent same]
  | slashTmp =>
      rw [specialPathMatchesAbsolutePath, beq_iff_eq] at same
      exact (if_pos isTmp).trans (congrArg some same.symm)
  | minimal | currentWorkingDirectory | projectRoots | tmpdir | unknown => cases same

/-- Special locations that share their target lead to one place. -/
theorem resolveEntryPath_of_special {value other : FileSystemSpecialPath}
    (shares : specialPathsShareTarget value other = true)
    (resolved : resolveEntryPath host (.special other) (some base) = some path) :
    resolveEntryPath host (.special value) (some base) = some path := by
  cases value with
  | root | minimal | currentWorkingDirectory | tmpdir | slashTmp =>
      cases other with
      | root | minimal | currentWorkingDirectory | tmpdir | slashTmp =>
          first | exact resolved | cases shares
      | projectRoots subpath =>
          cases subpath with
          | none => first | exact resolved | cases shares
          | some subpath => cases shares
      | unknown => cases shares
  | unknown =>
      cases other with
      | unknown => cases resolved
      | root | minimal | currentWorkingDirectory | tmpdir | slashTmp | projectRoots => cases shares
  | projectRoots subpath =>
      cases other with
      | currentWorkingDirectory =>
          cases subpath with
          | none => exact resolved
          | some subpath => cases shares
      | projectRoots otherSubpath =>
          rw [specialPathsShareTarget, beq_iff_eq] at shares
          cases subpath with
          | none =>
              cases otherSubpath with
              | none => exact resolved
              | some otherSubpath => cases shares
          | some subpath =>
              cases otherSubpath with
              | none => cases shares
              | some otherSubpath =>
                  have same := @AbsolutePathBuf.resolvePathAgainstBase_congr host _ _
                    (Option.some.inj shares) base
                  exact (congrArg some same).trans resolved
      | root | minimal | tmpdir | slashTmp | unknown => cases subpath <;> cases shares

theorem resolveEntryPath_of_shares (isTmp : host.isDir slashTmpPath = true)
    (shares : fileSystemPathsShareTarget left right = true)
    (resolved : resolveEntryPath host right (some base) = some path) :
    resolveEntryPath host left (some base) = some path := by
  cases left with
  | path leftPath =>
      cases right with
      | path rightPath =>
          rw [fileSystemPathsShareTarget, beq_iff_eq] at shares
          rw [shares]
          exact resolved
      | special value => exact (resolveEntryPath_of_matches isTmp shares).symm.trans resolved
  | special value =>
      cases right with
      | path rightPath =>
          cases resolved
          exact resolveEntryPath_of_matches isTmp shares
      | special other => exact resolveEntryPath_of_special shares resolved

end Targets

section Full

variable {host : Host} {policy : FileSystemSandboxPolicy} {cwd path : PathBuf}
  {base resolved : AbsolutePathBuf} {entry : FileSystemSandboxEntry}

theorem fromAbsolutePath_of_isAbsolute (host : Host) (absolute : PathBuf.isAbsolute path = true) :
    ∃ resolved, AbsolutePathBuf.fromAbsolutePath host path = some resolved := by
  rw [AbsolutePathBuf.fromAbsolutePath,
    AbsolutePathBuf.maybeExpandHomeDirectory_of_isAbsolute absolute]
  exact ⟨_, if_pos absolute⟩

/-- The policy grants an access to the root. -/
theorem exists_of_hasRootAccess {predicate : FileSystemAccessMode → Bool}
    (granted : policy.hasRootAccess predicate = true) :
    ∃ access, predicate access = true ∧ ⟨.special .root, access⟩ ∈ policy.entries := by
  rw [hasRootAccess, Bool.and_eq_true, List.any_eq_true] at granted
  obtain ⟨-, ⟨entryPath, access⟩, member, isRoot⟩ := granted
  rw [Bool.and_eq_true, beq_iff_eq] at isRoot
  obtain ⟨rfl, accepted⟩ := isRoot
  exact ⟨access, accepted, member⟩

/-- A write entry that shares the target of an entry leads to the same place. -/
theorem exists_of_hasSameTargetWriteOverride (isTmp : host.isDir slashTmpPath = true)
    (overridden : policy.hasSameTargetWriteOverride entry = true)
    (leads : resolveEntryPath host entry.path (some base) = some resolved) :
    ∃ other ∈ policy.entries, other.access = .write ∧ entry.access < .write ∧
      resolveEntryPath host other.path (some base) = some resolved := by
  rw [hasSameTargetWriteOverride, List.any_eq_true] at overridden
  obtain ⟨candidate, member, accepted⟩ := overridden
  rw [Bool.and_eq_true, Bool.and_eq_true, decide_eq_true_iff] at accepted
  obtain ⟨⟨writes, beats⟩, shares⟩ := accepted
  have isWrite := FileSystemAccessMode.canWrite_iff.mp writes
  rw [isWrite] at beats
  exact ⟨candidate, member, isWrite, beats, resolveEntryPath_of_shares isTmp shares leads⟩

/-- An entry that would reduce a write grant on the root is beaten by a write entry at its place. -/
theorem exists_override (restricted : policy.kind = .restricted)
    (isTmp : host.isDir slashTmpPath = true) (wide : policy.hasWriteNarrowingEntries = false)
    (rootWrite : ⟨.special .root, .write⟩ ∈ policy.entries) (member : entry ∈ policy.entries)
    (narrow : entry.access ≠ .write)
    (leads : resolveEntryPath host entry.path (some base) = some resolved) :
    ∃ other ∈ policy.entries, other.access = .write ∧ entry.access < .write ∧
      resolveEntryPath host other.path (some base) = some resolved := by
  have unwritable : ¬ entry.access.canWrite = true := fun writes =>
    narrow (FileSystemAccessMode.canWrite_iff.mp writes)
  simp only [hasWriteNarrowingEntries, restricted, beq_self_eq_true, Bool.true_and,
    List.any_eq_false] at wide
  have harmless := wide entry member
  rw [if_neg unwritable] at harmless
  obtain ⟨target, access⟩ := entry
  cases target with
  | path target =>
      rw [Bool.not_eq_true, Bool.not_eq_false'] at harmless
      exact exists_of_hasSameTargetWriteOverride isTmp harmless leads
  | special value =>
      cases value with
      | root =>
          have reads : access = .read := by
            cases access with
            | read => rfl
            | write => exact absurd rfl narrow
            | none => exact absurd rfl harmless
          refine ⟨_, rootWrite, rfl, ?_, leads⟩
          rw [reads]
          decide
      | minimal | unknown => cases leads
      | currentWorkingDirectory | projectRoots | tmpdir | slashTmp =>
          rw [Bool.not_eq_true, Bool.not_eq_false'] at harmless
          exact exists_of_hasSameTargetWriteOverride isTmp harmless leads

theorem resolveAccessWithCwd_of_kind (free : policy.kind ≠ .restricted) :
    policy.resolveAccessWithCwd host path cwd = .write := by
  rw [resolveAccessWithCwd]
  cases kind : policy.kind with
  | restricted => exact absurd kind free
  | unrestricted | externalSandbox => rfl

/-- An entry on the root covers every path. -/
theorem exists_decides_of_root {access : FileSystemAccessMode}
    (located : AbsolutePathBuf.fromAbsolutePath host cwd = some base)
    (member : ⟨.special .root, access⟩ ∈ policy.entries) (point : AbsolutePathBuf) :
    ∃ winner, Decides (policy.resolvedEntriesWithCwd host cwd) point winner := by
  have inside : (⟨AbsolutePathBuf.root, access⟩ : ResolvedFileSystemEntry) ∈
      policy.resolvedEntriesWithCwd host cwd := by
    refine mem_resolvedEntriesWithCwd.mpr ⟨_, member, rfl, ?_⟩
    rw [located]
    exact resolveEntryPath_root host base
  exact exists_decides inside List.nil_prefix

/-- **Full write access means what it says.**  A policy that is said to leave the whole disk
writable lets every absolute path be written, from any absolute working directory. -/
theorem canWritePathWithCwd_of_hasFullDiskWriteAccess
    (isTmp : host.isDir slashTmpPath = true) (cwdAbsolute : PathBuf.isAbsolute cwd = true)
    (full : policy.hasFullDiskWriteAccess = true) (pathAbsolute : PathBuf.isAbsolute path = true) :
    policy.canWritePathWithCwd host path cwd = true := by
  by_cases restricted : policy.kind = .restricted
  case neg =>
    rw [canWritePathWithCwd, resolveAccessWithCwd_of_kind restricted]
    rfl
  case pos =>
    obtain ⟨base, located⟩ := fromAbsolutePath_of_isAbsolute host cwdAbsolute
    obtain ⟨point, candidate⟩ := fromAbsolutePath_of_isAbsolute host pathAbsolute
    rw [hasFullDiskWriteAccess, restricted] at full
    dsimp only at full
    rw [Bool.and_eq_true, Bool.not_eq_true'] at full
    obtain ⟨granted, wide⟩ := full
    obtain ⟨access, writes, rootWrite⟩ := exists_of_hasRootAccess granted
    rw [FileSystemAccessMode.canWrite_iff.mp writes] at rootWrite
    have resolvesTo : resolveCandidatePath host path cwd = some point := by
      rw [resolveCandidatePath, if_pos pathAbsolute, candidate]
    rw [canWritePathWithCwd_iff restricted resolvesTo]
    obtain ⟨winner, decides⟩ := exists_decides_of_root located rootWrite point
    rw [mostSpecificAccess_of_decides decides]
    by_contra narrow
    obtain ⟨entry, member, sameAccess, leads⟩ := mem_resolvedEntriesWithCwd.mp decides.member
    rw [located] at leads
    rw [← sameAccess] at narrow
    obtain ⟨candidateEntry, inside, isWrite, beaten, sameTarget⟩ :=
      exists_override restricted isTmp wide rootWrite member narrow leads
    have rival : (⟨winner.path, .write⟩ : ResolvedFileSystemEntry) ∈
        policy.resolvedEntriesWithCwd host cwd := by
      refine mem_resolvedEntriesWithCwd.mpr ⟨candidateEntry, inside, isWrite, ?_⟩
      rw [located]
      exact sameTarget
    have bound := decides.greatest _ rival rfl
    rw [← sameAccess] at bound
    exact absurd beaten (not_lt_of_ge bound)

/-- A host with the directory `/tmp` only. -/
def tmpHost : Host := { Host.bare with isDir := fun path => path == slashTmpPath }

def docsPath : AbsolutePathBuf := ⟨[['d', 'o', 'c', 's']], by decide⟩

/-- A writable root whose read-only directory is made writable again. -/
def overriddenPolicy : FileSystemSandboxPolicy where
  kind := .restricted
  entries := [⟨.special .root, .write⟩, ⟨.path docsPath, .read⟩, ⟨.path docsPath, .write⟩]

theorem canWritePathWithCwd_docs :
    overriddenPolicy.canWritePathWithCwd tmpHost docsPath.asPath ['/'] = true :=
  canWritePathWithCwd_of_hasFullDiskWriteAccess (by decide) (by decide) (by decide) (by decide)

/-- A policy that is said to leave the whole disk readable lets every path be read, wherever the
working directory resolves. -/
theorem canReadPathWithCwd_of_hasFullDiskReadAccess
    (located : AbsolutePathBuf.fromAbsolutePath host cwd = some base)
    (full : policy.hasFullDiskReadAccess = true)
    (candidate : resolveCandidatePath host path cwd = some resolved) :
    policy.canReadPathWithCwd host path cwd = true := by
  by_cases restricted : policy.kind = .restricted
  case neg =>
    rw [canReadPathWithCwd, resolveAccessWithCwd_of_kind restricted]
    rfl
  case pos =>
    simp only [hasFullDiskReadAccess, restricted, hasExplicitDenyEntries, beq_self_eq_true,
      Bool.true_and, Bool.and_eq_true, Bool.not_eq_true', List.any_eq_false, beq_iff_eq] at full
    obtain ⟨granted, undenied⟩ := full
    obtain ⟨access, -, rootRead⟩ := exists_of_hasRootAccess granted
    rw [canReadPathWithCwd_iff restricted candidate]
    obtain ⟨winner, decides⟩ := exists_decides_of_root located rootRead resolved
    rw [mostSpecificAccess_of_decides decides]
    obtain ⟨entry, member, sameAccess, -⟩ := mem_resolvedEntriesWithCwd.mp decides.member
    rw [← sameAccess]
    exact undenied entry member

end Full

/-! ## Additional roots -/

namespace FileSystemSandboxPolicy

def pushEntry (policy : FileSystemSandboxPolicy) (entry : FileSystemSandboxEntry) :
    FileSystemSandboxPolicy :=
  { policy with entries := policy.entries ++ [entry] }

/-- Append an entry for a root whose access is not the wanted one yet. -/
def pushRoot (wanted : FileSystemAccessMode → Bool) (access : FileSystemAccessMode) (host : Host)
    (cwd : PathBuf) (policy : FileSystemSandboxPolicy) (path : AbsolutePathBuf) :
    FileSystemSandboxPolicy :=
  if wanted (policy.resolveAccessWithCwd host path.asPath cwd) then policy
  else policy.pushEntry ⟨.path path, access⟩

def withAdditionalReadableRoots (host : Host) (policy : FileSystemSandboxPolicy) (cwd : PathBuf)
    (additionalReadableRoots : List AbsolutePathBuf) : FileSystemSandboxPolicy :=
  if policy.hasFullDiskReadAccess then policy
  else additionalReadableRoots.foldl
    (pushRoot FileSystemAccessMode.canRead .read host cwd) policy

def withAdditionalWritableRoots (host : Host) (policy : FileSystemSandboxPolicy) (cwd : PathBuf)
    (additionalWritableRoots : List AbsolutePathBuf) : FileSystemSandboxPolicy :=
  additionalWritableRoots.foldl (pushRoot FileSystemAccessMode.canWrite .write host cwd) policy

end FileSystemSandboxPolicy

open FileSystemSandboxPolicy

/-! ## What appending one entry does -/

section Append

variable {host : Host} {policy : FileSystemSandboxPolicy} {cwd path : PathBuf}
  {root point : AbsolutePathBuf} {access : FileSystemAccessMode}

theorem resolvedEntriesWithCwd_pushEntry :
    (policy.pushEntry ⟨.path root, access⟩).resolvedEntriesWithCwd host cwd =
      policy.resolvedEntriesWithCwd host cwd ++ [⟨root, access⟩] := by
  simp [pushEntry, resolvedEntriesWithCwd, resolveEntryPath, resolveFileSystemPath]

/-- An appended entry leaves the access of a point as it was, or the point gets the mode of the
entry and had no access or that of the entry's place. -/
theorem mostSpecificAccess_append (entries : List ResolvedFileSystemEntry) :
    mostSpecificAccess (entries ++ [⟨root, access⟩]) point = mostSpecificAccess entries point ∨
      mostSpecificAccess (entries ++ [⟨root, access⟩]) point = access ∧
        (mostSpecificAccess entries point = .none ∨
          mostSpecificAccess entries point = mostSpecificAccess entries root) := by
  rcases mostSpecificAccess_cases entries point with ⟨former, decided, same⟩ | ⟨uncovered, denied⟩
  · have inside := List.mem_append_left [⟨root, access⟩] decided.member
    obtain ⟨winner, decides⟩ := exists_decides inside decided.covers
    rw [mostSpecificAccess_of_decides decides]
    rcases decides.append_cases with kept | ⟨rfl, above⟩
    · exact Or.inl (mostSpecificAccess_of_decides kept).symm
    · refine Or.inr ⟨rfl, Or.inr ?_⟩
      rw [same, mostSpecificAccess_of_decides (above former decided)]
  · rcases mostSpecificAccess_cases (entries ++ [⟨root, access⟩]) point with
      ⟨winner, decides, same⟩ | ⟨_, still⟩
    · rw [same]
      rcases decides.append_cases with kept | ⟨rfl, _⟩
      · exact absurd kept.covers (uncovered winner kept.member)
      · exact Or.inr ⟨rfl, Or.inl denied⟩
    · exact Or.inl (still.trans denied.symm)

end Append

/-! ## Widening a policy -/

/-- What a policy grants from a working directory is granted by the wider one too, which has no
further entries without access. -/
structure Widened (host : Host) (cwd : PathBuf) (policy wider : FileSystemSandboxPolicy) : Prop
    where
  read : ∀ path, policy.canReadPathWithCwd host path cwd = true →
    wider.canReadPathWithCwd host path cwd = true
  write : ∀ path, policy.canWritePathWithCwd host path cwd = true →
    wider.canWritePathWithCwd host path cwd = true
  denied : ∀ entry ∈ wider.entries, entry.access = .none → entry ∈ policy.entries

/-- An entry without access stands at exactly this place. -/
def DeniesAt (host : Host) (cwd : PathBuf) (policy : FileSystemSandboxPolicy)
    (path : AbsolutePathBuf) : Prop :=
  ∃ entry ∈ policy.entries, entry.access = .none ∧
    resolveEntryPath host entry.path (AbsolutePathBuf.fromAbsolutePath host cwd) = some path

instance (host : Host) (cwd : PathBuf) (policy : FileSystemSandboxPolicy)
    (path : AbsolutePathBuf) : Decidable (DeniesAt host cwd policy path) :=
  inferInstanceAs (Decidable (∃ entry ∈ policy.entries, entry.access = .none ∧
    resolveEntryPath host entry.path (AbsolutePathBuf.fromAbsolutePath host cwd) = some path))

/-- The mode of an entry has the wanted access, and so has every greater one that has any. -/
structure Obtains (wanted : FileSystemAccessMode → Bool) (access : FileSystemAccessMode) : Prop
    where
  proper : access ≠ .none
  nothing : wanted .none = false
  upward : ∀ mode, access ≤ mode → mode ≠ .none → wanted mode = true

theorem obtains_read : Obtains FileSystemAccessMode.canRead .read where
  proper := by decide
  nothing := by decide
  upward := fun mode _ proper => FileSystemAccessMode.canRead_iff.mpr proper

theorem obtains_write : Obtains FileSystemAccessMode.canWrite .write where
  proper := by decide
  nothing := by decide
  upward := by
    intro mode above proper
    cases mode with
    | read => exact absurd above (by decide)
    | write => rfl
    | none => exact absurd rfl proper

section Widening

variable {host : Host} {cwd : PathBuf} {policy wider widest : FileSystemSandboxPolicy}
  {wanted : FileSystemAccessMode → Bool} {access : FileSystemAccessMode} {root : AbsolutePathBuf}
  {roots : List AbsolutePathBuf}

theorem Widened.refl (host : Host) (cwd : PathBuf) (policy : FileSystemSandboxPolicy) :
    Widened host cwd policy policy where
  read := fun _ granted => granted
  write := fun _ granted => granted
  denied := fun _ member _ => member

theorem Widened.trans (first : Widened host cwd policy wider)
    (second : Widened host cwd wider widest) : Widened host cwd policy widest where
  read := fun path granted => second.read path (first.read path granted)
  write := fun path granted => second.write path (first.write path granted)
  denied := fun entry member without =>
    first.denied entry (second.denied entry member without) without

theorem DeniesAt.of_widened (widened : Widened host cwd policy wider)
    (denies : DeniesAt host cwd wider root) : DeniesAt host cwd policy root := by
  obtain ⟨entry, member, without, leads⟩ := denies
  exact ⟨entry, widened.denied entry member without, without, leads⟩

theorem Obtains.write (obtains : Obtains wanted access) : wanted .write = true := by
  refine obtains.upward .write ?_ (by decide)
  cases access with
  | read => decide
  | write => exact le_rfl
  | none => exact absurd rfl obtains.proper

/-- Widening a policy keeps the wanted access of a path. -/
theorem Obtains.of_widened (obtains : Obtains wanted access)
    (widened : Widened host cwd policy wider) {path : PathBuf}
    (granted : wanted (policy.resolveAccessWithCwd host path cwd) = true) :
    wanted (wider.resolveAccessWithCwd host path cwd) = true := by
  have read := widened.read path
  have write := widened.write path
  rw [canReadPathWithCwd, canReadPathWithCwd] at read
  rw [canWritePathWithCwd, canWritePathWithCwd] at write
  cases before : policy.resolveAccessWithCwd host path cwd with
  | none =>
      rw [before, obtains.nothing] at granted
      cases granted
  | write =>
      rw [before] at write
      rw [FileSystemAccessMode.canWrite_iff.mp (write rfl)]
      exact obtains.write
  | read =>
      rw [before] at read granted
      cases after : wider.resolveAccessWithCwd host path cwd with
      | none =>
          rw [after] at read
          exact absurd (read rfl) (by decide)
      | write => exact obtains.write
      | read => exact granted

/-- An entry for a root without the wanted access changes the access of paths without it only. -/
theorem resolveAccessWithCwd_pushEntry (obtains : Obtains wanted access)
    (restricted : policy.kind = .restricted)
    (missing : wanted (policy.resolveAccessWithCwd host root.asPath cwd) ≠ true) (path : PathBuf) :
    (policy.pushEntry ⟨.path root, access⟩).resolveAccessWithCwd host path cwd =
        policy.resolveAccessWithCwd host path cwd ∨
      (policy.pushEntry ⟨.path root, access⟩).resolveAccessWithCwd host path cwd = access ∧
        wanted (policy.resolveAccessWithCwd host path cwd) ≠ true := by
  rw [resolveAccessWithCwd_restricted restricted (resolveCandidatePath_asPath host root cwd)]
    at missing
  have pushed : (policy.pushEntry ⟨.path root, access⟩).kind = .restricted := restricted
  cases candidate : resolveCandidatePath host path cwd with
  | none =>
      left
      simp only [resolveAccessWithCwd, restricted, pushed, candidate]
  | some point =>
      rw [resolveAccessWithCwd_restricted restricted candidate,
        resolveAccessWithCwd_restricted pushed candidate, resolvedEntriesWithCwd_pushEntry]
      rcases mostSpecificAccess_append (policy.resolvedEntriesWithCwd host cwd) with
        kept | ⟨new, denied | same⟩
      · exact Or.inl kept
      · refine Or.inr ⟨new, ?_⟩
        rw [denied, obtains.nothing]
        decide
      · refine Or.inr ⟨new, ?_⟩
        rw [same]
        exact missing

theorem restricted_of_missing (obtains : Obtains wanted access) {path : PathBuf}
    (missing : wanted (policy.resolveAccessWithCwd host path cwd) ≠ true) :
    policy.kind = .restricted := by
  by_contra free
  rw [resolveAccessWithCwd_of_kind free] at missing
  exact missing obtains.write

theorem widened_pushRoot (obtains : Obtains wanted access) :
    Widened host cwd policy (pushRoot wanted access host cwd policy root) := by
  rw [pushRoot]
  split
  case isTrue => exact Widened.refl host cwd policy
  case isFalse missing =>
    have changes := resolveAccessWithCwd_pushEntry obtains
      (restricted_of_missing obtains missing) missing
    refine ⟨fun path granted => ?_, fun path granted => ?_, fun entry member without => ?_⟩
    · rw [canReadPathWithCwd] at granted ⊢
      rcases changes path with kept | ⟨new, _⟩
      · rw [kept]
        exact granted
      · rw [new]
        exact FileSystemAccessMode.canRead_iff.mpr obtains.proper
    · rw [canWritePathWithCwd] at granted ⊢
      rcases changes path with kept | ⟨_, lacked⟩
      · rw [kept]
        exact granted
      · rw [FileSystemAccessMode.canWrite_iff.mp granted] at lacked
        exact absurd obtains.write lacked
    · rcases List.mem_append.mp member with old | new
      · exact old
      · cases List.mem_singleton.mp new
        exact absurd without obtains.proper

/-- A root that is pushed has the wanted access unless it is denied. -/
theorem wanted_pushRoot (obtains : Obtains wanted access) :
    wanted ((pushRoot wanted access host cwd policy root).resolveAccessWithCwd host
        root.asPath cwd) = true ∨ DeniesAt host cwd policy root := by
  rw [pushRoot]
  split
  case isTrue granted => exact Or.inl granted
  case isFalse missing =>
    have restricted := restricted_of_missing obtains missing
    have pushed : (policy.pushEntry ⟨.path root, access⟩).kind = .restricted := restricted
    rw [resolveAccessWithCwd_restricted pushed (resolveCandidatePath_asPath host root cwd),
      resolvedEntriesWithCwd_pushEntry]
    have inside : ⟨root, access⟩ ∈ policy.resolvedEntriesWithCwd host cwd ++ [⟨root, access⟩] :=
      List.mem_append_right _ (List.mem_singleton_self _)
    obtain ⟨winner, decides⟩ := exists_decides inside List.prefix_rfl
    rw [mostSpecificAccess_of_decides decides]
    -- The winner stands at the root itself, since the new entry does.
    have there : winner.path.segments = root.segments :=
      decides.covers.eq_of_length_le (decides.deepest _ inside List.prefix_rfl).length_le
    have above := decides.greatest _ inside there.symm
    by_cases proper : winner.access = .none
    case neg => exact Or.inl (obtains.upward winner.access above proper)
    case pos =>
      rcases List.mem_append.mp decides.member with old | new
      · obtain ⟨entry, member, same, leads⟩ := mem_resolvedEntriesWithCwd.mp old
        rw [AbsolutePathBuf.ext there] at leads
        exact Or.inr ⟨entry, member, same.trans proper, leads⟩
      · cases List.mem_singleton.mp new
        exact absurd proper obtains.proper

theorem widened_foldl (obtains : Obtains wanted access) (roots : List AbsolutePathBuf)
    (policy : FileSystemSandboxPolicy) :
    Widened host cwd policy (roots.foldl (pushRoot wanted access host cwd) policy) := by
  induction roots generalizing policy with
  | nil => exact Widened.refl host cwd policy
  | cons root roots after => exact (widened_pushRoot obtains).trans (after _)

theorem wanted_foldl (obtains : Obtains wanted access) (member : root ∈ roots)
    (policy : FileSystemSandboxPolicy) :
    wanted ((roots.foldl (pushRoot wanted access host cwd) policy).resolveAccessWithCwd host
        root.asPath cwd) = true ∨ DeniesAt host cwd policy root := by
  induction roots generalizing policy with
  | nil => cases member
  | cons first roots after =>
      rw [List.foldl_cons]
      rcases List.mem_cons.mp member with rfl | later
      · rcases wanted_pushRoot obtains with granted | denied
        · exact Or.inl (obtains.of_widened (widened_foldl obtains roots _) granted)
        · exact Or.inr denied
      · rcases after later (pushRoot wanted access host cwd policy first) with granted | denied
        · exact Or.inl granted
        · exact Or.inr (denied.of_widened (widened_pushRoot obtains))

theorem widened_withAdditionalReadableRoots :
    Widened host cwd policy (policy.withAdditionalReadableRoots host cwd roots) := by
  rw [withAdditionalReadableRoots]
  split
  case isTrue => exact Widened.refl host cwd policy
  case isFalse => exact widened_foldl obtains_read roots policy

theorem widened_withAdditionalWritableRoots :
    Widened host cwd policy (policy.withAdditionalWritableRoots host cwd roots) :=
  widened_foldl obtains_write roots policy

theorem canRead_withAdditionalReadableRoots {base : AbsolutePathBuf}
    (located : AbsolutePathBuf.fromAbsolutePath host cwd = some base) (member : root ∈ roots) :
    (policy.withAdditionalReadableRoots host cwd roots).canReadPathWithCwd host root.asPath cwd =
        true ∨ DeniesAt host cwd policy root := by
  rw [withAdditionalReadableRoots]
  split
  case isTrue full =>
    left
    exact canReadPathWithCwd_of_hasFullDiskReadAccess located full
      (resolveCandidatePath_asPath host root cwd)
  case isFalse => exact wanted_foldl obtains_read member policy

theorem canWrite_withAdditionalWritableRoots (member : root ∈ roots) :
    (policy.withAdditionalWritableRoots host cwd roots).canWritePathWithCwd host root.asPath cwd =
        true ∨ DeniesAt host cwd policy root :=
  wanted_foldl obtains_write member policy

/-- **Adding roots is monotone and effective.**  No path that could be read or written loses that,
and each added root can be read, or written, unless an entry without access stands at exactly that
place. -/
theorem additionalRoots_spec {base : AbsolutePathBuf}
    (located : AbsolutePathBuf.fromAbsolutePath host cwd = some base)
    (policy : FileSystemSandboxPolicy) (roots : List AbsolutePathBuf) :
    (∀ path,
      (policy.canReadPathWithCwd host path cwd = true →
        (policy.withAdditionalReadableRoots host cwd roots).canReadPathWithCwd host path cwd =
            true ∧
          (policy.withAdditionalWritableRoots host cwd roots).canReadPathWithCwd host path cwd =
            true) ∧
      (policy.canWritePathWithCwd host path cwd = true →
        (policy.withAdditionalReadableRoots host cwd roots).canWritePathWithCwd host path cwd =
            true ∧
          (policy.withAdditionalWritableRoots host cwd roots).canWritePathWithCwd host path cwd =
            true)) ∧
    ∀ root ∈ roots, ¬ DeniesAt host cwd policy root →
      (policy.withAdditionalReadableRoots host cwd roots).canReadPathWithCwd host root.asPath cwd =
          true ∧
        (policy.withAdditionalWritableRoots host cwd roots).canWritePathWithCwd host root.asPath
          cwd = true := by
  have readable := @widened_withAdditionalReadableRoots host cwd policy roots
  have writable := @widened_withAdditionalWritableRoots host cwd policy roots
  refine ⟨fun path => ⟨fun granted => ?_, fun granted => ?_⟩, fun root member free => ⟨?_, ?_⟩⟩
  · exact ⟨readable.read path granted, writable.read path granted⟩
  · exact ⟨readable.write path granted, writable.write path granted⟩
  · exact (canRead_withAdditionalReadableRoots located member).resolve_right free
  · exact (canWrite_withAdditionalWritableRoots member).resolve_right free

/-- A directory inside a denied one. -/
def guidePath : AbsolutePathBuf := ⟨[['d', 'o', 'c', 's'], ['g']], by decide⟩

def deniedPolicy : FileSystemSandboxPolicy where
  kind := .restricted
  entries := [⟨.special .root, .read⟩, ⟨.path docsPath, .none⟩]

/-- The directory is opened although the one above it stays denied. -/
theorem additionalRoots_spec_guide :
    canReadPathWithCwd tmpHost
        (deniedPolicy.withAdditionalReadableRoots tmpHost ['/'] [docsPath, guidePath])
        guidePath.asPath ['/'] = true ∧
      canWritePathWithCwd tmpHost
        (deniedPolicy.withAdditionalWritableRoots tmpHost ['/'] [docsPath, guidePath])
        guidePath.asPath ['/'] = true :=
  (@additionalRoots_spec tmpHost ['/'] AbsolutePathBuf.root (by decide) deniedPolicy
    [docsPath, guidePath]).2 guidePath (by decide) (by decide)

end Widening

end CodexPilot.Sandbox
