import CodexPilot.Sandbox.Permissions

/-!
# Additional permissions

A permission profile granted on top of a policy is appended to its entries.  Since the most specific
entry decides, a read grant can take a write away: `effective_grants_iff` says when.
-/

namespace CodexPilot.Sandbox

open RustStd

/-- The network part of a profile. -/
structure NetworkPermissions where
  enabled : Option Bool
  deriving DecidableEq

/-- The paths of a profile. -/
structure FileSystemPermissions where
  read : Option (List AbsolutePathBuf)
  write : Option (List AbsolutePathBuf)
  deriving DecidableEq

/-- The permissions that are asked for. -/
structure PermissionProfile where
  network : Option NetworkPermissions
  fileSystem : Option FileSystemPermissions
  deriving DecidableEq

/-- The distinct read and write grants of a profile. -/
def additionalPermissionRoots (additionalPermissions : PermissionProfile) :
    List AbsolutePathBuf × List AbsolutePathBuf :=
  (((additionalPermissions.fileSystem.bind (·.read)).getD []).eraseDups,
    ((additionalPermissions.fileSystem.bind (·.write)).getD []).eraseDups)

/-- Append an entry that is not there yet. -/
def pushIfMissing (entries : List FileSystemSandboxEntry) (entry : FileSystemSandboxEntry) :
    List FileSystemSandboxEntry :=
  if entry ∈ entries then entries else entries ++ [entry]

def mergeFileSystemPolicyWithAdditionalPermissions (policy : FileSystemSandboxPolicy)
    (extraReads extraWrites : List AbsolutePathBuf) : FileSystemSandboxPolicy :=
  match policy.kind with
  | .restricted =>
      let withReads := extraReads.foldl
        (fun entries path => pushIfMissing entries ⟨.path path, .read⟩) policy.entries
      { policy with
        entries := extraWrites.foldl
          (fun entries path => pushIfMissing entries ⟨.path path, .write⟩) withReads }
  | .unrestricted | .externalSandbox => policy

/-- `effective_file_system_sandbox_policy`. -/
def effectiveFileSystemSandboxPolicy (policy : FileSystemSandboxPolicy)
    (additionalPermissions : Option PermissionProfile) : FileSystemSandboxPolicy :=
  match additionalPermissions with
  | none => policy
  | some additionalPermissions =>
      let (extraReads, extraWrites) := additionalPermissionRoots additionalPermissions
      if extraReads.isEmpty && extraWrites.isEmpty then policy
      else mergeFileSystemPolicyWithAdditionalPermissions policy extraReads extraWrites

def mergeNetworkAccess (baseNetworkAccess : Bool) (additionalPermissions : PermissionProfile) :
    Bool :=
  baseNetworkAccess || (additionalPermissions.network.bind (·.enabled)).getD false

def effectiveNetworkSandboxPolicy (policy : NetworkSandboxPolicy)
    (additionalPermissions : Option PermissionProfile) : NetworkSandboxPolicy :=
  if additionalPermissions.any (mergeNetworkAccess policy.isEnabled ·) then .enabled
  else if additionalPermissions.isSome then .restricted
  else policy

/-! ## The entries of the effective policy -/

section Entries

variable {policy : FileSystemSandboxPolicy} {profile : PermissionProfile}

theorem mem_foldl_pushIfMissing {access : FileSystemAccessMode} {paths : List AbsolutePathBuf}
    {entries : List FileSystemSandboxEntry} {entry : FileSystemSandboxEntry} :
    entry ∈ paths.foldl (fun entries path => pushIfMissing entries ⟨.path path, access⟩) entries ↔
      entry ∈ entries ∨ ∃ path ∈ paths, entry = ⟨.path path, access⟩ := by
  induction paths generalizing entries with
  | nil => simp
  | cons path paths ih =>
      have pushed : entry ∈ pushIfMissing entries ⟨.path path, access⟩ ↔
          entry ∈ entries ∨ entry = ⟨.path path, access⟩ := by
        unfold pushIfMissing
        split
        · rename_i present
          constructor
          · exact Or.inl
          · rintro (early | rfl)
            · exact early
            · exact present
        · simp
      rw [List.foldl_cons, ih, pushed]
      simp [or_assoc]

/-- An effective entry is an entry of the policy or one of the grants. -/
theorem mem_effective_entries (restricted : policy.kind = .restricted)
    {entry : FileSystemSandboxEntry} :
    entry ∈ (effectiveFileSystemSandboxPolicy policy (some profile)).entries ↔
      entry ∈ policy.entries ∨
        (∃ path ∈ (additionalPermissionRoots profile).1, entry = ⟨.path path, .read⟩) ∨
        ∃ path ∈ (additionalPermissionRoots profile).2, entry = ⟨.path path, .write⟩ := by
  simp only [effectiveFileSystemSandboxPolicy]
  split
  · rename_i nothing
    rw [Bool.and_eq_true, List.isEmpty_iff, List.isEmpty_iff] at nothing
    simp [nothing.1, nothing.2]
  · simp only [mergeFileSystemPolicyWithAdditionalPermissions, restricted]
    rw [mem_foldl_pushIfMissing, mem_foldl_pushIfMissing, or_assoc]

theorem effective_kind :
    (effectiveFileSystemSandboxPolicy policy (some profile)).kind = policy.kind := by
  simp only [effectiveFileSystemSandboxPolicy, mergeFileSystemPolicyWithAdditionalPermissions]
  split
  · rfl
  · split <;> rfl

theorem effective_of_not_restricted (other : policy.kind ≠ .restricted) :
    effectiveFileSystemSandboxPolicy policy (some profile) = policy := by
  simp only [effectiveFileSystemSandboxPolicy, mergeFileSystemPolicyWithAdditionalPermissions]
  split
  · rfl
  · split
    · contradiction
    · rfl
    · rfl

theorem mem_resolved_effective (restricted : policy.kind = .restricted) {host : Host}
    {cwd : PathBuf} {resolved : ResolvedFileSystemEntry} :
    resolved ∈ (effectiveFileSystemSandboxPolicy policy (some profile)).resolvedEntriesWithCwd
        host cwd ↔
      resolved ∈ policy.resolvedEntriesWithCwd host cwd ∨
        (resolved.path ∈ (additionalPermissionRoots profile).1 ∧ resolved.access = .read) ∨
        (resolved.path ∈ (additionalPermissionRoots profile).2 ∧ resolved.access = .write) := by
  simp only [FileSystemSandboxPolicy.mem_resolvedEntriesWithCwd, mem_effective_entries restricted]
  obtain ⟨path, access⟩ := resolved
  constructor
  · rintro ⟨entry, early | ⟨grant, inReads, rfl⟩ | ⟨grant, inWrites, rfl⟩, sameAccess, found⟩
    · exact Or.inl ⟨entry, early, sameAccess, found⟩
    · cases found
      exact Or.inr (Or.inl ⟨inReads, sameAccess.symm⟩)
    · cases found
      exact Or.inr (Or.inr ⟨inWrites, sameAccess.symm⟩)
  · rintro (⟨entry, early, sameAccess, found⟩ | ⟨inReads, isRead⟩ | ⟨inWrites, isWrite⟩)
    · exact ⟨entry, Or.inl early, sameAccess, found⟩
    · exact ⟨⟨.path path, .read⟩, Or.inr (Or.inl ⟨path, inReads, rfl⟩), isRead.symm, rfl⟩
    · exact ⟨⟨.path path, .write⟩, Or.inr (Or.inr ⟨path, inWrites, rfl⟩), isWrite.symm, rfl⟩

end Entries

/-! ## What a grant changes -/

/-- A read grant lies deeper than every entry and every write grant that contains a writable
path. -/
def ReadGrantShadowsWrite (host : Host) (policy : FileSystemSandboxPolicy)
    (profile : PermissionProfile) (path cwd : PathBuf) : Prop :=
  policy.kind = .restricted ∧ policy.canWritePathWithCwd host path cwd = true ∧
    ∃ resolved, resolveCandidatePath host path cwd = some resolved ∧
      ∃ grant ∈ (additionalPermissionRoots profile).1, resolved.startsWith grant = true ∧
        (∀ entry ∈ policy.resolvedEntriesWithCwd host cwd,
          resolved.startsWith entry.path = true →
            entry.path.componentsCount < grant.componentsCount) ∧
        ∀ other ∈ (additionalPermissionRoots profile).2,
          resolved.startsWith other = true → other.componentsCount < grant.componentsCount

section Grants

variable {host : Host} {policy : FileSystemSandboxPolicy} {profile : PermissionProfile}
  {cwd : PathBuf} {path : AbsolutePathBuf} {entry : ResolvedFileSystemEntry}

/-- What decides a path under the effective policy: what decided it before, or a grant. -/
theorem exists_decides_effective (restricted : policy.kind = .restricted)
    (decides : Decides (policy.resolvedEntriesWithCwd host cwd) path entry) :
    ∃ winner, Decides ((effectiveFileSystemSandboxPolicy policy
      (some profile)).resolvedEntriesWithCwd
        host cwd) path winner ∧
      (winner.access = entry.access ∨
        (winner.path ∈ (additionalPermissionRoots profile).1 ∧ winner.access = .read) ∨
        winner.access = .write) := by
  obtain ⟨winner, wins⟩ :=
    exists_decides ((mem_resolved_effective restricted).mpr (Or.inl decides.member)) decides.covers
  refine ⟨winner, wins, ?_⟩
  rcases (mem_resolved_effective restricted).mp wins.member with early | read | write
  · have alone := wins.of_subset
      (fun _ member => (mem_resolved_effective restricted).mpr (Or.inl member)) early
    exact Or.inl (decides.value_eq alone)
  · exact Or.inr (Or.inl read)
  · exact Or.inr (Or.inr write.2)

/-- Grants never take away a read. -/
theorem effective_read (restricted : policy.kind = .restricted)
    (granted : mostSpecificAccess (policy.resolvedEntriesWithCwd host cwd) path ≠ .none) :
    mostSpecificAccess ((effectiveFileSystemSandboxPolicy policy
      (some profile)).resolvedEntriesWithCwd host cwd) path ≠ .none := by
  obtain ⟨entry, decides, sameAccess⟩ := exists_decides_of_access granted
  obtain ⟨winner, wins, origin⟩ := exists_decides_effective restricted decides
  rw [mostSpecificAccess_of_decides wins]
  rcases origin with same | ⟨_, read⟩ | write
  · rwa [same, sameAccess]
  · simp [read]
  · simp [write]

/-- A read grant that decides a writable path lies deeper than everything else around the path. -/
theorem deeper_of_read_wins (restricted : policy.kind = .restricted)
    {winner : ResolvedFileSystemEntry}
    (decides : Decides (policy.resolvedEntriesWithCwd host cwd) path entry)
    (writable : entry.access = .write) (wins : Decides ((effectiveFileSystemSandboxPolicy policy
      (some profile)).resolvedEntriesWithCwd host cwd) path winner) (read : winner.access = .read) :
    (∀ other ∈ policy.resolvedEntriesWithCwd host cwd, path.startsWith other.path = true →
        other.path.componentsCount < winner.path.componentsCount) ∧
      ∀ other ∈ (additionalPermissionRoots profile).2, path.startsWith other = true →
        other.componentsCount < winner.path.componentsCount := by
  -- A write entry of the same place would beat the read grant.
  have strict : ∀ other ∈ (effectiveFileSystemSandboxPolicy policy
      (some profile)).resolvedEntriesWithCwd host cwd, other.path.segments <+: path.segments →
      other.access = .write → other.path.componentsCount < winner.path.componentsCount := by
    intro other member covers isWrite
    have shallower := wins.deepest other member covers
    have different : other.path.segments ≠ winner.path.segments := by
      intro same
      have beaten := wins.greatest other member same
      rw [isWrite, read, FileSystemAccessMode.le_iff_rank] at beaten
      exact absurd beaten (by decide)
    have shorter := shallower.length_le
    have notSame : other.path.segments.length ≠ winner.path.segments.length := fun same =>
      different (shallower.eq_of_length same)
    simp only [AbsolutePathBuf.componentsCount]
    omega
  constructor
  · intro other member covers
    have base := strict entry ((mem_resolved_effective restricted).mpr (Or.inl decides.member))
      decides.covers writable
    have shorter := (decides.deepest other member
      (AbsolutePathBuf.startsWith_iff.mp covers)).length_le
    simp only [AbsolutePathBuf.componentsCount] at base ⊢
    omega
  · intro other member covers
    exact strict ⟨other, .write⟩
      ((mem_resolved_effective restricted).mpr (Or.inr (Or.inr ⟨member, rfl⟩)))
      (AbsolutePathBuf.startsWith_iff.mp covers) rfl

/-- A read grant that lies deeper than everything else around the path decides it. -/
theorem read_wins_of_deeper (restricted : policy.kind = .restricted) {grant : AbsolutePathBuf}
    (granted : grant ∈ (additionalPermissionRoots profile).1)
    (covers : path.startsWith grant = true)
    (deeperThanEntries : ∀ other ∈ policy.resolvedEntriesWithCwd host cwd,
      path.startsWith other.path = true → other.path.componentsCount < grant.componentsCount)
    (deeperThanWrites : ∀ other ∈ (additionalPermissionRoots profile).2,
      path.startsWith other = true → other.componentsCount < grant.componentsCount) :
    mostSpecificAccess ((effectiveFileSystemSandboxPolicy policy
      (some profile)).resolvedEntriesWithCwd host cwd) path = .read := by
  obtain ⟨winner, wins⟩ := @exists_decides _ path ⟨grant, .read⟩
    ((mem_resolved_effective restricted).mpr (Or.inr (Or.inl ⟨granted, rfl⟩)))
    (AbsolutePathBuf.startsWith_iff.mp covers)
  rw [mostSpecificAccess_of_decides wins]
  have deepest : grant.segments.length ≤ winner.path.segments.length :=
    (wins.deepest ⟨grant, .read⟩
      ((mem_resolved_effective restricted).mpr (Or.inr (Or.inl ⟨granted, rfl⟩)))
      (AbsolutePathBuf.startsWith_iff.mp covers)).length_le
  have winnerCovers : path.startsWith winner.path = true :=
    AbsolutePathBuf.startsWith_iff.mpr wins.covers
  rcases (mem_resolved_effective restricted).mp wins.member with early | ⟨_, read⟩ | ⟨late, _⟩
  · have shorter := deeperThanEntries winner early winnerCovers
    simp only [AbsolutePathBuf.componentsCount] at shorter
    omega
  · exact read
  · have shorter := deeperThanWrites winner.path late winnerCovers
    simp only [AbsolutePathBuf.componentsCount] at shorter
    omega

theorem effective_network {network : NetworkSandboxPolicy} (enabled : network.isEnabled = true) :
    (effectiveNetworkSandboxPolicy network (some profile)).isEnabled = true := by
  have merged : mergeNetworkAccess network.isEnabled profile = true := by
    simp [mergeNetworkAccess, enabled]
  simp only [effectiveNetworkSandboxPolicy, Option.any_some, merged, ↓reduceIte]
  rfl

end Grants

/-- Additional permissions keep every access of the policy, unless a read grant shadows a write. -/
theorem effective_grants_iff (host : Host) (policy : FileSystemSandboxPolicy)
    (network : NetworkSandboxPolicy) (profile : PermissionProfile) (path cwd : PathBuf) :
    ((policy.canReadPathWithCwd host path cwd = true →
        (effectiveFileSystemSandboxPolicy policy (some profile)).canReadPathWithCwd
          host path cwd = true) ∧
      (policy.canWritePathWithCwd host path cwd = true →
        (effectiveFileSystemSandboxPolicy policy (some profile)).canWritePathWithCwd
          host path cwd = true) ∧
      (network.isEnabled = true →
        (effectiveNetworkSandboxPolicy network (some profile)).isEnabled = true)) ↔
      ¬ ReadGrantShadowsWrite host policy profile path cwd := by
  by_cases restricted : policy.kind = .restricted
  · cases candidate : resolveCandidatePath host path cwd with
    | none =>
        have denied : policy.resolveAccessWithCwd host path cwd = .none := by
          simp [FileSystemSandboxPolicy.resolveAccessWithCwd, restricted, candidate]
        have noShadow : ¬ ReadGrantShadowsWrite host policy profile path cwd := by
          rintro ⟨_, _, resolved, found, _⟩
          rw [candidate] at found
          cases found
        refine iff_of_true ⟨?_, ?_, effective_network⟩ noShadow
        · simp [FileSystemSandboxPolicy.canReadPathWithCwd, denied]
        · simp [FileSystemSandboxPolicy.canWritePathWithCwd, denied]
    | some resolved =>
        have effectiveRestricted : (effectiveFileSystemSandboxPolicy policy
            (some profile)).kind = .restricted := effective_kind.trans restricted
        rw [FileSystemSandboxPolicy.canReadPathWithCwd_iff restricted candidate,
          FileSystemSandboxPolicy.canReadPathWithCwd_iff effectiveRestricted candidate,
          FileSystemSandboxPolicy.canWritePathWithCwd_iff effectiveRestricted candidate]
        constructor
        · rintro ⟨_, keepsWrite, _⟩ ⟨_, writable, other, found, grant, granted, covers, deeper⟩
          obtain rfl : resolved = other := Option.some.inj (candidate.symm.trans found)
          have read := read_wins_of_deeper restricted granted covers deeper.1 deeper.2
          rw [keepsWrite writable] at read
          cases read
        · intro noShadow
          refine ⟨effective_read restricted, ?_, effective_network⟩
          intro writable
          have isWrite :=
            (FileSystemSandboxPolicy.canWritePathWithCwd_iff restricted candidate).mp writable
          obtain ⟨entry, decides, sameAccess⟩ := exists_decides_of_access
            (show mostSpecificAccess (policy.resolvedEntriesWithCwd host cwd) resolved ≠ .none by
              simp [isWrite])
          rw [isWrite] at sameAccess
          obtain ⟨winner, wins, origin⟩ := exists_decides_effective restricted decides
          rw [mostSpecificAccess_of_decides wins]
          rcases origin with same | ⟨granted, read⟩ | write
          · exact same.trans sameAccess
          · exact absurd ⟨restricted, writable, resolved, candidate, winner.path, granted,
              AbsolutePathBuf.startsWith_iff.mpr wins.covers,
              deeper_of_read_wins restricted decides sameAccess wins read⟩ noShadow
          · exact write
  · rw [effective_of_not_restricted restricted]
    exact iff_of_true ⟨id, id, effective_network⟩ fun shadow => restricted shadow.1

/-- Reading `/a/b` is granted on top of a policy that lets `/a` be written. -/
theorem effective_grants_shadowed :
    ¬ ∀ (host : Host) (policy : FileSystemSandboxPolicy) (network : NetworkSandboxPolicy)
        (profile : PermissionProfile) (path cwd : PathBuf),
      PathBuf.isAbsolute path = true → PathBuf.isAbsolute cwd = true →
        (policy.canReadPathWithCwd host path cwd = true →
          (effectiveFileSystemSandboxPolicy policy (some profile)).canReadPathWithCwd
            host path cwd = true) ∧
        (policy.canWritePathWithCwd host path cwd = true →
          (effectiveFileSystemSandboxPolicy policy (some profile)).canWritePathWithCwd
            host path cwd = true) ∧
        (network.isEnabled = true →
          (effectiveNetworkSandboxPolicy network (some profile)).isEnabled = true) := by
  intro keeps
  have keepsWrite := (keeps Host.bare ⟨.restricted, [⟨.path ⟨[['a']], by decide⟩, .write⟩]⟩
    .restricted ⟨none, some ⟨some [⟨[['a'], ['b']], by decide⟩], none⟩⟩
    ['/', 'a', '/', 'b'] ['/'] rfl rfl).2.1 (by decide)
  exact absurd keepsWrite (by decide)

end CodexPilot.Sandbox
