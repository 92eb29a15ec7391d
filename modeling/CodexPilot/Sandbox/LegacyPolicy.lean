import CodexPilot.RustStd.Result
import CodexPilot.Sandbox.WritableRoots
import Mathlib.Data.Finset.Sort
import Mathlib.Data.List.Lex
import Mathlib.Data.Prod.Lex

/-!
# Legacy sandbox policies

A legacy policy grants the workspace, some roots besides, and the temporary directories.  It is
translated into a file system policy and back, and a file system policy that means something else
than its translation has to be enforced directly.

The restricted token of Windows enforces a legacy policy.  Where a file system policy needs more,
the carve-outs that the legacy policy lacks are denied in addition, and everything else that would
make a difference is refused.
-/

namespace CodexPilot.Sandbox

open RustStd

/-! ## Policies -/

/-- `ReadOnlyAccess`. -/
inductive ReadOnlyAccess where
  | restricted (includePlatformDefaults : Bool) (readableRoots : List AbsolutePathBuf)
  | fullAccess

/-- `SandboxPolicy`. -/
inductive SandboxPolicy where
  | dangerFullAccess
  | readOnly (access : ReadOnlyAccess) (networkAccess : Bool)
  | externalSandbox (networkAccess : NetworkSandboxPolicy)
  | workspaceWrite (writableRoots : List AbsolutePathBuf) (readOnlyAccess : ReadOnlyAccess)
      (networkAccess excludeTmpdirEnvVar excludeSlashTmp : Bool)

namespace SandboxPolicy

/-- The roots of a policy that grants the workspace, in the order of the code; `/tmp` counts on
Unix only. -/
def workspaceRoots (host : Host) (unix : Bool) (cwd : PathBuf)
    (writableRoots : List AbsolutePathBuf) (excludeTmpdirEnvVar excludeSlashTmp : Bool) :
    List AbsolutePathBuf :=
  let slashTmp :=
    if unix && !excludeSlashTmp && host.isDir slashTmpPath then [slashTmpPath] else []
  let tmpdir :=
    if excludeTmpdirEnvVar then none
    else (host.tmpdir.filter (· ≠ [])).bind (AbsolutePathBuf.fromAbsolutePath host)
  writableRoots ++ (AbsolutePathBuf.fromAbsolutePath host cwd).toList ++ slashTmp ++ tmpdir.toList

/-- A root with its default carve-outs. -/
def workspaceRoot (host : Host) (cwd : PathBuf) (root : AbsolutePathBuf) : WritableRoot where
  root := root
  readOnlySubpaths := defaultReadOnlySubpathsForWritableRoot host root
    (AbsolutePathBuf.fromAbsolutePath host cwd == some root)

/-- `SandboxPolicy::get_writable_roots_with_cwd`. -/
def getWritableRootsWithCwd (host : Host) (unix : Bool) (policy : SandboxPolicy) (cwd : PathBuf) :
    List WritableRoot :=
  match policy with
  | dangerFullAccess | externalSandbox _ | readOnly _ _ => []
  | workspaceWrite writableRoots _ _ excludeTmpdirEnvVar excludeSlashTmp =>
      (workspaceRoots host unix cwd writableRoots excludeTmpdirEnvVar excludeSlashTmp).map
        (workspaceRoot host cwd)

/-- Roots with the same path have the same carve-outs. -/
theorem readOnlySubpaths_congr {host : Host} {unix : Bool} {policy : SandboxPolicy}
    {cwd : PathBuf} {first second : WritableRoot}
    (firstMember : first ∈ policy.getWritableRootsWithCwd host unix cwd)
    (secondMember : second ∈ policy.getWritableRootsWithCwd host unix cwd)
    (same : first.root = second.root) : first.readOnlySubpaths = second.readOnlySubpaths := by
  cases policy with
  | dangerFullAccess | externalSandbox | readOnly => cases firstMember
  | workspaceWrite =>
      obtain ⟨firstRoot, -, rfl⟩ := List.mem_map.mp firstMember
      obtain ⟨secondRoot, -, rfl⟩ := List.mem_map.mp secondMember
      cases same
      rfl

end SandboxPolicy

/-! ## From a legacy policy -/

/-- The entry that `push` in `from` adds for a special location. -/
def specialEntry (value : FileSystemSpecialPath) (access : FileSystemAccessMode) :
    FileSystemSandboxEntry :=
  ⟨.special value, access⟩

def pathEntry (access : FileSystemAccessMode) (path : AbsolutePathBuf) : FileSystemSandboxEntry :=
  ⟨.path path, access⟩

/-- The entries for reading; a policy without any write names the working directory too. -/
def ReadOnlyAccess.entries (access : ReadOnlyAccess) (withCwd : Bool) :
    List FileSystemSandboxEntry :=
  match access with
  | .fullAccess => [specialEntry .root .read]
  | .restricted includePlatformDefaults readableRoots =>
      (if withCwd then [specialEntry .currentWorkingDirectory .read] else []) ++
        (if includePlatformDefaults then [specialEntry .minimal .read] else []) ++
        readableRoots.map (pathEntry .read)

/-- `append_path_entry_if_missing`. -/
def appendPathEntryIfMissing (entries : List FileSystemSandboxEntry) (path : AbsolutePathBuf)
    (access : FileSystemAccessMode) : List FileSystemSandboxEntry :=
  if entries.any fun entry => entry.access == access && entry.path == .path path then entries
  else entries ++ [pathEntry access path]

/-- `append_default_read_only_path_if_no_explicit_rule`. -/
def appendDefaultReadOnlyPathIfNoExplicitRule (entries : List FileSystemSandboxEntry)
    (path : AbsolutePathBuf) : List FileSystemSandboxEntry :=
  if entries.any fun entry => entry.path == .path path then entries
  else appendPathEntryIfMissing entries path .read

namespace FileSystemSandboxPolicy

/-- `FileSystemSandboxPolicy::from`. -/
def ofSandboxPolicy : SandboxPolicy → FileSystemSandboxPolicy
  | .dangerFullAccess => ⟨.unrestricted, []⟩
  | .externalSandbox _ => ⟨.externalSandbox, []⟩
  | .readOnly access _ => ⟨.restricted, access.entries true⟩
  | .workspaceWrite writableRoots readOnlyAccess _ excludeTmpdirEnvVar excludeSlashTmp =>
      ⟨.restricted, readOnlyAccess.entries false ++
        [specialEntry .currentWorkingDirectory .write] ++
        (if excludeSlashTmp then [] else [specialEntry .slashTmp .write]) ++
        (if excludeTmpdirEnvVar then [] else [specialEntry .tmpdir .write]) ++
        writableRoots.map (pathEntry .write)⟩

/-- `from_legacy_sandbox_policy`: readable roots below a writable root go, and the default
carve-outs of the roots that are named come. -/
def fromLegacySandboxPolicy (host : Host) (unix : Bool) (sandboxPolicy : SandboxPolicy)
    (cwd : PathBuf) : FileSystemSandboxPolicy :=
  let policy := ofSandboxPolicy sandboxPolicy
  match sandboxPolicy with
  | .workspaceWrite writableRoots _ _ _ _ =>
      let legacyWritableRoots := sandboxPolicy.getWritableRootsWithCwd host unix cwd
      let kept := policy.entries.filter fun entry =>
        match entry.access, entry.path with
        | .read, .path path => !legacyWritableRoots.any fun root => root.isPathWritable path
        | _, _ => true
      let cwdPaths := (AbsolutePathBuf.fromAbsolutePath host cwd).toList.flatMap fun cwdRoot =>
        defaultReadOnlySubpathsForWritableRoot host cwdRoot true
      let rootPaths := writableRoots.flatMap fun root =>
        defaultReadOnlySubpathsForWritableRoot host root false
      { policy with
        entries := (cwdPaths ++ rootPaths).foldl appendDefaultReadOnlyPathIfNoExplicitRule kept }
  | _ => policy

/-! ## To a legacy policy -/

/-- What the loop of `to_legacy_sandbox_policy` gathers. -/
structure LegacyGrants where
  includePlatformDefaults : Bool
  hasFullDiskReadAccess : Bool
  hasFullDiskWriteAccess : Bool
  workspaceRootWritable : Bool
  writableRoots : List AbsolutePathBuf
  readableRoots : List AbsolutePathBuf
  tmpdirWritable : Bool
  slashTmpWritable : Bool

namespace LegacyGrants

def none : LegacyGrants :=
  ⟨false, false, false, false, [], [], false, false⟩

def pushReadable (grants : LegacyGrants) (path : Option AbsolutePathBuf) : LegacyGrants :=
  { grants with readableRoots := grants.readableRoots ++ path.toList }

def pushWritable (grants : LegacyGrants) (path : Option AbsolutePathBuf) : LegacyGrants :=
  { grants with writableRoots := grants.writableRoots ++ path.toList }

/-- The body of the loop. -/
def add (host : Host) (cwdAbsolute : Option AbsolutePathBuf) (grants : LegacyGrants)
    (entry : FileSystemSandboxEntry) : LegacyGrants :=
  match entry.path, entry.access with
  | .path path, .write =>
      if cwdAbsolute = some path then
        { grants with workspaceRootWritable := true }
      else grants.pushWritable (some path)
  | .path path, .read => grants.pushReadable (some path)
  | .special .root, .read =>
      { grants with hasFullDiskReadAccess := true }
  | .special .root, .write =>
      { grants with hasFullDiskReadAccess := true, hasFullDiskWriteAccess := true }
  | .special .minimal, .read | .special .minimal, .write =>
      { grants with includePlatformDefaults := true }
  | .special .currentWorkingDirectory, .write | .special (.projectRoots Option.none), .write =>
      { grants with workspaceRootWritable := true }
  | .special (.projectRoots subpath), .write =>
      grants.pushWritable
        (resolveFileSystemSpecialPath host (.projectRoots subpath) cwdAbsolute)
  | .special .tmpdir, .write =>
      { grants with tmpdirWritable := true }
  | .special .slashTmp, .write =>
      { grants with slashTmpWritable := true }
  | .special (.unknown _ _), _ => grants
  | .special value, .read =>
      grants.pushReadable (resolveFileSystemSpecialPath host value cwdAbsolute)
  | _, .none => grants

end LegacyGrants

/-- Full access, with or without the network. -/
def fullAccessPolicy (network : NetworkSandboxPolicy) : SandboxPolicy :=
  if network.isEnabled then .dangerFullAccess else .externalSandbox .restricted

/-- `to_legacy_sandbox_policy`; none when it grants a write outside of the workspace. -/
def toLegacySandboxPolicy (host : Host) (policy : FileSystemSandboxPolicy)
    (network : NetworkSandboxPolicy) (cwd : PathBuf) : Option SandboxPolicy :=
  match policy.kind with
  | .externalSandbox => some (.externalSandbox network)
  | .unrestricted => some (fullAccessPolicy network)
  | .restricted =>
      let grants := policy.entries.foldl
        (LegacyGrants.add host (AbsolutePathBuf.fromAbsolutePath host cwd)) LegacyGrants.none
      if grants.hasFullDiskWriteAccess then some (fullAccessPolicy network)
      else
        let access : ReadOnlyAccess :=
          if grants.hasFullDiskReadAccess then .fullAccess
          else
            .restricted grants.includePlatformDefaults
              (dedupAbsolutePaths host grants.readableRoots false)
        if grants.workspaceRootWritable then
          some (.workspaceWrite (dedupAbsolutePaths host grants.writableRoots false) access
            network.isEnabled (!grants.tmpdirWritable) (!grants.slashTmpWritable))
        else if grants.writableRoots ≠ [] ∨ grants.tmpdirWritable ∨ grants.slashTmpWritable then
          none
        else some (.readOnly access network.isEnabled)

/-! ## What a policy means -/

/-- `FileSystemSemanticSignature`. -/
structure SemanticSignature where
  hasFullDiskReadAccess : Bool
  hasFullDiskWriteAccess : Bool
  includePlatformDefaults : Bool
  readableRoots : List AbsolutePathBuf
  writableRoots : List WritableRoot
  unreadableRoots : List AbsolutePathBuf
  deriving DecidableEq

/-- `semantic_signature`. -/
def semanticSignature (host : Host) (policy : FileSystemSandboxPolicy) (cwd : PathBuf) :
    SemanticSignature where
  hasFullDiskReadAccess := policy.hasFullDiskReadAccess
  hasFullDiskWriteAccess := policy.hasFullDiskWriteAccess
  includePlatformDefaults := policy.includePlatformDefaults
  readableRoots := policy.getReadableRootsWithCwd host cwd
  writableRoots := policy.getWritableRootsWithCwd host cwd
  unreadableRoots := policy.getUnreadableRootsWithCwd host cwd

def needsDirectRuntimeEnforcement (host : Host) (unix : Bool) (policy : FileSystemSandboxPolicy)
    (network : NetworkSandboxPolicy) (cwd : PathBuf) : Bool :=
  match policy.kind with
  | .unrestricted | .externalSandbox => false
  | .restricted =>
      match policy.toLegacySandboxPolicy host network cwd with
      | none => true
      | some legacyPolicy =>
          policy.semanticSignature host cwd !=
            (fromLegacySandboxPolicy host unix legacyPolicy cwd).semanticSignature host cwd

end FileSystemSandboxPolicy

/-! ## The overlay of the Windows sandbox -/

/-- The sandbox of a platform. -/
inductive SandboxType where
  | none
  | macosSeatbelt
  | linuxSeccomp
  | windowsRestrictedToken
  deriving DecidableEq

/-- The sandbox on Windows. -/
inductive WindowsSandboxLevel where
  | disabled
  | restrictedToken
  | elevated
  deriving DecidableEq

/-- Why no overlay is made. -/
inductive OverlayError where
  /-- "windows sandbox backend cannot enforce file_system=.., network=.., legacy_policy=..; refusing
  to run unsandboxed". -/
  | backend (fileSystem : FileSystemSandboxKind) (network : NetworkSandboxPolicy)
      (legacyPolicy : SandboxPolicy)
  | message (text : Text)

/-- An error that names what the unelevated sandbox cannot do. -/
def OverlayError.unelevated (cannot : Text) : OverlayError :=
  .message ("windows unelevated restricted-token sandbox cannot ".toList ++ cannot ++
    " directly; refusing to run unsandboxed".toList)

def OverlayError.elevated : OverlayError :=
  .message ("windows elevated sandbox backend cannot enforce split filesystem permissions " ++
    "directly; refusing to run unsandboxed").toList

def OverlayError.readRestrictions : OverlayError :=
  .unelevated "enforce split filesystem read restrictions".toList

def OverlayError.unreadableCarveouts : OverlayError :=
  .unelevated "enforce unreadable split filesystem carveouts".toList

def OverlayError.writableRootSets : OverlayError :=
  .unelevated "enforce split writable root sets".toList

def OverlayError.reopenedDescendants : OverlayError :=
  .unelevated "reopen writable descendants under read-only carveouts".toList

def shouldUseWindowsRestrictedTokenSandbox (sandbox : SandboxType) (sandboxPolicy : SandboxPolicy)
    (policy : FileSystemSandboxPolicy) : Bool :=
  sandbox == .windowsRestrictedToken && policy.kind == .restricted &&
    match sandboxPolicy with
    | .dangerFullAccess | .externalSandbox _ => false
    | .readOnly _ _ | .workspaceWrite _ _ _ _ _ => true

/-- Paths in the order of their components. -/
local instance : LinearOrder AbsolutePathBuf :=
  LinearOrder.lift' AbsolutePathBuf.segments fun _ _ => AbsolutePathBuf.ext

section Overlay

-- `normalize_windows_overlay_path`.
variable (normalize : AbsolutePathBuf → Except OverlayError AbsolutePathBuf)

/-- The normalized paths of some roots. -/
def rootPaths (roots : List WritableRoot) : Except OverlayError (Finset AbsolutePathBuf) :=
  (roots.mapM fun root => normalize root.root).map List.toFinset

/-- Some root lies below a carve-out of another one. -/
def reopens (roots : List WritableRoot) : Bool :=
  roots.any fun root => root.readOnlySubpaths.any fun subpath =>
    roots.any fun candidate =>
      candidate.root != root.root && candidate.root.startsWith subpath

/-- Deny a carve-out of a split root that the legacy root lacks. -/
def denySubpath (legacyRoot : WritableRoot) (denied : Finset AbsolutePathBuf)
    (subpath : AbsolutePathBuf) : Except OverlayError (Finset AbsolutePathBuf) :=
  if legacyRoot.readOnlySubpaths.any (· == subpath) then .ok denied
  else (normalize subpath).map fun path => insert path denied

/-- Deny the carve-outs of a split root that the legacy root with the same path lacks. -/
def denyRoot (legacyWritableRoots : List WritableRoot) (denied : Finset AbsolutePathBuf)
    (splitRoot : WritableRoot) : Except OverlayError (Finset AbsolutePathBuf) := do
  let splitRootPath ← normalize splitRoot.root
  let found := legacyWritableRoots.find? fun candidate =>
    match normalize candidate.root with
    | .ok candidatePath => candidatePath == splitRootPath
    | .error _ => false
  match found with
  | none => .error .writableRootSets
  | some legacyRoot => splitRoot.readOnlySubpaths.foldlM (denySubpath normalize legacyRoot) denied

/-- The overlay behind the refusals, with the paths in their order. -/
def overlayOf (legacyWritableRoots splitWritableRoots : List WritableRoot) :
    Except OverlayError (Option (List AbsolutePathBuf)) := do
  let legacyRootPaths ← rootPaths normalize legacyWritableRoots
  let splitRootPaths ← rootPaths normalize splitWritableRoots
  if legacyRootPaths ≠ splitRootPaths then .error .writableRootSets
  else if reopens splitWritableRoots then .error .reopenedDescendants
  else
    let denied ← splitWritableRoots.foldlM (denyRoot normalize legacyWritableRoots) ∅
    if denied = ∅ then .ok none else .ok (some denied.sort)

/-- `resolve_windows_restricted_token_filesystem_overlay`. -/
def resolveWindowsRestrictedTokenFilesystemOverlay (host : Host) (unix : Bool)
    (sandbox : SandboxType) (sandboxPolicy : SandboxPolicy) (policy : FileSystemSandboxPolicy)
    (network : NetworkSandboxPolicy) (cwd : PathBuf) (level : WindowsSandboxLevel) :
    Except OverlayError (Option (List AbsolutePathBuf)) :=
  if sandbox ≠ .windowsRestrictedToken then .ok none
  else
    let needs := policy.needsDirectRuntimeEnforcement host unix network cwd
    let shouldUse := shouldUseWindowsRestrictedTokenSandbox sandbox sandboxPolicy policy
    if shouldUse && !needs then .ok none
    else if !shouldUse then .error (.backend policy.kind network sandboxPolicy)
    else if level ≠ .restrictedToken then .error .elevated
    else if !policy.hasFullDiskReadAccess then .error .readRestrictions
    else if policy.getUnreadableRootsWithCwd host cwd ≠ [] then .error .unreadableCarveouts
    else
      overlayOf normalize (sandboxPolicy.getWritableRootsWithCwd host unix cwd)
        (policy.getWritableRootsWithCwd host cwd)

end Overlay

/-! ## What is denied -/

section Denied

variable {normalize : AbsolutePathBuf → Except OverlayError AbsolutePathBuf}
  {legacy split : List WritableRoot} {legacyRoot splitRoot : WritableRoot}
  {denied after : Finset AbsolutePathBuf}

/-- A fold that only adds keeps what it starts with, and has what each of its steps adds. -/
theorem covered_of_foldlM {ι : Type} {step : Finset AbsolutePathBuf → ι →
      Except OverlayError (Finset AbsolutePathBuf)} (covered : Finset AbsolutePathBuf → ι → Prop)
    (grows : ∀ denied item after, step denied item = .ok after → denied ⊆ after)
    (covers : ∀ denied item after, step denied item = .ok after → covered after item)
    (mono : ∀ denied after item, denied ⊆ after → covered denied item → covered after item)
    {items : List ι} (folded : items.foldlM step denied = .ok after) :
    denied ⊆ after ∧ ∀ item ∈ items, covered after item := by
  induction items generalizing denied with
  | nil =>
      cases folded
      exact ⟨Finset.Subset.refl _, by simp⟩
  | cons item items ih =>
      rw [List.foldlM_cons] at folded
      obtain ⟨next, stepped, rest⟩ := bind_eq_ok_iff.mp folded
      obtain ⟨kept, others⟩ := ih rest
      refine ⟨(grows denied item next stepped).trans kept, ?_⟩
      intro other member
      obtain rfl | later := List.mem_cons.mp member
      · exact mono next after other kept (covers denied other next stepped)
      · exact others other later

variable (identity : ∀ path, normalize path = .ok path)

include identity

theorem denySubpath_eq (subpath : AbsolutePathBuf) :
    denySubpath normalize legacyRoot denied subpath =
      if subpath ∈ legacyRoot.readOnlySubpaths then .ok denied else
        .ok (insert subpath denied) := by
  rw [denySubpath, identity]
  simp only [List.any_beq', List.elem_eq_mem, decide_eq_true_iff]
  rfl

/-- Every carve-out of the split root is one of the legacy root, or denied. -/
theorem denied_of_denySubpath
    (folded : splitRoot.readOnlySubpaths.foldlM (denySubpath normalize legacyRoot) denied =
      .ok after) :
    denied ⊆ after ∧ ∀ subpath ∈ splitRoot.readOnlySubpaths,
      subpath ∈ legacyRoot.readOnlySubpaths ∨ subpath ∈ after := by
  refine covered_of_foldlM
    (fun after subpath => subpath ∈ legacyRoot.readOnlySubpaths ∨ subpath ∈ after)
    (fun denied subpath after stepped => ?_) (fun denied subpath after stepped => ?_)
    (fun denied after subpath kept covered => covered.imp_right fun member => kept member) folded
  · rw [denySubpath_eq identity] at stepped
    split at stepped
    · cases stepped
      exact Finset.Subset.refl _
    · cases stepped
      exact Finset.subset_insert _ _
  · rw [denySubpath_eq identity] at stepped
    split at stepped
    case isTrue shared => exact .inl shared
    case isFalse =>
      cases stepped
      exact .inr (Finset.mem_insert_self _ _)

/-- The first legacy root with the path of the split root shares each of its carve-outs, or it is
denied. -/
theorem denied_of_denyRoot (stepped : denyRoot normalize legacy denied splitRoot = .ok after) :
    denied ⊆ after ∧ ∃ legacyRoot ∈ legacy, legacyRoot.root = splitRoot.root ∧
      ∀ subpath ∈ splitRoot.readOnlySubpaths,
        subpath ∈ legacyRoot.readOnlySubpaths ∨ subpath ∈ after := by
  rw [denyRoot] at stepped
  obtain ⟨splitRootPath, normalized, stepped⟩ := bind_eq_ok_iff.mp stepped
  rw [identity] at normalized
  cases normalized
  simp only [identity] at stepped
  split at stepped
  case h_1 => cases stepped
  case h_2 legacyRoot found =>
    obtain ⟨kept, covered⟩ := denied_of_denySubpath identity stepped
    have same : legacyRoot.root = splitRoot.root := by simpa using List.find?_some found
    exact ⟨kept, legacyRoot, List.mem_of_find?_eq_some found, same, covered⟩

theorem rootPaths_eq (roots : List WritableRoot) :
    rootPaths normalize roots = .ok (roots.map WritableRoot.root).toFinset := by
  have mapped : roots.mapM (fun root => normalize root.root) =
      .ok (roots.map WritableRoot.root) := by
    induction roots with
    | nil => rfl
    | cons root roots ih => rw [List.mapM_cons, identity, ih]; rfl
  rw [rootPaths, mapped]
  rfl

/-- Every legacy root has a split root with its path, whose carve-outs it shares or the overlay
denies. -/
theorem covered_of_overlayOf {overlay : Option (List AbsolutePathBuf)}
    (congruent : ∀ first ∈ legacy, ∀ second ∈ legacy, first.root = second.root →
      first.readOnlySubpaths = second.readOnlySubpaths)
    (made : overlayOf normalize legacy split = .ok overlay) (member : legacyRoot ∈ legacy) :
    ∃ splitRoot ∈ split, splitRoot.root = legacyRoot.root ∧
      ∀ subpath ∈ splitRoot.readOnlySubpaths,
        subpath ∈ legacyRoot.readOnlySubpaths ∨ subpath ∈ overlay.getD [] := by
  rw [overlayOf, rootPaths_eq identity, rootPaths_eq identity] at made
  change (if (legacy.map WritableRoot.root).toFinset ≠ (split.map WritableRoot.root).toFinset then
    _ else _) = _ at made
  split at made
  case isTrue => cases made
  case isFalse sameRoots =>
    split at made
    case isTrue => cases made
    case isFalse =>
      obtain ⟨denied, folded, made⟩ := bind_eq_ok_iff.mp made
      obtain ⟨-, covered⟩ := covered_of_foldlM
        (fun after splitRoot => ∃ legacyRoot ∈ legacy, legacyRoot.root = splitRoot.root ∧
          ∀ subpath ∈ splitRoot.readOnlySubpaths,
            subpath ∈ legacyRoot.readOnlySubpaths ∨ subpath ∈ after)
        (fun denied splitRoot after stepped => (denied_of_denyRoot identity stepped).1)
        (fun denied splitRoot after stepped => (denied_of_denyRoot identity stepped).2)
        (fun denied after splitRoot kept => by
          rintro ⟨legacyRoot, member, same, covered⟩
          exact ⟨legacyRoot, member, same, fun subpath inSplit =>
            (covered subpath inSplit).imp_right fun inDenied => kept inDenied⟩) folded
      have mem_overlay (subpath : AbsolutePathBuf) (inDenied : subpath ∈ denied) :
          subpath ∈ overlay.getD [] := by
        split at made
        case isTrue empty =>
          rw [empty] at inDenied
          cases inDenied
        case isFalse =>
          cases made
          simpa using inDenied
      have inSplit : legacyRoot.root ∈ (split.map WritableRoot.root).toFinset := by
        rw [← not_not.mp sameRoots]
        exact List.mem_toFinset.mpr (List.mem_map_of_mem member)
      obtain ⟨splitRoot, splitMember, same⟩ := List.mem_map.mp (List.mem_toFinset.mp inSplit)
      obtain ⟨other, otherMember, otherSame, shares⟩ := covered splitRoot splitMember
      refine ⟨splitRoot, splitMember, same, fun subpath inCarveouts => ?_⟩
      rw [congruent legacyRoot member other otherMember (same.symm.trans otherSame.symm)]
      exact (shares subpath inCarveouts).imp_right (mem_overlay subpath)

end Denied

/-- What the legacy policy and the overlay leave writable is writable under the split policy. -/
theorem overlay_narrows {host : Host} {unix : Bool} {sandboxPolicy : SandboxPolicy}
    {policy : FileSystemSandboxPolicy} {network : NetworkSandboxPolicy} {cwd : PathBuf}
    {level : WindowsSandboxLevel}
    {normalize : AbsolutePathBuf → Except OverlayError AbsolutePathBuf}
    {overlay : Option (List AbsolutePathBuf)} (identity : ∀ path, normalize path = .ok path)
    (needs : policy.needsDirectRuntimeEnforcement host unix network cwd = true)
    (resolved : resolveWindowsRestrictedTokenFilesystemOverlay normalize host unix
      .windowsRestrictedToken sandboxPolicy policy network cwd level = .ok overlay)
    (path : AbsolutePathBuf)
    (writable : ∃ legacyRoot ∈ sandboxPolicy.getWritableRootsWithCwd host unix cwd,
      legacyRoot.isPathWritable path = true)
    (allowed : ∀ denied ∈ overlay.getD [], path.startsWith denied = false) :
    ∃ splitRoot ∈ policy.getWritableRootsWithCwd host cwd,
      splitRoot.isPathWritable path = true := by
  rw [resolveWindowsRestrictedTokenFilesystemOverlay, if_neg (by simp)] at resolved
  simp only [needs, Bool.not_true, Bool.and_false, Bool.false_eq_true, if_false] at resolved
  split_ifs at resolved
  obtain ⟨legacyRoot, member, inLegacy⟩ := writable
  obtain ⟨splitRoot, splitMember, same, covered⟩ := covered_of_overlayOf identity
    (fun first firstMember second secondMember =>
      SandboxPolicy.readOnlySubpaths_congr firstMember secondMember) resolved member
  obtain ⟨inRoot, notCarved⟩ := WritableRoot.isPathWritable_iff.mp inLegacy
  refine ⟨splitRoot, splitMember, WritableRoot.isPathWritable_iff.mpr ⟨by rwa [same], ?_⟩⟩
  intro subpath inCarveouts below
  obtain shared | denied := covered subpath inCarveouts
  · exact notCarved subpath shared below
  · have apart := allowed subpath denied
    rw [AbsolutePathBuf.startsWith_iff.mpr below] at apart
    cases apart

def draftsPath : AbsolutePathBuf := ⟨[['a'], ['b'], ['d']], by decide⟩

/-- The workspace `/a/b` without `/a/b/d`. -/
def docsPolicy : FileSystemSandboxPolicy where
  kind := .restricted
  entries :=
    [specialEntry .root .read, specialEntry .currentWorkingDirectory .write,
      pathEntry .read draftsPath]

theorem overlay_narrows_docs :
    ∃ splitRoot ∈ docsPolicy.getWritableRootsWithCwd Host.bare "/a/b".toList,
      splitRoot.isPathWritable ⟨[['a'], ['b'], ['c']], by decide⟩ = true := by
  have resolved : resolveWindowsRestrictedTokenFilesystemOverlay .ok Host.bare false
      .windowsRestrictedToken (.workspaceWrite [] .fullAccess false true true) docsPolicy
      .restricted "/a/b".toList .restrictedToken =
        .ok (some (Finset.sort ({draftsPath} : Finset AbsolutePathBuf))) := by
    rfl
  refine overlay_narrows (fun _ => rfl) (by decide) resolved _ (by decide) fun denied member => ?_
  obtain rfl : denied = draftsPath := by simpa using member
  decide

end CodexPilot.Sandbox
