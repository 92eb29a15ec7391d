import CodexPilot.Sandbox.Bwrap

/-!
# What the mount plan grants

Over a file system without symbolic links, the mount plan never lets a path be written that the
policy does not let be written, and it hides a denied path unless the protected git directory of a
writable root that is bound later brings it back.
-/

namespace CodexPilot.Sandbox

open RustStd

/-- A host without symbolic links on which everything above an existing path exists. -/
structure PlainTree (host : Host) : Prop extends SymlinkFree host where
  closed : ∀ path count, host.pathExists path = true → host.pathExists (path.take count) = true

/-- The operation mounts something at or above the path. -/
abbrev MountOp.Covers (op : MountOp) (path : AbsolutePathBuf) : Prop :=
  Layers.Covers MountOp.target op path.segments

namespace PlainTree

variable {host : Host} {path above : AbsolutePathBuf}

theorem exists_above (plain : PlainTree host) (present : host.pathExists path = true)
    (covers : above.segments <+: path.segments) : host.pathExists above = true := by
  have same : above = path.take above.segments.length := by
    ext1
    exact List.prefix_iff_eq_take.mp covers
  rw [same]
  exact plain.closed path _ present

theorem findSymlinkInPath_eq_none (plain : PlainTree host) (target : AbsolutePathBuf)
    (allowedWritePaths : List AbsolutePathBuf) :
    findSymlinkInPath host target allowedWritePaths = none := by
  simp [findSymlinkInPath, List.find?_eq_none, plain.plain]

end PlainTree

theorem plainTree_treeHost {directories : List AbsolutePathBuf}
    {files : List (AbsolutePathBuf × Text)}
    (closed : ∀ path ∈ directories ++ files.map Prod.fst, ∀ above ∈ path.ancestors,
      above ∈ directories ++ files.map Prod.fst) : PlainTree (treeHost directories files) where
  toSymlinkFree := symlinkFree_treeHost directories files
  closed := by
    intro path count present
    simp only [treeHost, List.contains_iff_mem] at present ⊢
    apply closed path present
    simp only [AbsolutePathBuf.ancestors, List.mem_map, List.mem_reverse, List.mem_range]
    refine ⟨min count path.segments.length, by omega, ?_⟩
    ext1
    simp only [AbsolutePathBuf.take]
    rw [← List.take_take, List.take_length]

/-! ## Masks -/

section Masks

variable {host : Host} {path target root : AbsolutePathBuf}
  {allowedWritePaths : List AbsolutePathBuf} {op : MountOp}

theorem mem_pathsTo {current : AbsolutePathBuf} (member : current ∈ pathsTo target) :
    current.segments <+: target.segments := by
  simp only [pathsTo, List.mem_map, List.mem_range] at member
  obtain ⟨count, _, rfl⟩ := member
  exact List.take_prefix _ _

theorem self_mem_pathsTo (below : target.segments ≠ []) : target ∈ pathsTo target := by
  have positive : 0 < target.segments.length := List.length_pos_iff.mpr below
  simp only [pathsTo, List.mem_map, List.mem_range]
  refine ⟨target.segments.length - 1, by omega, ?_⟩
  ext1
  simp only [AbsolutePathBuf.take]
  rw [Nat.sub_add_cancel positive, List.take_length]

theorem findFirstNonExistentComponent_spec {missing : AbsolutePathBuf}
    (found : findFirstNonExistentComponent host target = some missing) :
    missing.segments <+: target.segments ∧ host.pathExists missing = false := by
  refine ⟨mem_pathsTo (List.mem_of_find?_eq_some found), ?_⟩
  simpa using List.find?_some found

/-- A missing path below an existing one has a first missing component in between. -/
theorem PlainTree.exists_missing (plain : PlainTree host)
    (rootExists : host.pathExists root = true) (missing : host.pathExists target = false)
    (below : root.segments <+: target.segments) :
    ∃ component, findFirstNonExistentComponent host target = some component ∧
      root.segments <+: component.segments ∧ component.segments <+: target.segments := by
  have deep : target.segments ≠ [] := by
    intro empty
    have same : target = root := AbsolutePathBuf.ext (by
      rw [empty]
      exact (List.prefix_nil.mp (empty ▸ below)).symm)
    rw [same, rootExists] at missing
    cases missing
  have found : (findFirstNonExistentComponent host target).isSome = true := by
    rw [findFirstNonExistentComponent, List.find?_isSome]
    exact ⟨target, self_mem_pathsTo deep, by simp [missing]⟩
  obtain ⟨component, same⟩ := Option.isSome_iff_exists.mp found
  obtain ⟨covers, absent⟩ := findFirstNonExistentComponent_spec same
  refine ⟨component, same, ?_, covers⟩
  rcases List.prefix_or_prefix_of_prefix below covers with rootAbove | componentAbove
  · exact rootAbove
  · rw [plain.exists_above rootExists componentAbove] at absent
    cases absent

theorem isWithinAllowedWritePaths_iff :
    isWithinAllowedWritePaths path allowedWritePaths = true ↔
      ∃ root ∈ allowedWritePaths, root.segments <+: path.segments := by
  simp [isWithinAllowedWritePaths, AbsolutePathBuf.startsWith_iff]

theorem mem_missingComponentArgs
    (member : op ∈ missingComponentArgs host target allowedWritePaths) :
    ∃ missing, op = .roBind devNullPath missing ∧ host.pathExists missing = false := by
  unfold missingComponentArgs at member
  split at member
  · rename_i missing found
    split at member
    · exact ⟨missing, List.mem_singleton.mp member, (findFirstNonExistentComponent_spec found).2⟩
    · cases member
  · cases member

/-- A mask on a missing path still covers everything below it that lies under a writable root. -/
theorem PlainTree.exists_mem_missingComponentArgs (plain : PlainTree host)
    (rootExists : host.pathExists root = true) (allowed : root ∈ allowedWritePaths)
    (missing : host.pathExists target = false) (below : root.segments <+: target.segments)
    (covers : target.segments <+: path.segments) :
    ∃ op ∈ missingComponentArgs host target allowedWritePaths, op.Covers path := by
  obtain ⟨component, found, rootAbove, above⟩ := plain.exists_missing rootExists missing below
  have within : isWithinAllowedWritePaths component allowedWritePaths = true :=
    isWithinAllowedWritePaths_iff.mpr ⟨root, allowed, rootAbove⟩
  refine ⟨.roBind devNullPath component, ?_, _, rfl, above.trans covers⟩
  simp [missingComponentArgs, found, within]

/-- The operations that make a carve-out read-only. -/
theorem PlainTree.mem_readOnlySubpathArgs (plain : PlainTree host)
    (member : op ∈ readOnlySubpathArgs host target allowedWritePaths) :
    (∃ missing, op = .roBind devNullPath missing ∧ host.pathExists missing = false) ∨
      op = .roBind target target ∧ isWithinAllowedWritePaths target allowedWritePaths = true := by
  simp only [readOnlySubpathArgs, plain.findSymlinkInPath_eq_none] at member
  split at member
  · exact Or.inl (mem_missingComponentArgs member)
  · split at member
    · rename_i within
      exact Or.inr ⟨List.mem_singleton.mp member, within⟩
    · cases member

theorem PlainTree.exists_mem_readOnlySubpathArgs (plain : PlainTree host)
    (rootExists : host.pathExists root = true) (allowed : root ∈ allowedWritePaths)
    (below : root.segments <+: target.segments) (covers : target.segments <+: path.segments) :
    ∃ op ∈ readOnlySubpathArgs host target allowedWritePaths, op.Covers path := by
  have within : isWithinAllowedWritePaths target allowedWritePaths = true :=
    isWithinAllowedWritePaths_iff.mpr ⟨root, allowed, below⟩
  simp only [readOnlySubpathArgs, plain.findSymlinkInPath_eq_none]
  cases present : host.pathExists target with
  | false =>
      simpa using plain.exists_mem_missingComponentArgs rootExists allowed present below covers
  | true => exact ⟨.roBind target target, by simp [within], _, rfl, covers⟩

theorem mem_mountTargetParentDirArgs {anchor : AbsolutePathBuf}
    (member : op ∈ mountTargetParentDirArgs host target anchor) :
      ∃ directory, op = .dir directory := by
  simp only [mountTargetParentDirArgs] at member
  split at member
  · cases member
  · obtain ⟨directory, _, rfl⟩ := List.mem_map.mp member
    exact ⟨directory, rfl⟩

/-- The operations that hide a denied path. -/
theorem PlainTree.mem_unreadableRootArgs (plain : PlainTree host)
    (member : op ∈ unreadableRootArgs host target allowedWritePaths) :
    (∃ missing, op = .roBind devNullPath missing ∧ host.pathExists missing = false) ∨
      op.visibility = .hidden ∧ (op.target = none ∨ op.target = some target.segments) := by
  simp only [unreadableRootArgs, plain.findSymlinkInPath_eq_none] at member
  split at member
  · exact Or.inl (mem_missingComponentArgs member)
  · right
    split at member
    · simp only [List.mem_append, List.mem_cons, List.not_mem_nil, or_false,
        List.mem_flatMap] at member
      rcases member with ((rfl | rfl) | ⟨_, _, isDir⟩) | rfl
      · exact ⟨rfl, Or.inl rfl⟩
      · exact ⟨rfl, Or.inr rfl⟩
      · obtain ⟨directory, rfl⟩ := mem_mountTargetParentDirArgs isDir
        exact ⟨rfl, Or.inl rfl⟩
      · exact ⟨rfl, Or.inl rfl⟩
    · simp only [List.mem_cons, List.not_mem_nil, or_false] at member
      rcases member with rfl | rfl
      · exact ⟨rfl, Or.inl rfl⟩
      · exact ⟨rfl, Or.inr rfl⟩

theorem PlainTree.exists_mem_unreadableRootArgs_of_exists (plain : PlainTree host)
    (present : host.pathExists target = true) (covers : target.segments <+: path.segments) :
    ∃ op ∈ unreadableRootArgs host target allowedWritePaths, op.Covers path := by
  simp only [unreadableRootArgs, plain.findSymlinkInPath_eq_none, present]
  cases host.isDir target with
  | true => exact ⟨.tmpfs target, by simp, _, rfl, covers⟩
  | false => exact ⟨.roBindData target, by simp, _, rfl, covers⟩

theorem PlainTree.exists_mem_unreadableRootArgs (plain : PlainTree host)
    (rootExists : host.pathExists root = true) (allowed : root ∈ allowedWritePaths)
    (below : root.segments <+: target.segments) (covers : target.segments <+: path.segments) :
    ∃ op ∈ unreadableRootArgs host target allowedWritePaths, op.Covers path := by
  cases present : host.pathExists target with
  | true => exact plain.exists_mem_unreadableRootArgs_of_exists present covers
  | false =>
      simp only [unreadableRootArgs, plain.findSymlinkInPath_eq_none, present]
      simpa using plain.exists_mem_missingComponentArgs rootExists allowed present below covers

/-- A mask over an existing path hides it. -/
theorem PlainTree.hidden_of_mask (plain : PlainTree host) (present : host.pathExists path = true)
    (member : op ∈ unreadableRootArgs host target allowedWritePaths) (covers : op.Covers path) :
    op.visibility = .hidden ∧ target.segments <+: path.segments := by
  obtain ⟨place, placed, above⟩ := covers
  rcases plain.mem_unreadableRootArgs member with ⟨missing, rfl, absent⟩ | ⟨hidden, unplaced | same⟩
  · cases placed
    rw [plain.exists_above present above] at absent
    cases absent
  · rw [unplaced] at placed
    cases placed
  · rw [same] at placed
    cases placed
    exact ⟨hidden, above⟩

end Masks

/-! ## Blocks -/

section Blocks

variable {host : Host} {path : AbsolutePathBuf} {writableRoot : WritableRoot}
  {unreadableRoots allowedWritePaths : List AbsolutePathBuf} {op : MountOp}

theorem PlainTree.unreadableRootArgs_ne_readWrite (plain : PlainTree host)
    {target : AbsolutePathBuf} (member : op ∈ unreadableRootArgs host target allowedWritePaths) :
    op.visibility ≠ .readWrite := by
  rcases plain.mem_unreadableRootArgs member with ⟨missing, rfl, _⟩ | ⟨hidden, _⟩
  · simp [MountOp.visibility]
  · simp [hidden]

theorem mem_writableRootMasks :
    op ∈ writableRootMasks host unreadableRoots allowedWritePaths writableRoot ↔
      (∃ subpath ∈ writableRoot.readOnlySubpaths, subpath ∉ unreadableRoots ∧
        op ∈ readOnlySubpathArgs host subpath allowedWritePaths) ∨
      ∃ denied ∈ unreadableRoots, denied.startsWith writableRoot.root = true ∧
        op ∈ unreadableRootArgs host denied allowedWritePaths := by
  simp [writableRootMasks, and_assoc]

theorem PlainTree.writableRootMasks_ne_readWrite (plain : PlainTree host)
    (member : op ∈ writableRootMasks host unreadableRoots allowedWritePaths writableRoot) :
    op.visibility ≠ .readWrite := by
  rcases mem_writableRootMasks.mp member with ⟨subpath, _, _, inArgs⟩ | ⟨denied, _, _, inArgs⟩
  · rcases plain.mem_readOnlySubpathArgs inArgs with ⟨missing, rfl, _⟩ | ⟨rfl, _⟩ <;>
      simp [MountOp.visibility]
  · exact plain.unreadableRootArgs_ne_readWrite inArgs

theorem maskedParentArgs_not_covers {root : AbsolutePathBuf}
    (member : op ∈ maskedParentArgs host unreadableRoots root) : ¬ op.Covers path := by
  unfold maskedParentArgs at member
  split at member
  · obtain ⟨directory, rfl⟩ := mem_mountTargetParentDirArgs member
    rintro ⟨place, placed, _⟩
    cases placed
  · cases member

/-- The last covering operation of a block is the binding of the root or comes after it. -/
theorem top_writableRootArgs :
    Layers.top MountOp.target
        (writableRootArgs host unreadableRoots allowedWritePaths writableRoot) path.segments =
      (Layers.top MountOp.target
        (writableRootMasks host unreadableRoots allowedWritePaths writableRoot)
        path.segments).or
          (if path.startsWith writableRoot.root then some (.bind writableRoot.root) else none) := by
  have parents : Layers.top MountOp.target
      (maskedParentArgs host unreadableRoots writableRoot.root) path.segments = none :=
    Layers.top_eq_none_iff.mpr fun op member => maskedParentArgs_not_covers member
  have split : writableRootArgs host unreadableRoots allowedWritePaths writableRoot =
      maskedParentArgs host unreadableRoots writableRoot.root ++ ([.bind writableRoot.root] ++
        writableRootMasks host unreadableRoots allowedWritePaths writableRoot) := rfl
  rw [split, Layers.top_append, Layers.top_append, parents, Option.or_none]
  congr 1
  have filtered : ([MountOp.bind writableRoot.root].filter fun op =>
      op.target.any (·.isPrefixOf path.segments)) =
        if path.startsWith writableRoot.root then [.bind writableRoot.root] else [] := by
    simp [MountOp.target, AbsolutePathBuf.startsWith, List.filter_cons]
  rw [Layers.top, filtered]
  split <;> rfl

end Blocks

/-! ## The whole plan -/

section Plan

variable {host : Host} {policy : FileSystemSandboxPolicy} {cwd : PathBuf}
  {platformDefaultReadRoots : List AbsolutePathBuf} {path : AbsolutePathBuf} {op : MountOp}

/-- What decides a path, part by part from the end of the plan. -/
theorem top_filesystemArgs :
    Layers.top MountOp.target (filesystemArgs platformDefaultReadRoots host policy cwd)
        path.segments =
      let unreadableRoots := policy.getUnreadableRootsWithCwd host cwd
      let allowedWritePaths := allowedWritePaths host policy cwd
      (Layers.top MountOp.target
        ((rootlessUnreadableRoots unreadableRoots allowedWritePaths).flatMap
          (unreadableRootArgs host · allowedWritePaths)) path.segments).or
      ((Layers.top MountOp.target
        ((sortedWritableRoots host policy cwd).flatMap
          (writableRootArgs host unreadableRoots allowedWritePaths)) path.segments).or
      ((Layers.top MountOp.target
        ((unreadableAncestorsOfWritableRoots unreadableRoots allowedWritePaths).flatMap
          (unreadableRootArgs host · allowedWritePaths)) path.segments).or
      (Layers.top MountOp.target (baseArgs platformDefaultReadRoots host policy cwd)
        path.segments))) := by
  simp only [filesystemArgs, Layers.top_append]

theorem mem_sortedWritableRoots {writableRoot : WritableRoot} :
    writableRoot ∈ sortedWritableRoots host policy cwd ↔
      writableRoot ∈ existingWritableRoots host policy cwd :=
  mem_sortByKey

theorem existing_of_sorted {before after : List WritableRoot}
    (sorted : sortedWritableRoots host policy cwd = before ++ after) {other : WritableRoot}
    (member : other ∈ after) : other ∈ existingWritableRoots host policy cwd := by
  rw [← mem_sortedWritableRoots, sorted]
  exact List.mem_append_right before member

theorem mem_allowedWritePaths {root : AbsolutePathBuf} :
    root ∈ allowedWritePaths host policy cwd ↔
      ∃ writableRoot ∈ existingWritableRoots host policy cwd, writableRoot.root = root :=
  List.mem_map

/-- The base view hides paths and shows readable roots. -/
theorem mem_baseArgs (member : op ∈ baseArgs platformDefaultReadRoots host policy cwd) :
    op.visibility = .hidden ∨ ∃ root, op = .roBind root root ∧
      (policy.hasFullDiskReadAccess = true ∨
        root ∈ scopedReadableRoots platformDefaultReadRoots host policy cwd) := by
  simp only [baseArgs] at member
  split at member
  · rename_i full
    rcases List.mem_cons.mp member with rfl | isDev
    · exact Or.inr ⟨_, rfl, Or.inl full⟩
    · rw [List.mem_singleton.mp isDev]
      exact Or.inl rfl
  · split at member
    · rename_i wholeDisk
      rcases List.mem_cons.mp member with rfl | isDev
      · refine Or.inr ⟨_, rfl, Or.inr ?_⟩
        obtain ⟨root, listed, same⟩ := List.any_eq_true.mp wholeDisk
        exact (beq_iff_eq.mp same) ▸ listed
      · rw [List.mem_singleton.mp isDev]
        exact Or.inl rfl
    · simp only [List.mem_append, List.mem_cons, List.not_mem_nil, or_false, List.mem_map,
        List.mem_filter] at member
      rcases member with (rfl | rfl) | ⟨root, ⟨listed, _⟩, rfl⟩
      · exact Or.inl rfl
      · exact Or.inl rfl
      · exact Or.inr ⟨root, rfl, Or.inr listed⟩

/-- A path that ends up writable was bound by a root whose masks leave it alone. -/
theorem PlainTree.bound_of_readWrite (plain : PlainTree host)
    (found : Layers.top MountOp.target (filesystemArgs platformDefaultReadRoots host policy cwd)
      path.segments = some op) (readWrite : op.visibility = .readWrite) :
    ∃ writableRoot ∈ existingWritableRoots host policy cwd,
      path.startsWith writableRoot.root = true ∧
      ∀ mask ∈ writableRootMasks host (policy.getUnreadableRootsWithCwd host cwd)
        (allowedWritePaths host policy cwd) writableRoot, ¬ mask.Covers path := by
  have noMask : ∀ (targets : List AbsolutePathBuf) (allowed : List AbsolutePathBuf),
      Layers.top MountOp.target (targets.flatMap (unreadableRootArgs host · allowed))
        path.segments ≠ some op := by
    intro targets allowed isMask
    obtain ⟨target, _, inArgs⟩ := List.mem_flatMap.mp (Layers.of_top_eq_some isMask).1
    exact plain.unreadableRootArgs_ne_readWrite inArgs readWrite
  have noBase : Layers.top MountOp.target (baseArgs platformDefaultReadRoots host policy cwd)
      path.segments ≠ some op := by
    intro isBase
    rcases mem_baseArgs (Layers.of_top_eq_some isBase).1 with hidden | ⟨root, rfl, _⟩
    · rw [readWrite] at hidden
      cases hidden
    · cases readWrite
  simp only [top_filesystemArgs, Option.or_eq_some_iff, noMask, noBase, and_false, false_or,
    or_false] at found
  obtain ⟨before, writableRoot, after, sorted, inBlock, _⟩ := Layers.top_flatMap found.2
  have inSorted : writableRoot ∈ sortedWritableRoots host policy cwd := by
    rw [sorted]
    simp
  refine ⟨writableRoot, mem_sortedWritableRoots.mp inSorted, ?_⟩
  rw [top_writableRootArgs, Option.or_eq_some_iff] at inBlock
  rcases inBlock with isMask | ⟨unmasked, isBind⟩
  · exact absurd readWrite
      (plain.writableRootMasks_ne_readWrite (Layers.of_top_eq_some isMask).1)
  · refine ⟨?_, Layers.top_eq_none_iff.mp unmasked⟩
    by_contra outside
    simp [outside] at isBind

theorem mem_existingWritableRoots (symlinkFree : SymlinkFree host)
    (restricted : policy.kind = .restricted) {writableRoot : WritableRoot} :
    writableRoot ∈ existingWritableRoots host policy cwd ↔
      policy.hasFullDiskWriteAccess = false ∧ host.pathExists writableRoot.root = true ∧
      ⟨writableRoot.root, .write⟩ ∈ policy.resolvedEntriesWithCwd host cwd ∧
      mostSpecificAccess (policy.resolvedEntriesWithCwd host cwd) writableRoot.root = .write ∧
      writableRoot = policy.writableRootFor host cwd writableRoot.root := by
  rw [existingWritableRoots, List.mem_filter]
  cases limited : policy.hasFullDiskWriteAccess with
  | true => simp [FileSystemSandboxPolicy.getWritableRootsWithCwd, limited]
  | false =>
      rw [symlinkFree.mem_roots restricted limited]
      constructor
      · rintro ⟨⟨root, entry, effective, rfl⟩, present⟩
        exact ⟨rfl, present, entry, effective, rfl⟩
      · rintro ⟨_, present, entry, effective, same⟩
        exact ⟨⟨writableRoot.root, entry, effective, same⟩, present⟩

/-- The mount plan never makes a path writable that the policy does not. -/
theorem mountPlan_readWrite_sound (plain : PlainTree host) (restricted : policy.kind = .restricted)
    (readWrite : visibility (createFilesystemArgs host policy cwd) path = some .readWrite) :
    policy.canWritePathWithCwd host path.asPath cwd = true := by
  rw [FileSystemSandboxPolicy.canWritePathWithCwd_iff restricted
    (FileSystemSandboxPolicy.resolveCandidatePath_asPath host path cwd)]
  obtain ⟨op, found, isReadWrite⟩ := Option.map_eq_some_iff.mp readWrite
  obtain ⟨writableRoot, member, inside, unmasked⟩ := plain.bound_of_readWrite found isReadWrite
  obtain ⟨_, present, entry, effective, same⟩ :=
    (mem_existingWritableRoots plain.toSymlinkFree restricted).mp member
  have allowed : writableRoot.root ∈ allowedWritePaths host policy cwd :=
    mem_allowedWritePaths.mpr ⟨writableRoot, member, rfl⟩
  by_contra narrowed
  obtain ⟨carved, isCarved, below, covers⟩ := plain.toSymlinkFree.exists_carveout restricted entry
    effective (AbsolutePathBuf.startsWith_iff.mp inside) narrowed
  rw [← same] at isCarved
  -- The carve-out is masked in the block of the root, as a denied path or as a read-only one.
  by_cases denied : carved ∈ policy.getUnreadableRootsWithCwd host cwd
  · obtain ⟨mask, inArgs, masks⟩ :=
      plain.exists_mem_unreadableRootArgs present allowed below covers
    exact unmasked mask (mem_writableRootMasks.mpr
      (Or.inr ⟨carved, denied, AbsolutePathBuf.startsWith_iff.mpr below, inArgs⟩)) masks
  · obtain ⟨mask, inArgs, masks⟩ :=
      plain.exists_mem_readOnlySubpathArgs present allowed below covers
    exact unmasked mask (mem_writableRootMasks.mpr
      (Or.inl ⟨carved, isCarved, denied, inArgs⟩)) masks

end Plan

/-- A writable directory with a denied one inside. -/
def deniedInsidePolicy : FileSystemSandboxPolicy where
  kind := .restricted
  entries :=
    [⟨.path outerPath, .write⟩, ⟨.path innerPath, .none⟩]

def smallTree : List AbsolutePathBuf :=
  [AbsolutePathBuf.root, outerPath, innerPath]

theorem mountPlan_readWrite_sound_small :
    visibility (createFilesystemArgs (treeHost smallTree []) deniedInsidePolicy ['/'])
        ⟨[['a'], ['c']], by decide⟩ = some .readWrite ∧
      deniedInsidePolicy.canWritePathWithCwd (treeHost smallTree [])
        (AbsolutePathBuf.asPath ⟨[['a'], ['c']], by decide⟩) ['/'] = true :=
  ⟨by decide, mountPlan_readWrite_sound (plainTree_treeHost (by decide)) rfl (by decide)⟩

/-! ## Denied paths -/

/-- After every writable root around the path, a root is bound whose protected metadata lies above
the path and inside some writable root. -/
def Reexposed (host : Host) (policy : FileSystemSandboxPolicy) (cwd : PathBuf)
    (path : AbsolutePathBuf) : Prop :=
  ∃ before writableRoot after,
    sortedWritableRoots host policy cwd = before ++ writableRoot :: after ∧
    (∀ other ∈ writableRoot :: after, path.startsWith other.root = false) ∧
    ∃ protectedPath ∈ policy.defaultCarveouts host cwd writableRoot.root,
      path.startsWith protectedPath = true ∧
        isWithinAllowedWritePaths protectedPath (allowedWritePaths host policy cwd) = true

section Denied

variable {host : Host} {policy : FileSystemSandboxPolicy} {cwd : PathBuf}
  {path : AbsolutePathBuf} {op : MountOp} {writableRoot : WritableRoot}
  {entry : ResolvedFileSystemEntry}

theorem SymlinkFree.mem_getUnreadableRootsWithCwd (symlinkFree : SymlinkFree host)
    (restricted : policy.kind = .restricted) {denied : AbsolutePathBuf} :
    denied ∈ policy.getUnreadableRootsWithCwd host cwd ↔
      ⟨denied, .none⟩ ∈ policy.resolvedEntriesWithCwd host cwd ∧
        mostSpecificAccess (policy.resolvedEntriesWithCwd host cwd) denied = .none ∧
        (denied = AbsolutePathBuf.root → AbsolutePathBuf.fromAbsolutePath host cwd = none) := by
  have unrooted : ∀ place : AbsolutePathBuf,
      ((AbsolutePathBuf.fromAbsolutePath host cwd).map absoluteRootPathForCwd != some place) =
        true ↔ (place = AbsolutePathBuf.root →
          AbsolutePathBuf.fromAbsolutePath host cwd = none) := by
    intro place
    cases AbsolutePathBuf.fromAbsolutePath host cwd with
    | none => simp
    | some directory =>
        simp only [Option.map_some, absoluteRootPathForCwd_eq, bne_iff_ne, ne_eq,
          Option.some.injEq, reduceCtorEq, imp_false]
        exact not_congr eq_comm
  simp only [FileSystemSandboxPolicy.getUnreadableRootsWithCwd, restricted, ne_eq,
    not_true_eq_false, ↓reduceIte, mem_dedupAbsolutePaths_true, symlinkFree.normalize,
    List.mem_map, List.mem_filter, beq_iff_eq, Bool.not_eq_true', ← Bool.not_eq_true,
    FileSystemSandboxPolicy.canReadPathWithCwd_iff restricted
      (FileSystemSandboxPolicy.resolveCandidatePath_asPath host _ cwd), not_not, unrooted,
    exists_eq_right]
  constructor
  · rintro ⟨⟨_, _⟩, ⟨⟨⟨member, rfl⟩, none⟩, unroot⟩, rfl⟩
    exact ⟨member, none, unroot⟩
  · rintro ⟨member, none, unroot⟩
    exact ⟨⟨denied, .none⟩, ⟨⟨⟨member, rfl⟩, none⟩, unroot⟩, rfl⟩

/-- The operations of a block that cover an existing path outside its root. -/
theorem PlainTree.block_covers_outside (plain : PlainTree host)
    (restricted : policy.kind = .restricted) (present : host.pathExists path = true)
    (member : writableRoot ∈ existingWritableRoots host policy cwd)
    (outside : path.startsWith writableRoot.root = false)
    (found : Layers.top MountOp.target (writableRootArgs host
      (policy.getUnreadableRootsWithCwd host cwd) (allowedWritePaths host policy cwd)
      writableRoot) path.segments = some op) :
    op.visibility = .readOnly ∧
      ∃ protectedPath ∈ policy.defaultCarveouts host cwd writableRoot.root,
        path.startsWith protectedPath = true ∧
          isWithinAllowedWritePaths protectedPath (allowedWritePaths host policy cwd) = true := by
  have apart : ¬ writableRoot.root.segments <+: path.segments := by
    rw [← AbsolutePathBuf.startsWith_iff, outside]
    exact Bool.false_ne_true
  obtain ⟨_, _, _, _, same⟩ :=
    (mem_existingWritableRoots plain.toSymlinkFree restricted).mp member
  rw [top_writableRootArgs, outside] at found
  simp only [Bool.false_eq_true, ↓reduceIte, Option.or_none] at found
  obtain ⟨inMasks, covers⟩ := Layers.of_top_eq_some found
  rcases mem_writableRootMasks.mp inMasks with ⟨subpath, carved, _, inArgs⟩ |
    ⟨denied, _, below, inArgs⟩
  · obtain ⟨place, placed, above⟩ := covers
    rcases plain.mem_readOnlySubpathArgs inArgs with ⟨missing, rfl, absent⟩ | ⟨rfl, within⟩
    · cases placed
      rw [plain.exists_above present above] at absent
      cases absent
    · cases placed
      refine ⟨rfl, subpath, ?_, AbsolutePathBuf.startsWith_iff.mpr above, within⟩
      rw [same] at carved
      rcases (plain.toSymlinkFree.mem_readOnlySubpaths restricted).mp carved with
        default | ⟨_, _, inRoot⟩
      · exact default
      · exact absurd (inRoot.trans above) apart
  · obtain ⟨_, above⟩ := plain.hidden_of_mask present inArgs covers
    exact absurd ((AbsolutePathBuf.startsWith_iff.mp below).trans above) apart

/-- Protected metadata above an existing path is mounted read-only in the block of its root. -/
theorem PlainTree.exists_mem_block (plain : PlainTree host) (restricted : policy.kind = .restricted)
    (present : host.pathExists path = true)
    (member : writableRoot ∈ existingWritableRoots host policy cwd)
    {protectedPath : AbsolutePathBuf}
    (carved : protectedPath ∈ policy.defaultCarveouts host cwd writableRoot.root)
    (covers : path.startsWith protectedPath = true)
    (within : isWithinAllowedWritePaths protectedPath (allowedWritePaths host policy cwd) = true) :
    ∃ op ∈ writableRootArgs host (policy.getUnreadableRootsWithCwd host cwd)
      (allowedWritePaths host policy cwd) writableRoot, op.Covers path := by
  obtain ⟨_, _, _, _, same⟩ :=
    (mem_existingWritableRoots plain.toSymlinkFree restricted).mp member
  have above := AbsolutePathBuf.startsWith_iff.mp covers
  have readOnly : protectedPath ∈ writableRoot.readOnlySubpaths := by
    rw [same]
    exact (plain.toSymlinkFree.mem_readOnlySubpaths restricted).mpr (Or.inl carved)
  have readable : protectedPath ∉ policy.getUnreadableRootsWithCwd host cwd := by
    intro denied
    have named := (plain.toSymlinkFree.mem_getUnreadableRootsWithCwd restricted).mp denied
    exact (mem_defaultCarveouts.mp carved).2 _ named.1 rfl
  have bound : MountOp.roBind protectedPath protectedPath ∈
      readOnlySubpathArgs host protectedPath (allowedWritePaths host policy cwd) := by
    simp [readOnlySubpathArgs, plain.findSymlinkInPath_eq_none, plain.exists_above present above,
      within]
  refine ⟨.roBind protectedPath protectedPath, ?_, _, rfl, above⟩
  have inMasks := mem_writableRootMasks.mpr (Or.inl ⟨protectedPath, readOnly, readable, bound⟩)
  exact List.mem_append_right _ (List.mem_cons_of_mem _ inMasks)

/-- The writable roots around a denied path lie above the denied place. -/
theorem denied_below_root (symlinkFree : SymlinkFree host) (restricted : policy.kind = .restricted)
    (decides : Decides (policy.resolvedEntriesWithCwd host cwd) path entry)
    (denied : entry.access = .none) (member : writableRoot ∈ existingWritableRoots host policy cwd)
    (inside : path.startsWith writableRoot.root = true) :
    writableRoot.root.segments <+: entry.path.segments ∧ writableRoot.root ≠ entry.path := by
  obtain ⟨_, _, named, effective, _⟩ := (mem_existingWritableRoots symlinkFree restricted).mp member
  refine ⟨decides.deepest _ named (AbsolutePathBuf.startsWith_iff.mp inside), ?_⟩
  intro same
  rw [same, mostSpecificAccess_of_decides decides.at_place, denied] at effective
  cases effective

/-- The denied place is one of the denied roots, unless it is the file system root. -/
theorem denied_mem_unreadableRoots (symlinkFree : SymlinkFree host)
    (restricted : policy.kind = .restricted)
    (decides : Decides (policy.resolvedEntriesWithCwd host cwd) path entry)
    (denied : entry.access = .none) (belowRoot : entry.path ≠ AbsolutePathBuf.root) :
    entry.path ∈ policy.getUnreadableRootsWithCwd host cwd := by
  obtain ⟨place, access⟩ := entry
  obtain rfl : access = .none := denied
  exact (symlinkFree.mem_getUnreadableRootsWithCwd restricted).mpr
    ⟨decides.member, mostSpecificAccess_of_decides decides.at_place,
      fun isRoot => absurd isRoot belowRoot⟩

/-- The block of a root around a denied path hides it again. -/
theorem PlainTree.block_hides (plain : PlainTree host) (restricted : policy.kind = .restricted)
    (present : host.pathExists path = true)
    (decides : Decides (policy.resolvedEntriesWithCwd host cwd) path entry)
    (denied : entry.access = .none) (member : writableRoot ∈ existingWritableRoots host policy cwd)
    (inside : path.startsWith writableRoot.root = true) :
    ∃ op, Layers.top MountOp.target (writableRootArgs host
        (policy.getUnreadableRootsWithCwd host cwd) (allowedWritePaths host policy cwd)
        writableRoot) path.segments = some op ∧ op.visibility = .hidden := by
  obtain ⟨below, notSame⟩ :=
    denied_below_root plain.toSymlinkFree restricted decides denied member inside
  have belowRoot : entry.path ≠ AbsolutePathBuf.root := by
    intro isRoot
    rw [isRoot] at below notSame
    exact notSame (AbsolutePathBuf.ext (List.prefix_nil.mp below))
  have masked := denied_mem_unreadableRoots plain.toSymlinkFree restricted decides denied belowRoot
  obtain ⟨mask, inArgs, covers⟩ := @PlainTree.exists_mem_unreadableRootArgs_of_exists host path
    entry.path (allowedWritePaths host policy cwd) plain
    (plain.exists_above present decides.covers) decides.covers
  -- The masks over denied paths come last in the block.
  have inMasks : mask ∈ (sortByKey pathDepth
      ((policy.getUnreadableRootsWithCwd host cwd).filter fun path =>
        path.startsWith writableRoot.root)).flatMap
          (unreadableRootArgs host · (allowedWritePaths host policy cwd)) := by
    refine List.mem_flatMap.mpr ⟨entry.path, mem_sortByKey.mpr (List.mem_filter.mpr
      ⟨masked, AbsolutePathBuf.startsWith_iff.mpr below⟩), inArgs⟩
  obtain ⟨op, found⟩ := Layers.exists_top inMasks covers
  refine ⟨op, ?_, ?_⟩
  · rw [top_writableRootArgs, writableRootMasks, Layers.top_append_of_covers inMasks covers, found,
      Option.some_or]
  · obtain ⟨isMask, opCovers⟩ := Layers.of_top_eq_some found
    obtain ⟨target, _, inTarget⟩ := List.mem_flatMap.mp isMask
    exact (plain.hidden_of_mask present inTarget opCovers).1

theorem SymlinkFree.mem_scopedReadableRoots (symlinkFree : SymlinkFree host)
    (restricted : policy.kind = .restricted) {root : AbsolutePathBuf}
    (listed : root ∈ scopedReadableRoots [] host policy cwd) :
    ∃ access, ⟨root, access⟩ ∈ policy.resolvedEntriesWithCwd host cwd ∧
      mostSpecificAccess (policy.resolvedEntriesWithCwd host cwd) root ≠ .none := by
  simp only [scopedReadableRoots, List.filter_nil, ite_self, List.append_nil, mem_sortByKey,
    List.mem_eraseDups, FileSystemSandboxPolicy.getReadableRootsWithCwd] at listed
  split at listed
  · cases listed
  · simp only [mem_dedupAbsolutePaths_true, symlinkFree.normalize, exists_eq_right, List.mem_map,
      List.mem_filter, FileSystemSandboxPolicy.canReadPathWithCwd_iff restricted
        (FileSystemSandboxPolicy.resolveCandidatePath_asPath host _ cwd)] at listed
    obtain ⟨⟨_, access⟩, ⟨⟨member, _⟩, readable⟩, rfl⟩ := listed
    exact ⟨access, member, readable⟩

theorem not_hasFullDiskReadAccess (restricted : policy.kind = .restricted)
    (member : entry ∈ policy.resolvedEntriesWithCwd host cwd) (denied : entry.access = .none) :
    policy.hasFullDiskReadAccess = false := by
  obtain ⟨raw, inEntries, sameAccess, _⟩ :=
    FileSystemSandboxPolicy.mem_resolvedEntriesWithCwd.mp member
  have deny : policy.hasExplicitDenyEntries = true := by
    simp only [FileSystemSandboxPolicy.hasExplicitDenyEntries, restricted, BEq.rfl, Bool.true_and,
      List.any_eq_true, beq_iff_eq]
    exact ⟨raw, inEntries, sameAccess.trans denied⟩
  simp [FileSystemSandboxPolicy.hasFullDiskReadAccess, restricted, deny]

/-- The base view does not show a path that the root entry denies. -/
theorem base_hides (symlinkFree : SymlinkFree host) (restricted : policy.kind = .restricted)
    (decides : Decides (policy.resolvedEntriesWithCwd host cwd) path entry)
    (denied : entry.access = .none) (atRoot : entry.path = AbsolutePathBuf.root)
    (member : op ∈ baseArgs [] host policy cwd) (covers : op.Covers path) :
    op.visibility = .hidden := by
  rcases mem_baseArgs member with hidden | ⟨root, rfl, full | listed⟩
  · exact hidden
  · rw [not_hasFullDiskReadAccess restricted decides.member denied] at full
    cases full
  · obtain ⟨access, named, readable⟩ := symlinkFree.mem_scopedReadableRoots restricted listed
    obtain ⟨place, placed, above⟩ := covers
    cases placed
    have below := decides.deepest _ named above
    have same : root = entry.path := by
      rw [atRoot] at below ⊢
      exact AbsolutePathBuf.ext (List.prefix_nil.mp below)
    rw [same, mostSpecificAccess_of_decides decides.at_place, denied] at readable
    exact absurd rfl readable

/-- A denied path outside every writable root is masked before the first root or after the last. -/
theorem PlainTree.exists_mask (plain : PlainTree host) (present : host.pathExists path = true)
    {place : AbsolutePathBuf} (masked : place ∈ policy.getUnreadableRootsWithCwd host cwd)
    (covers : place.segments <+: path.segments)
    (apart : ∀ root ∈ allowedWritePaths host policy cwd, path.startsWith root = false) :
    ∃ op, (op ∈ (rootlessUnreadableRoots (policy.getUnreadableRootsWithCwd host cwd)
        (allowedWritePaths host policy cwd)).flatMap
          (unreadableRootArgs host · (allowedWritePaths host policy cwd)) ∨
      op ∈ (unreadableAncestorsOfWritableRoots (policy.getUnreadableRootsWithCwd host cwd)
        (allowedWritePaths host policy cwd)).flatMap
          (unreadableRootArgs host · (allowedWritePaths host policy cwd))) ∧ op.Covers path := by
  obtain ⟨op, inArgs, opCovers⟩ := @PlainTree.exists_mem_unreadableRootArgs_of_exists host path
    place (allowedWritePaths host policy cwd) plain (plain.exists_above present covers) covers
  have outside : ∀ root ∈ allowedWritePaths host policy cwd, place.startsWith root = false := by
    intro root allowed
    have far := apart root allowed
    rw [← Bool.not_eq_true, AbsolutePathBuf.startsWith_iff] at far ⊢
    exact fun above => far (above.trans covers)
  refine ⟨op, ?_, opCovers⟩
  by_cases related : ∃ root ∈ allowedWritePaths host policy cwd, root.startsWith place = true
  · right
    refine List.mem_flatMap.mpr
      ⟨place, mem_sortByKey.mpr (List.mem_filter.mpr ⟨masked, ?_⟩), inArgs⟩
    simpa [List.any_eq_true] using ⟨outside, related⟩
  · left
    refine List.mem_flatMap.mpr
      ⟨place, mem_sortByKey.mpr (List.mem_filter.mpr ⟨masked, ?_⟩), inArgs⟩
    have unrelated : ∀ root ∈ allowedWritePaths host policy cwd,
        place.startsWith root = false ∧ root.startsWith place = false := fun root allowed =>
      ⟨outside root allowed, Bool.eq_false_iff.mpr fun above => related ⟨root, allowed, above⟩⟩
    simpa [List.any_eq_true] using unrelated

/-- A denied path stays hidden when no later root brings it back. -/
theorem PlainTree.hidden_of_not_reexposed (plain : PlainTree host)
    (restricted : policy.kind = .restricted) (present : host.pathExists path = true)
    (decides : Decides (policy.resolvedEntriesWithCwd host cwd) path entry)
    (denied : entry.access = .none) (kept : ¬ Reexposed host policy cwd path)
    (found : Layers.top MountOp.target
      (filesystemArgs [] host policy cwd) path.segments = some op) : op.visibility = .hidden := by
  have masks : ∀ targets : List AbsolutePathBuf, Layers.top MountOp.target
      (targets.flatMap (unreadableRootArgs host · (allowedWritePaths host policy cwd)))
      path.segments = some op → op.visibility = .hidden := by
    intro targets isMask
    obtain ⟨member, covers⟩ := Layers.of_top_eq_some isMask
    obtain ⟨target, _, inArgs⟩ := List.mem_flatMap.mp member
    exact (plain.hidden_of_mask present inArgs covers).1
  simp only [top_filesystemArgs, Option.or_eq_some_iff] at found
  rcases found with rootless | ⟨noRootless, blocks | ⟨noBlocks, ancestors | ⟨noAncestors, base⟩⟩⟩
  · exact masks _ rootless
  · obtain ⟨before, writableRoot, after, sorted, inBlock, nothing⟩ := Layers.top_flatMap blocks
    have planned : ∀ other ∈ writableRoot :: after,
        other ∈ existingWritableRoots host policy cwd :=
      fun _ => existing_of_sorted sorted
    have own := planned writableRoot List.mem_cons_self
    cases inside : path.startsWith writableRoot.root with
    | true =>
        obtain ⟨mask, top, hidden⟩ :=
          plain.block_hides restricted present decides denied own inside
        obtain rfl : mask = op := Option.some.inj (top.symm.trans inBlock)
        exact hidden
    | false =>
        obtain ⟨_, reopened⟩ := plain.block_covers_outside restricted present own inside inBlock
        refine absurd ⟨before, writableRoot, after, sorted, ?_, reopened⟩ kept
        intro other member
        rcases List.mem_cons.mp member with rfl | later
        · exact inside
        · have unbound := nothing other later
          rw [top_writableRootArgs, Option.or_eq_none_iff] at unbound
          by_contra around
          simp [around] at unbound
  · exact masks _ ancestors
  · obtain ⟨member, covers⟩ := Layers.of_top_eq_some base
    by_cases atRoot : entry.path = AbsolutePathBuf.root
    · exact base_hides plain.toSymlinkFree restricted decides denied atRoot member covers
    · have masked :=
        denied_mem_unreadableRoots plain.toSymlinkFree restricted decides denied atRoot
      have apart : ∀ root ∈ allowedWritePaths host policy cwd, path.startsWith root = false := by
        intro root allowed
        obtain ⟨writableRoot, planned, rfl⟩ := mem_allowedWritePaths.mp allowed
        by_contra around
        have bound : MountOp.bind writableRoot.root ∈ (sortedWritableRoots host policy cwd).flatMap
            (writableRootArgs host (policy.getUnreadableRootsWithCwd host cwd)
              (allowedWritePaths host policy cwd)) :=
          List.mem_flatMap.mpr ⟨writableRoot, mem_sortedWritableRoots.mpr planned,
            List.mem_append_right _ List.mem_cons_self⟩
        rw [Bool.not_eq_false, AbsolutePathBuf.startsWith_iff] at around
        exact Layers.top_eq_none_iff.mp noBlocks _ bound ⟨_, rfl, around⟩
      obtain ⟨mask, rootless | ancestor, maskCovers⟩ :=
        plain.exists_mask present masked decides.covers apart
      · exact absurd maskCovers (Layers.top_eq_none_iff.mp noRootless mask rootless)
      · exact absurd maskCovers (Layers.top_eq_none_iff.mp noAncestors mask ancestor)

/-- A root that is bound later shows the denied path again. -/
theorem PlainTree.readOnly_of_reexposed (plain : PlainTree host)
    (restricted : policy.kind = .restricted) (present : host.pathExists path = true)
    (reexposed : Reexposed host policy cwd path) :
    ∃ op, Layers.top MountOp.target (filesystemArgs [] host policy cwd) path.segments = some op ∧
      op.visibility = .readOnly := by
  obtain ⟨before, writableRoot, after, sorted, outside, protectedPath, carved, covers, within⟩ :=
    reexposed
  have planned : ∀ other ∈ writableRoot :: after,
      other ∈ existingWritableRoots host policy cwd :=
    fun _ => existing_of_sorted sorted
  -- A denied path without a writable root around it does not lie on the way to this path.
  have noRootless : Layers.top MountOp.target ((rootlessUnreadableRoots
      (policy.getUnreadableRootsWithCwd host cwd) (allowedWritePaths host policy cwd)).flatMap
        (unreadableRootArgs host · (allowedWritePaths host policy cwd))) path.segments = none := by
    rw [Layers.top_eq_none_iff]
    intro op member opCovers
    obtain ⟨target, rootless, inArgs⟩ := List.mem_flatMap.mp member
    obtain ⟨_, above⟩ := plain.hidden_of_mask present inArgs opCovers
    obtain ⟨root, allowed, inRoot⟩ := isWithinAllowedWritePaths_iff.mp within
    have unrelated := (List.mem_filter.mp (mem_sortByKey.mp rootless)).2
    simp only [Bool.not_eq_true', List.any_eq_false, Bool.or_eq_true, not_or,
      AbsolutePathBuf.startsWith_iff] at unrelated
    have onTheWay := inRoot.trans (AbsolutePathBuf.startsWith_iff.mp covers)
    rcases List.prefix_or_prefix_of_prefix onTheWay above with rootAbove | targetAbove
    · exact (unrelated root allowed).1 rootAbove
    · exact (unrelated root allowed).2 targetAbove
  obtain ⟨bound, inBlock, boundCovers⟩ := plain.exists_mem_block restricted present
    (planned writableRoot List.mem_cons_self) carved covers within
  have inBlocks : bound ∈ (writableRoot :: after).flatMap
      (writableRootArgs host (policy.getUnreadableRootsWithCwd host cwd)
        (allowedWritePaths host policy cwd)) :=
    List.mem_flatMap.mpr ⟨writableRoot, List.mem_cons_self, inBlock⟩
  obtain ⟨op, found⟩ := Layers.exists_top inBlocks boundCovers
  obtain ⟨_, last, _, split, inLast, _⟩ := Layers.top_flatMap found
  have isLate : last ∈ writableRoot :: after := by
    rw [split]
    simp
  refine ⟨op, ?_, (plain.block_covers_outside restricted present (planned last isLate)
    (outside last isLate) inLast).1⟩
  simp only [top_filesystemArgs, noRootless, sorted, List.flatMap_append]
  rw [Layers.top_append_of_covers inBlocks boundCovers, found]
  simp

theorem exists_top_filesystemArgs :
    ∃ op, Layers.top MountOp.target (filesystemArgs [] host policy cwd) path.segments =
      some op := by
  have base : ∃ op ∈ baseArgs [] host policy cwd, op.Covers path := by
    simp only [baseArgs]
    split
    · exact ⟨_, List.mem_cons_self, _, rfl, List.nil_prefix⟩
    · split
      all_goals exact ⟨_, List.mem_cons_self, _, rfl, List.nil_prefix⟩
  obtain ⟨op, member, covers⟩ := base
  refine Layers.exists_top ?_ covers
  simp [filesystemArgs, member]

/-- Without the platform defaults, an existing path that a denying entry decides is hidden exactly
when no root that is bound after all the roots around it protects metadata above it. -/
theorem mountPlan_hides_denied_iff (plain : PlainTree host) (restricted : policy.kind = .restricted)
    (present : host.pathExists path = true)
    (decides : Decides (policy.resolvedEntriesWithCwd host cwd) path entry)
    (denied : entry.access = .none) :
    visibility (filesystemArgs [] host policy cwd) path = some .hidden ↔
      ¬ Reexposed host policy cwd path := by
  constructor
  · intro hidden reexposed
    obtain ⟨op, found, readOnly⟩ := plain.readOnly_of_reexposed restricted present reexposed
    rw [visibility, found, Option.map_some, readOnly] at hidden
    cases hidden
  · intro kept
    obtain ⟨op, found⟩ := @exists_top_filesystemArgs host policy cwd path
    rw [visibility, found, Option.map_some,
      plain.hidden_of_not_reexposed restricted present decides denied kept found]

end Denied

theorem mountPlan_hides_denied_iff_small :
    visibility (filesystemArgs [] (treeHost smallTree []) deniedInsidePolicy ['/'])
        innerPath = some .hidden ↔
      ¬ Reexposed (treeHost smallTree []) deniedInsidePolicy ['/'] innerPath :=
  @mountPlan_hides_denied_iff (treeHost smallTree []) deniedInsidePolicy ['/']
    innerPath ⟨innerPath, .none⟩
    (plainTree_treeHost (by decide)) rfl (by decide)
    ⟨by decide, by decide, by decide, by decide⟩ rfl

/-- The directory `/a/.git/s`. -/
def secretPath : AbsolutePathBuf := ⟨[['a'], dotGit, ['s']], by decide⟩

/-- A work tree `/b` whose `.git` points into the other writable root `/a`. -/
def pointerHost : Host :=
  treeHost
    [AbsolutePathBuf.root, outerPath, ⟨[['a'], dotGit], by decide⟩, secretPath,
      ⟨[['b']], by decide⟩]
    [(⟨[['b'], dotGit], by decide⟩, "gitdir: /a/.git".toList)]

/-- Two writable roots, with a denied directory inside the git directory of the first. -/
def pointerPolicy : FileSystemSandboxPolicy where
  kind := .restricted
  entries :=
    [⟨.path outerPath, .write⟩, ⟨.path ⟨[['b']], by decide⟩, .write⟩, ⟨.path secretPath, .none⟩]

/-- Binding `/b` makes `/a/.git` readable after `/a/.git/s` was hidden. -/
theorem mountPlan_shows_denied_pointer :
    ¬ ∀ (host : Host) (policy : FileSystemSandboxPolicy) (cwd : PathBuf) (path : AbsolutePathBuf)
        (entry : ResolvedFileSystemEntry), PlainTree host → policy.kind = .restricted →
      PathBuf.isAbsolute cwd = true → host.pathExists path = true →
      Decides (policy.resolvedEntriesWithCwd host cwd) path entry → entry.access = .none →
        visibility (filesystemArgs [] host policy cwd) path = some .hidden := by
  intro hides
  have hidden := hides pointerHost pointerPolicy ['/'] secretPath ⟨secretPath, .none⟩
    (plainTree_treeHost (by decide)) rfl rfl
    (by decide) ⟨by decide, by decide, by decide, by decide⟩ rfl
  exact absurd hidden (by decide)

end CodexPilot.Sandbox
