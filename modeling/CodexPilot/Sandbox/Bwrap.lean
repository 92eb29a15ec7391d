import CodexPilot.Sandbox.WritableRoots

/-!
# The bubblewrap mount plan

The file system part of a bubblewrap command line, as the list of operations it asks for in order: a
base view, masks over denied ancestors, one block for each writable root from the shallowest to the
deepest, and masks over the remaining denied paths.
-/

namespace CodexPilot.Sandbox

open RustStd

/-- One operation of the command line. -/
inductive MountOp where
  /-- `--bind path path`. -/
  | bind (path : AbsolutePathBuf)
  /-- `--ro-bind source target`. -/
  | roBind (source target : AbsolutePathBuf)
  /-- `--ro-bind-data fd target`, with the descriptor of an empty file. -/
  | roBindData (target : AbsolutePathBuf)
  /-- `--tmpfs target`. -/
  | tmpfs (target : AbsolutePathBuf)
  /-- `--dev target`. -/
  | dev (target : AbsolutePathBuf)
  /-- `--perms mode`, for the next operation. -/
  | perms (mode : Text)
  /-- `--dir path`. -/
  | dir (path : AbsolutePathBuf)
  /-- `--remount-ro target`. -/
  | remountRo (target : AbsolutePathBuf)

/-- The arguments of an operation; `nullFd` is the descriptor of `/dev/null`. -/
def MountOp.args (nullFd : Text) : MountOp → List Text
  | .bind path => ["--bind".toList, path.asPath, path.asPath]
  | .roBind source target => ["--ro-bind".toList, source.asPath, target.asPath]
  | .roBindData target => ["--ro-bind-data".toList, nullFd, target.asPath]
  | .tmpfs target => ["--tmpfs".toList, target.asPath]
  | .dev target => ["--dev".toList, target.asPath]
  | .perms mode => ["--perms".toList, mode]
  | .dir path => ["--dir".toList, path.asPath]
  | .remountRo target => ["--remount-ro".toList, target.asPath]

def devPath : AbsolutePathBuf := ⟨["dev".toList], by decide⟩
def devNullPath : AbsolutePathBuf := ⟨["dev".toList, "null".toList], by decide⟩

/-- System paths that stay readable when a policy asks for the platform defaults. -/
def linuxPlatformDefaultReadRoots : List AbsolutePathBuf :=
  [⟨["bin".toList], by decide⟩, ⟨["sbin".toList], by decide⟩, ⟨["usr".toList], by decide⟩,
    ⟨["etc".toList], by decide⟩, ⟨["lib".toList], by decide⟩, ⟨["lib64".toList], by decide⟩,
    ⟨["nix".toList, "store".toList], by decide⟩,
    ⟨["run".toList, "current-system".toList, "sw".toList], by decide⟩]

def pathDepth (path : AbsolutePathBuf) : ℕ := path.componentsCount

/-! ## Masks -/

def isWithinAllowedWritePaths (path : AbsolutePathBuf) (allowedWritePaths : List AbsolutePathBuf) :
    Bool :=
  allowedWritePaths.any fun root => path.startsWith root

/-- The paths below the root that lead to a path, the path included. -/
def pathsTo (path : AbsolutePathBuf) : List AbsolutePathBuf :=
  (List.range path.segments.length).map fun count => path.take (count + 1)

/-- The first symbolic link on the way to a path that lies under a writable root. -/
def findSymlinkInPath (host : Host) (targetPath : AbsolutePathBuf)
    (allowedWritePaths : List AbsolutePathBuf) : Option AbsolutePathBuf :=
  -- The walk ends at the first path without metadata.
  ((pathsTo targetPath).takeWhile fun current =>
    host.isSymlink current || host.pathExists current).find? fun current =>
      host.isSymlink current && isWithinAllowedWritePaths current allowedWritePaths

def findFirstNonExistentComponent (host : Host) (targetPath : AbsolutePathBuf) :
    Option AbsolutePathBuf :=
  (pathsTo targetPath).find? fun current => !host.pathExists current

/-- Recreate the directories between an anchor and a mount target. -/
def mountTargetParentDirArgs (host : Host) (mountTarget anchor : AbsolutePathBuf) : List MountOp :=
  let mountTargetDir := if host.isDir mountTarget then some mountTarget else mountTarget.parent
  match mountTargetDir with
  | none => []
  | some mountTargetDir =>
      ((mountTargetDir.ancestors.takeWhile fun path => path != anchor).reverse).map .dir

/-- Put `/dev/null` on the first missing component of a path under a writable root. -/
def missingComponentArgs (host : Host) (path : AbsolutePathBuf)
    (allowedWritePaths : List AbsolutePathBuf) : List MountOp :=
  match findFirstNonExistentComponent host path with
  | some firstMissingComponent =>
      if isWithinAllowedWritePaths firstMissingComponent allowedWritePaths then
        [.roBind devNullPath firstMissingComponent]
      else []
  | none => []

/-- Make a carve-out of a writable root read-only. -/
def readOnlySubpathArgs (host : Host) (subpath : AbsolutePathBuf)
    (allowedWritePaths : List AbsolutePathBuf) : List MountOp :=
  match findSymlinkInPath host subpath allowedWritePaths with
  | some symlinkPath => [.roBind devNullPath symlinkPath]
  | none =>
      if !host.pathExists subpath then missingComponentArgs host subpath allowedWritePaths
      else if isWithinAllowedWritePaths subpath allowedWritePaths then [.roBind subpath subpath]
      else []

/-- Hide a denied path. -/
def unreadableRootArgs (host : Host) (unreadableRoot : AbsolutePathBuf)
    (allowedWritePaths : List AbsolutePathBuf) : List MountOp :=
  match findSymlinkInPath host unreadableRoot allowedWritePaths with
  | some symlinkPath => [.roBind devNullPath symlinkPath]
  | none =>
      if !host.pathExists unreadableRoot then
        missingComponentArgs host unreadableRoot allowedWritePaths
      else if host.isDir unreadableRoot then
        let writableDescendants := allowedWritePaths.filter fun path =>
          path != unreadableRoot && path.startsWith unreadableRoot
        -- Execute-only permissions let the process through to reopened descendants.
        [.perms (if writableDescendants.isEmpty then "000".toList else "111".toList),
          .tmpfs unreadableRoot] ++
          (sortByKey pathDepth writableDescendants).flatMap
            (mountTargetParentDirArgs host · unreadableRoot) ++
          [.remountRo unreadableRoot]
      else [.perms "000".toList, .roBindData unreadableRoot]

/-! ## The plan -/

/-- The writable roots that exist, with their carve-outs. -/
def existingWritableRoots (host : Host) (policy : FileSystemSandboxPolicy) (cwd : PathBuf) :
    List WritableRoot :=
  (policy.getWritableRootsWithCwd host cwd).filter fun writableRoot =>
    host.pathExists writableRoot.root

/-- The paths of the existing writable roots. -/
def allowedWritePaths (host : Host) (policy : FileSystemSandboxPolicy) (cwd : PathBuf) :
    List AbsolutePathBuf :=
  (existingWritableRoots host policy cwd).map (·.root)

/-- The existing writable roots in the order in which they are bound. -/
def sortedWritableRoots (host : Host) (policy : FileSystemSandboxPolicy) (cwd : PathBuf) :
    List WritableRoot :=
  sortByKey (fun writableRoot => pathDepth writableRoot.root)
    (existingWritableRoots host policy cwd)

/-- The readable roots of a policy without full read access, in the order of their names. -/
def scopedReadableRoots (platformDefaultReadRoots : List AbsolutePathBuf) (host : Host)
    (policy : FileSystemSandboxPolicy) (cwd : PathBuf) : List AbsolutePathBuf :=
  let platformDefaults :=
    if policy.includePlatformDefaults then
      platformDefaultReadRoots.filter fun path => host.pathExists path
    else []
  sortByKey (·.segments) (policy.getReadableRootsWithCwd host cwd ++ platformDefaults).eraseDups

/-- The view before any mask or writable root. -/
def baseArgs (platformDefaultReadRoots : List AbsolutePathBuf) (host : Host)
    (policy : FileSystemSandboxPolicy) (cwd : PathBuf) : List MountOp :=
  let readOnlyDisk : List MountOp :=
    [.roBind AbsolutePathBuf.root AbsolutePathBuf.root, .dev devPath]
  if policy.hasFullDiskReadAccess then readOnlyDisk
  else
    let readableRoots := scopedReadableRoots platformDefaultReadRoots host policy cwd
    if readableRoots.any fun root => root == AbsolutePathBuf.root then readOnlyDisk
    else
      [.tmpfs AbsolutePathBuf.root, .dev devPath] ++
        (readableRoots.filter fun root => host.pathExists root).map fun root => .roBind root root

/-- The denied paths above some writable root and below none. -/
def unreadableAncestorsOfWritableRoots (unreadableRoots allowedWritePaths : List AbsolutePathBuf) :
    List AbsolutePathBuf :=
  sortByKey pathDepth (unreadableRoots.filter fun unreadableRoot =>
    !(allowedWritePaths.any fun root => unreadableRoot.startsWith root) &&
      allowedWritePaths.any fun root => root.startsWith unreadableRoot)

/-- The denied paths that are related to no writable root. -/
def rootlessUnreadableRoots (unreadableRoots allowedWritePaths : List AbsolutePathBuf) :
    List AbsolutePathBuf :=
  sortByKey pathDepth (unreadableRoots.filter fun unreadableRoot =>
    !allowedWritePaths.any fun root =>
      unreadableRoot.startsWith root || root.startsWith unreadableRoot)

/-- The directories that a denied ancestor took away from above a writable root. -/
def maskedParentArgs (host : Host) (unreadableRoots : List AbsolutePathBuf)
    (root : AbsolutePathBuf) : List MountOp :=
  match maxByKey pathDepth (unreadableRoots.filter fun unreadableRoot =>
      root.startsWith unreadableRoot) with
  | some maskingRoot => mountTargetParentDirArgs host root maskingRoot
  | none => []

/-- What protects parts of a writable root again, after it was bound. -/
def writableRootMasks (host : Host) (unreadableRoots allowedWritePaths : List AbsolutePathBuf)
    (writableRoot : WritableRoot) : List MountOp :=
  (sortByKey pathDepth (writableRoot.readOnlySubpaths.filter fun path =>
      !unreadableRoots.contains path)).flatMap
        (readOnlySubpathArgs host · allowedWritePaths) ++
    (sortByKey pathDepth (unreadableRoots.filter fun path =>
      path.startsWith writableRoot.root)).flatMap (unreadableRootArgs host · allowedWritePaths)

/-- The block of one writable root. -/
def writableRootArgs (host : Host) (unreadableRoots allowedWritePaths : List AbsolutePathBuf)
    (writableRoot : WritableRoot) : List MountOp :=
  maskedParentArgs host unreadableRoots writableRoot.root ++
    .bind writableRoot.root ::
      writableRootMasks host unreadableRoots allowedWritePaths writableRoot

/-- The plan for a given list of platform defaults. -/
def filesystemArgs (platformDefaultReadRoots : List AbsolutePathBuf) (host : Host)
    (policy : FileSystemSandboxPolicy) (cwd : PathBuf) : List MountOp :=
  let unreadableRoots := policy.getUnreadableRootsWithCwd host cwd
  let allowedWritePaths := allowedWritePaths host policy cwd
  baseArgs platformDefaultReadRoots host policy cwd ++
    (unreadableAncestorsOfWritableRoots unreadableRoots allowedWritePaths).flatMap
      (unreadableRootArgs host · allowedWritePaths) ++
    (sortedWritableRoots host policy cwd).flatMap
      (writableRootArgs host unreadableRoots allowedWritePaths) ++
    (rootlessUnreadableRoots unreadableRoots allowedWritePaths).flatMap
      (unreadableRootArgs host · allowedWritePaths)

/-- `create_filesystem_args`. -/
def createFilesystemArgs (host : Host) (policy : FileSystemSandboxPolicy) (cwd : PathBuf) :
    List MountOp :=
  filesystemArgs linuxPlatformDefaultReadRoots host policy cwd

/-! ## What the sandbox sees -/

/-- Where an operation mounts something. -/
def MountOp.target : MountOp → Option (List Text)
  | .bind path => some path.segments
  | .roBind _ target | .roBindData target | .tmpfs target | .dev target => some target.segments
  | .perms _ | .dir _ | .remountRo _ => none

/-- What a mount makes of the host path below it. -/
inductive Visibility where
  | readWrite
  | readOnly
  | hidden
  deriving DecidableEq

/-- `--dev` mounts a fresh device tree, so that it hides the host path as `--tmpfs` does. -/
def MountOp.visibility : MountOp → Visibility
  | .bind _ => .readWrite
  | .roBind _ _ => .readOnly
  | _ => .hidden

/-- The last mount that covers a path decides it. -/
def visibility (ops : List MountOp) (path : AbsolutePathBuf) : Option Visibility :=
  (Layers.top MountOp.target ops path.segments).map MountOp.visibility

end CodexPilot.Sandbox
