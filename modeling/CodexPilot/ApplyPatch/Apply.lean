import CodexPilot.ApplyPatch.Replace
import CodexPilot.Library.Journal

/-!
# Application of hunks

The hunks of a patch are applied one after the other; the first failure ends the run and leaves what
was written before it.  The file system is a map from paths to contents, and any call may fail: the
host decides with the world it is made in.
-/

namespace CodexPilot.ApplyPatch

open RustStd

/-- The contents of the files, by their paths. -/
abbrev Files := Path → Option Text

/-- The file system and what was done to it. -/
structure World where
  /-- The files as they are. -/
  files : Files
  /-- The writes and removals so far, a removal without contents. -/
  journal : List (Path × Option Text)

namespace World

/-- The world before a run. -/
def initial (files : Files) : World := ⟨files, []⟩

/-- Carry out writes and removals. -/
def perform (world : World) (writes : List (Path × Option Text)) : World where
  files := Journal.replay world.files writes
  journal := world.journal ++ writes

/-- The paths written or removed. -/
def touched (world : World) : List Path := world.journal.map Prod.fst

@[simp]
theorem touched_perform (world : World) (writes : List (Path × Option Text)) :
    (world.perform writes).touched = world.touched ++ writes.map Prod.fst := by
  simp [touched, perform]

theorem perform_append (world : World) (left right : List (Path × Option Text)) :
    world.perform (left ++ right) = (world.perform left).perform right := by
  simp [perform, Journal.replay_append]

end World

/-- A call into the file system that may change it or fail. -/
inductive IoCall where
  | readToString (path : Path)
  | createDirAll (path : Path)
  | write (path : Path) (contents : Text)
  | removeFile (path : Path)

/-- A failure that the host decides on. -/
structure Fault where
  /-- Message of the operating system. -/
  source : Text
  /-- What a failed write left in the file, when it had opened it. -/
  leftover : Option Text

/-- The calls that fail. -/
abbrev Faults := World → IoCall → Option Fault

/-- A host on which nothing fails but what the files do not allow. -/
def Faults.never : Faults := fun _ _ => none

/-- Message of the operating system about a missing file. -/
def notFoundMessage : Text := "No such file or directory (os error 2)".toList

/-- An error of the application of hunks. -/
inductive ApplyError where
  | message (text : Text)
  | io (context : Text) (source : Text)
  | patch (error : ApplyPatchError)

/-- The files a run has affected, as the hunks name them. -/
structure AffectedPaths where
  added : List PathBuf
  modified : List PathBuf
  deleted : List PathBuf

/-- Nothing was added, modified or deleted yet. -/
def AffectedPaths.empty : AffectedPaths := ⟨[], [], []⟩

section Calls

variable (faults : Faults)

/-- `std::fs::create_dir_all`; directories are not part of the files. -/
def createDirAll (context : Text) (path : Path) : EStateM ApplyError World Unit := fun world =>
  match faults world (.createDirAll path) with
  | some fault => .error (.io context fault.source) world
  | none => .ok () world

/-- The writes that a failed write has carried out. -/
def Fault.writes (fault : Fault) (path : Path) : List (Path × Option Text) :=
  match fault.leftover with
  | some contents => [(path, some contents)]
  | none => []

/-- `std::fs::write`. -/
def write (context : Text) (path : Path) (contents : Text) : EStateM ApplyError World Unit :=
  fun world =>
    match faults world (.write path contents) with
    | some fault => .error (.io context fault.source) (world.perform (fault.writes path))
    | none => .ok () (world.perform [(path, some contents)])

/-- `std::fs::remove_file`. -/
def removeFile (context : Text) (path : Path) : EStateM ApplyError World Unit := fun world =>
  match faults world (.removeFile path) with
  | some fault => .error (.io context fault.source) world
  | none =>
      if (world.files path).isSome then .ok () (world.perform [(path, none)])
      else .error (.io context notFoundMessage) world

/-- `std::fs::read_to_string` without faults of the host. -/
def readToString (files : Files) (path : Path) : Except Text Text :=
  match files path with
  | some contents => .ok contents
  | none => .error notFoundMessage

/-- An error of reading the file that an update names. -/
def readUpdateError (path : PathBuf) (source : Text) : ApplyPatchError :=
  .ioError ⟨"Failed to read file to update ".toList ++ path, source⟩

/-- The contents of a file before and after its update. -/
structure AppliedPatch where
  originalContents : Text
  newContents : Text

/-- The new contents of the file `path`, which is named by the text `name`. -/
def deriveNewContentsFromChunks (files : Files) (path : Path) (name : PathBuf)
    (chunks : List UpdateFileChunk) : Except ApplyPatchError AppliedPatch :=
  match readToString files path with
  | .ok originalContents => do
      let newContents ← patchContents originalContents name chunks
      .ok { originalContents, newContents }
  | .error source => .error (readUpdateError name source)

/-- `deriveNewContentsFromChunks` on a host where the reading may fail. -/
def deriveNewContents (path : Path) (name : PathBuf) (chunks : List UpdateFileChunk) :
    EStateM ApplyError World Text := fun world =>
  match faults world (.readToString path) with
  | some fault => .error (.patch (readUpdateError name fault.source)) world
  | none =>
      match deriveNewContentsFromChunks world.files path name chunks with
      | .ok applied => .ok applied.newContents world
      | .error error => .error (.patch error) world

end Calls

/-! ## Hunks -/

/-- The file that a path of a patch means, as `Hunk::resolve_path` and the working directory of the
process have it. -/
def resolve (cwd path : PathBuf) : Path := PathBuf.components (PathBuf.join cwd path)

/-- The directory that has to exist before `path` is written. -/
def parentToCreate (path : PathBuf) : Option Path :=
  (Path.parent (PathBuf.components path)).filter (· ≠ [])

/-- What is reported to have failed. -/
def parentContext (path : PathBuf) : Text :=
  "Failed to create parent directories for ".toList ++ path

def writeContext (path : PathBuf) : Text := "Failed to write file ".toList ++ path

def deleteContext (path : PathBuf) : Text := "Failed to delete file ".toList ++ path

def removeContext (path : PathBuf) : Text := "Failed to remove original ".toList ++ path

section Hunks

variable (faults : Faults) (cwd : PathBuf)

/-- Create the parent directory of a path, when it names one. -/
def createParent (path : PathBuf) : EStateM ApplyError World Unit :=
  match parentToCreate path with
  | some parent => createDirAll faults (parentContext path) parent
  | none => pure ()

/-- Write the file that a path of a patch names. -/
def writeNamed (path : PathBuf) (contents : Text) : EStateM ApplyError World Unit :=
  write faults (writeContext path) (resolve cwd path) contents

/-- Apply one hunk. -/
def applyHunk (affected : AffectedPaths) : Hunk → EStateM ApplyError World AffectedPaths
  | .addFile path contents => do
      createParent faults path
      writeNamed faults cwd path contents
      pure { affected with added := affected.added ++ [path] }
  | .deleteFile path => do
      removeFile faults (deleteContext path) (resolve cwd path)
      pure { affected with deleted := affected.deleted ++ [path] }
  | .updateFile path (some dest) chunks => do
      let newContents ← deriveNewContents faults (resolve cwd path) path chunks
      createParent faults dest
      writeNamed faults cwd dest newContents
      removeFile faults (removeContext path) (resolve cwd path)
      pure { affected with modified := affected.modified ++ [dest] }
  | .updateFile path none chunks => do
      let newContents ← deriveNewContents faults (resolve cwd path) path chunks
      writeNamed faults cwd path newContents
      pure { affected with modified := affected.modified ++ [path] }

/-- Apply the hunks in order. -/
def applyHunks (hunks : List Hunk) (affected : AffectedPaths) :
    EStateM ApplyError World AffectedPaths :=
  hunks.foldlM (applyHunk faults cwd) affected

/-- Apply the hunks of a patch from the working directory `cwd`. -/
def applyHunksToFiles (hunks : List Hunk) : EStateM ApplyError World AffectedPaths :=
  if hunks.isEmpty then throw (.message "No files were modified.".toList)
  else applyHunks faults cwd hunks .empty

end Hunks

/-! ## What a call can do -/

section Cases

variable {faults : Faults} {cwd : PathBuf} {world : World} {context : Text} {path : Path}
  {name : PathBuf} {contents : Text} {chunks : List UpdateFileChunk}

/-- The directory above a path can be made. -/
def ParentCreatable (faults : Faults) (world : World) (name : PathBuf) : Prop :=
  ∀ parent, parentToCreate name = some parent → faults world (.createDirAll parent) = none

/-- A write opens its file, whether it succeeds or not. -/
def Opens (faults : Faults) (world : World) (path : Path) (contents : Text) : Prop :=
  ∀ fault, faults world (.write path contents) = some fault → fault.leftover.isSome = true

theorem createParent_of_creatable (creatable : ParentCreatable faults world name) :
    createParent faults name world = .ok () world := by
  unfold createParent
  cases parent : parentToCreate name with
  | none => rfl
  | some parent => simp [createDirAll, creatable _ parent]

theorem createParent_of_not_creatable (blocked : ¬ ParentCreatable faults world name) :
    ∃ error, createParent faults name world = .error error world := by
  simp only [ParentCreatable, not_forall] at blocked
  obtain ⟨parent, isParent, fails⟩ := blocked
  obtain ⟨fault, isFault⟩ := Option.ne_none_iff_exists'.mp fails
  exact ⟨_, by simp only [createParent, isParent, createDirAll, isFault]; rfl⟩

/-- A write either opens its file and journals it, or leaves the world as it is. -/
theorem write_cases :
    (write faults context path contents world = .ok () (world.perform [(path, some contents)]) ∧
        Opens faults world path contents) ∨
      (∃ error left, write faults context path contents world =
          .error error (world.perform [(path, some left)]) ∧ Opens faults world path contents) ∨
      ∃ error, write faults context path contents world = .error error world ∧
        ¬ Opens faults world path contents := by
  cases outcome : faults world (.write path contents) with
  | none => exact .inl ⟨by simp [write, outcome], by simp [Opens, outcome]⟩
  | some fault =>
      cases left : fault.leftover with
      | some left' =>
          refine .inr (.inl ⟨.io context fault.source, left', ?_, ?_⟩)
          · simp [write, outcome, Fault.writes, left]
          · simp [Opens, outcome, left]
      | none =>
          refine .inr (.inr ⟨.io context fault.source, ?_, ?_⟩)
          · simp [write, outcome, Fault.writes, left, World.perform, Journal.replay]
          · simp [Opens, outcome, left]

theorem removeFile_cases :
    removeFile faults context path world = .ok () (world.perform [(path, none)]) ∨
      ∃ error, removeFile faults context path world = .error error world := by
  unfold removeFile
  cases faults world (.removeFile path) with
  | some fault => exact .inr ⟨_, rfl⟩
  | none =>
      dsimp only
      split
      · exact .inl rfl
      · exact .inr ⟨_, rfl⟩

theorem deriveNewContents_cases :
    (∃ newContents, deriveNewContents faults path name chunks world = .ok newContents world) ∨
      ∃ error, deriveNewContents faults path name chunks world = .error error world := by
  unfold deriveNewContents
  cases faults world (.readToString path) with
  | some fault => exact .inr ⟨_, rfl⟩
  | none =>
      dsimp only
      cases deriveNewContentsFromChunks world.files path name chunks with
      | ok applied => exact .inl ⟨_, rfl⟩
      | error error => exact .inr ⟨_, rfl⟩

end Cases

end CodexPilot.ApplyPatch
