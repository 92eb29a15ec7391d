import CodexPilot.ApplyPatch.Invocation

/-!
# Updates that move a file

A move writes the new contents to its destination and removes the source.  The two may be one file
under two spellings: with a `.` or a `..`, through a symbolic link, or the same path twice.  Which
file a path names is for the host to say; hard links are left out.
-/

namespace CodexPilot.ApplyPatch

open RustStd Journal

/-- What the paths of a patch name on a host: the file that a read or a write opens, symbolic links
followed, and the entry that a removal takes away, which may be a link itself. -/
structure Names where
  opened : PathBuf → Path
  unlinked : PathBuf → Path

/-- Without symbolic links and `..`, paths from a working directory name what they spell. -/
def Names.lexical (cwd : PathBuf) : Names where
  opened := resolve cwd
  unlinked := resolve cwd

section Hunks

variable (faults : Faults) (names : Names)

/-- `applyHunk` on a host with its own names. -/
def applyHunkNamed (affected : AffectedPaths) : Hunk → EStateM ApplyError World AffectedPaths
  | .addFile path contents => do
      createParent faults path
      write faults (writeContext path) (names.opened path) contents
      pure { affected with added := affected.added ++ [path] }
  | .deleteFile path => do
      removeFile faults (deleteContext path) (names.unlinked path)
      pure { affected with deleted := affected.deleted ++ [path] }
  | .updateFile path (some dest) chunks => do
      let newContents ← deriveNewContents faults (names.opened path) path chunks
      createParent faults dest
      write faults (writeContext dest) (names.opened dest) newContents
      removeFile faults (removeContext path) (names.unlinked path)
      pure { affected with modified := affected.modified ++ [dest] }
  | .updateFile path none chunks => do
      let newContents ← deriveNewContents faults (names.opened path) path chunks
      write faults (writeContext path) (names.opened path) newContents
      pure { affected with modified := affected.modified ++ [path] }

/-- `applyHunksToFiles` on a host with its own names. -/
def applyHunksToFilesNamed (hunks : List Hunk) : EStateM ApplyError World AffectedPaths :=
  if hunks.isEmpty then throw (.message "No files were modified.".toList)
  else hunks.foldlM (applyHunkNamed faults names) .empty

end Hunks

theorem applyHunkNamed_lexical (faults : Faults) (cwd : PathBuf) :
    applyHunkNamed faults (.lexical cwd) = applyHunk faults cwd := by
  funext affected hunk
  obtain ⟨path, contents⟩ | path | ⟨path, _ | dest, chunks⟩ := hunk <;> rfl

theorem applyHunksToFilesNamed_lexical (faults : Faults) (cwd : PathBuf) (hunks : List Hunk) :
    applyHunksToFilesNamed faults (.lexical cwd) hunks = applyHunksToFiles faults cwd hunks := by
  rw [applyHunksToFilesNamed, applyHunkNamed_lexical]
  rfl

/-! ## Calls that succeed -/

section Calls

variable {faults : Faults} {world middle : World} {context : Text} {file : Path} {name : PathBuf}
  {contents : Text} {chunks : List UpdateFileChunk}

theorem exists_of_derive
    (derived : deriveNewContents faults file name chunks world = .ok contents middle) :
    middle = world ∧ ∃ applied,
      deriveNewContentsFromChunks world.files file name chunks = .ok applied ∧
        applied.newContents = contents := by
  rw [deriveNewContents] at derived
  cases fails : faults world (.readToString file) with
  | some fault =>
      rw [fails] at derived
      cases derived
  | none =>
      rw [fails] at derived
      dsimp only at derived
      cases outcome : deriveNewContentsFromChunks world.files file name chunks with
      | error error =>
          rw [outcome] at derived
          cases derived
      | ok applied =>
          rw [outcome] at derived
          cases derived
          exact ⟨rfl, applied, rfl, rfl⟩

theorem world_of_createParent (created : createParent faults name world = .ok () middle) :
    middle = world := by
  by_cases creatable : ParentCreatable faults world name
  · cases (createParent_of_creatable creatable).symm.trans created
    rfl
  · obtain ⟨error, failed⟩ := createParent_of_not_creatable creatable
    cases failed.symm.trans created

theorem world_of_write (written : write faults context file contents world = .ok () middle) :
    middle = world.perform [(file, some contents)] := by
  obtain ⟨done, -⟩ | ⟨error, left, failed, -⟩ | ⟨error, failed, -⟩ :=
    @write_cases faults world context file contents
  · cases done.symm.trans written
    rfl
  all_goals cases failed.symm.trans written

theorem world_of_removeFile (removed : removeFile faults context file world = .ok () middle) :
    middle = world.perform [(file, none)] := by
  obtain done | ⟨error, failed⟩ := @removeFile_cases faults world context file
  · cases done.symm.trans removed
    rfl
  · cases failed.symm.trans removed

end Calls

/-! ## The move -/

section Moves

variable {faults : Faults} {names : Names} {files after : Files} {path dest : PathBuf}
  {chunks : List UpdateFileChunk} {affected : AffectedPaths} {world : World}

/-- A file was moved with its new contents, and nothing else happened. -/
structure Moved (names : Names) (files : Files) (path dest : PathBuf)
    (chunks : List UpdateFileChunk) (after : Files) : Prop where
  arrived : ∃ applied,
    deriveNewContentsFromChunks files (names.opened path) path chunks = .ok applied ∧
      after (names.opened dest) = some applied.newContents
  gone : names.unlinked path ≠ names.opened dest → after (names.unlinked path) = none
  others : ∀ file, file ≠ names.opened dest → file ≠ names.unlinked path → after file = files file

/-- What a move does when it succeeds: a write, and then a removal. -/
theorem exists_of_move
    (ran : applyHunksToFilesNamed faults names [.updateFile path (some dest) chunks]
      (World.initial files) = .ok affected world) :
    ∃ applied,
      deriveNewContentsFromChunks files (names.opened path) path chunks = .ok applied ∧
      world.files = replay files
        [(names.opened dest, some applied.newContents), (names.unlinked path, none)] := by
  obtain ⟨moved, last, single, done⟩ := exists_of_bind_ok ran
  cases done
  obtain ⟨contents, middle, derived, single⟩ := exists_of_bind_ok single
  obtain ⟨rfl, applied, same, rfl⟩ := exists_of_derive derived
  obtain ⟨_, middle, created, single⟩ := exists_of_bind_ok single
  cases world_of_createParent created
  obtain ⟨_, middle, written, single⟩ := exists_of_bind_ok single
  cases world_of_write written
  obtain ⟨_, middle, removed, single⟩ := exists_of_bind_ok single
  cases world_of_removeFile removed
  cases single
  exact ⟨applied, same, rfl⟩

/-- A move that succeeds keeps the file exactly when the entry that it removes is not the file that
it has written. -/
theorem moved_iff
    (ran : applyHunksToFilesNamed faults names [.updateFile path (some dest) chunks]
      (World.initial files) = .ok affected world) :
    Moved names files path dest chunks world.files ↔
      names.opened dest ≠ names.unlinked path := by
  obtain ⟨applied, derived, same⟩ := exists_of_move ran
  rw [same, replay_cons, replay_cons]
  constructor
  · rintro ⟨⟨_, -, arrived⟩, -, -⟩ aliased
    rw [aliased] at arrived
    rw [replay, List.foldl_nil, Function.update_self] at arrived
    cases arrived
  · intro apart
    refine ⟨⟨applied, derived, ?_⟩, fun _ => ?_, fun file notDest notSource => ?_⟩
    · rw [replay, List.foldl_nil, Function.update_of_ne apart, Function.update_self]
    · rw [replay, List.foldl_nil, Function.update_self]
    · rw [replay, List.foldl_nil, Function.update_of_ne notSource, Function.update_of_ne notDest]

/-- One line of a file is replaced. -/
def oneLine : List UpdateFileChunk := [⟨none, [['a']], [['b']], false⟩]

/-- There is one file with that line. -/
def lineFile : Files := fun file =>
  if file = resolve "/w".toList ['f'] then some ['a', '\n'] else none

/-- What is left when the file is written and then removed. -/
def emptied : World :=
  (World.initial lineFile).perform
    [(resolve "/w".toList ['f'], some ['b', '\n']), (resolve "/w".toList ['f'], none)]

/-- A file that is moved onto itself is gone, and the move is reported as done. -/
theorem not_moved_onto_itself :
    applyHunksToFiles .never "/w".toList [.updateFile ['f'] (some "./f".toList) oneLine]
        (World.initial lineFile) = .ok ⟨[], ["./f".toList], []⟩ emptied ∧
      emptied.files (resolve "/w".toList ['f']) = none ∧
      ¬Moved (.lexical "/w".toList) lineFile ['f'] "./f".toList oneLine emptied.files := by
  have gone : emptied.files (resolve "/w".toList ['f']) = none := by decide
  refine ⟨by rfl, gone, fun moved => ?_⟩
  obtain ⟨applied, -, arrived⟩ := moved.arrived
  have same : (Names.lexical "/w".toList).opened "./f".toList = resolve "/w".toList ['f'] := by
    decide
  rw [same, gone] at arrived
  cases arrived

theorem moved_iff_onto_itself :
    Moved (.lexical "/w".toList) lineFile ['f'] "./f".toList oneLine emptied.files ↔
      (Names.lexical "/w".toList).opened "./f".toList ≠
        (Names.lexical "/w".toList).unlinked ['f'] :=
  @moved_iff .never (.lexical "/w".toList) lineFile ['f'] "./f".toList oneLine
    ⟨[], ["./f".toList], []⟩ emptied (by rfl)

end Moves

end CodexPilot.ApplyPatch
