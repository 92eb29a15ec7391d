import CodexPilot.ApplyPatch.Coverage
import CodexPilot.Sandbox.Permissions

/-!
# Patches inside the writable paths

A patch may be approved without asking when the sandbox policy lets all its changes be written.  The
check looks at the changes, so it only speaks for the files that the changes name.
-/

namespace CodexPilot.ApplyPatch

open RustStd Sandbox

/-- Remove `.` and resolve `..` by the text of a path. -/
def normalize (path : Path) : Path :=
  path.foldl
    (fun out component =>
      match component with
      | .parentDir => Path.pop out
      | .curDir => out
      | other => out ++ [other])
    []

section Check

variable (host : Host) (policy : FileSystemSandboxPolicy) (cwd : PathBuf)

/-- Whether the sandbox policy lets a file be written. -/
def isPathWritable (path : Path) : Bool :=
  let abs := if Path.isAbsolute path then path else resolve cwd (Path.toPathBuf path)
  policy.canWritePathWithCwd host (Path.toPathBuf (normalize abs)) cwd

/-- Whether the files of one change may be written. -/
def isChangeWritable (path : Path) : ApplyPatchFileChange → Bool
  | .add _ | .delete _ => isPathWritable host policy cwd path
  | .update _ movePath _ =>
      isPathWritable host policy cwd path &&
        movePath.all fun dest => isPathWritable host policy cwd (PathBuf.components dest)

/-- Whether the sandbox policy lets all the changes of a patch be written. -/
def isWritePatchConstrainedToWritablePaths (action : ApplyPatchAction) : Bool :=
  action.changes.entries.all fun entry => isChangeWritable host policy cwd entry.1 entry.2

end Check

section Constrained

variable {host : Host} {policy : FileSystemSandboxPolicy} {cwd : PathBuf}
  {action : ApplyPatchAction} {path : Path}

/-- The check passes exactly when every file that the changes name may be written. -/
theorem isConstrained_iff :
    isWritePatchConstrainedToWritablePaths host policy cwd action = true ↔
      ∀ path, action.changes.Names path → isPathWritable host policy cwd path = true := by
  simp only [isWritePatchConstrainedToWritablePaths, List.all_eq_true]
  constructor
  · intro constrained path named
    rcases named with isKey | ⟨key, diff, dest, newContent, found, rfl⟩
    · obtain ⟨change, found⟩ := Option.isSome_iff_exists.mp (AList.lookup_isSome.mpr isKey)
      have writable := constrained ⟨path, change⟩ (AList.mem_lookup_iff.mp found)
      cases change with
      | add content | delete content => exact writable
      | update diff movePath newContent => exact (Bool.and_eq_true_iff.mp writable).1
    · have writable := constrained ⟨key, _⟩ (AList.mem_lookup_iff.mp found)
      exact (Bool.and_eq_true_iff.mp writable).2
  · rintro writable ⟨key, change⟩ member
    have found := AList.mem_lookup_iff.mpr member
    have keyWritable : isPathWritable host policy cwd key = true := by
      apply writable key
      exact .inl (AList.lookup_isSome.mp (Option.isSome_iff_exists.mpr ⟨change, found⟩))
    cases change with
    | add content | delete content => exact keyWritable
    | update diff movePath newContent =>
        cases movePath with
        | none => simp [isChangeWritable, keyWritable]
        | some dest =>
            have destWritable := writable (PathBuf.components dest)
              (.inr ⟨key, diff, dest, newContent, found, rfl⟩)
            simp [isChangeWritable, keyWritable, destWritable]

/-- When a patch passes the check and its changes keep the moves of the run, applying it touches
writable files only. -/
theorem touched_writable_of_constrained {query : BashQuery} {unifiedDiff : UnifiedDiff}
    {files : Files} {argv : List Text} {turnCwd : PathBuf} {faults : Faults}
    {args again : ApplyPatchArgs}
    (verified : maybeParseApplyPatchVerified query unifiedDiff files argv turnCwd = .body action)
    (parsed : maybeParseApplyPatch query argv = .body args)
    (parsedAgain : parsePatch action.patch = .ok again)
    (recorded : MovesRecorded faults action.cwd files args.hunks again.hunks)
    (constrained : isWritePatchConstrainedToWritablePaths host policy cwd action = true) :
    ∀ path ∈ touchedFiles faults action.cwd files again.hunks,
      isPathWritable host policy cwd path = true := by
  obtain ⟨args', again', parsed', parsedAgain', checked, resembles⟩ :=
    exists_again_of_verified verified
  obtain rfl : args = args' := MaybeApplyPatch.body.inj (parsed.symm.trans parsed')
  obtain rfl : again = again' := Except.ok.inj (parsedAgain.symm.trans parsedAgain')
  intro path touched
  apply isConstrained_iff.mp constrained
  exact (changes_name_touched_iff checked resembles faults).mpr recorded path touched

/-- The only file that is touched is added in the directory that may be written. -/
theorem touched_writable_added :
    touchedFiles .never "/w".toList smallFiles [.addFile ['b'] ['z', '\n']] =
        [[.rootDir, .normal ['w'], .normal ['b']]] ∧
      isPathWritable .bare ⟨.restricted, [⟨.special .currentWorkingDirectory, .write⟩]⟩
        "/w".toList [.rootDir, .normal ['w'], .normal ['b']] = true := by
  let patch := "*** Begin Patch\n*** Add File: b\n+z\n*** End Patch".toList
  let args : ApplyPatchArgs := ⟨patch, [.addFile ['b'] ['z', '\n']], none⟩
  have touched : touchedFiles .never "/w".toList smallFiles args.hunks =
      [[.rootDir, .normal ['w'], .normal ['b']]] := by rfl
  refine ⟨touched, @touched_writable_of_constrained _ _ _
    ⟨AList.insert [.rootDir, .normal ['w'], .normal ['b']] (.add ['z', '\n']) ∅, patch, "/w".toList⟩
    noQuery noDiff smallFiles ["apply_patch".toList, patch] "/w".toList .never args args
    (by rfl) (by rfl) (by rfl) ?_ (by decide) _ (touched ▸ List.mem_singleton_self _)⟩
  rintro world source dest chunks ⟨before, after, _, split, _⟩
  rcases before with _ | ⟨_, _ | _⟩ <;> simp [args] at split

end Constrained

end CodexPilot.ApplyPatch
