import CodexPilot.ApplyPatch.Invocation

/-!
# Verification predicts application

Verification reads the untouched files for every hunk while application changes them between hunks.
When the hunks mention each path once, no hunk sees the work of another and the two agree.
-/

namespace CodexPilot.ApplyPatch

open RustStd Journal

/-! ## Changes as writes -/

namespace ApplyPatchFileChange

/-- The writes and removals that a change of the file `path` stands for. -/
def writes (path : Path) : ApplyPatchFileChange → List (Path × Option Text)
  | .add content => [(path, some content)]
  | .delete _ => [(path, none)]
  | .update _ none newContent => [(path, some newContent)]
  | .update _ (some dest) newContent =>
      [(PathBuf.components dest, some newContent), (path, none)]

end ApplyPatchFileChange

namespace Hunk

/-- The paths that a hunk mentions: its own, and the destination of its move. -/
def mentions (cwd : PathBuf) : Hunk → List Path
  | .addFile path _ | .deleteFile path | .updateFile path none _ => [resolve cwd path]
  | .updateFile path (some dest) _ => [resolve cwd path, resolve cwd dest]

end Hunk

section OneHunk

variable {unifiedDiff : UnifiedDiff} {files : Files} {cwd : PathBuf} {hunk : Hunk}
  {change : ApplyPatchFileChange}

theorem path_mem_mentions (cwd : PathBuf) (hunk : Hunk) :
    resolve cwd hunk.path ∈ hunk.mentions cwd := by
  cases hunk with
  | addFile path contents | deleteFile path => exact List.mem_singleton_self _
  | updateFile path movePath chunks => cases movePath <;> exact List.mem_cons_self

/-- The change of a hunk writes what the hunk mentions. -/
theorem writes_perm_mentions (verified : verifyHunk unifiedDiff files cwd hunk = .ok change) :
    ((change.writes (resolve cwd hunk.path)).map Prod.fst).Perm (hunk.mentions cwd) := by
  cases hunk with
  | addFile path contents =>
      cases verified
      exact List.Perm.refl _
  | deleteFile path =>
      obtain ⟨content, _, rfl⟩ := verifyHunk_deleteFile verified
      exact List.Perm.refl _
  | updateFile path movePath chunks =>
      obtain ⟨original, contents, _, _, rfl⟩ := verifyHunk_updateFile verified
      cases movePath with
      | none => exact List.Perm.refl _
      | some dest => exact List.Perm.swap _ _ _

theorem createParent_never (path : PathBuf) (world : World) :
    createParent .never path world = .ok () world :=
  createParent_of_creatable fun _ _ => rfl

theorem writeNamed_never (path : PathBuf) (contents : Text) (world : World) :
    writeNamed .never cwd path contents world =
      .ok () (world.perform [(resolve cwd path, some contents)]) := rfl

theorem removeFile_never {context : Text} {path : Path} {world : World}
    (present : (world.files path).isSome = true) :
    removeFile .never context path world = .ok () (world.perform [(path, none)]) := by
  simp [removeFile, Faults.never, present]

theorem deriveNewContents_never {world : World} {path name : PathBuf} {original contents : Text}
    {chunks : List UpdateFileChunk} (present : world.files (resolve cwd path) = some original)
    (patched : patchContents original name chunks = .ok contents) :
    deriveNewContents .never (resolve cwd path) path chunks world = .ok contents world := by
  simp [deriveNewContents, Faults.never, deriveNewContentsFromChunks, readToString, present,
    patchContents_rename patched path, bind, Except.bind]

/-- A hunk that was checked on the file as it is now makes exactly its change. -/
theorem applyHunk_of_verified {world : World} (affected : AffectedPaths)
    (verified : verifyHunk unifiedDiff files cwd hunk = .ok change)
    (untouched : world.files (resolve cwd hunk.path) = files (resolve cwd hunk.path)) :
    ∃ affected', applyHunk .never cwd affected hunk world =
      .ok affected' (world.perform (change.writes (resolve cwd hunk.path))) := by
  cases hunk with
  | addFile path contents =>
      cases verified
      refine ⟨{ affected with added := affected.added ++ [path] }, ?_⟩
      simp only [applyHunk]
      rw [bind_of_ok (createParent_never path world),
        bind_of_ok (writeNamed_never path contents world)]
      rfl
  | deleteFile path =>
      obtain ⟨content, present, rfl⟩ := verifyHunk_deleteFile verified
      refine ⟨{ affected with deleted := affected.deleted ++ [path] }, ?_⟩
      have exists_ : (world.files (resolve cwd path)).isSome = true := by
        rw [show world.files (resolve cwd path) = some content from untouched.trans present]
        rfl
      simp only [applyHunk]
      rw [bind_of_ok (removeFile_never exists_)]
      rfl
  | updateFile path movePath chunks =>
      obtain ⟨original, contents, present, patched, rfl⟩ := verifyHunk_updateFile verified
      have current : world.files (resolve cwd path) = some original := untouched.trans present
      have derived := deriveNewContents_never current patched
      cases movePath with
      | none =>
          refine ⟨{ affected with modified := affected.modified ++ [path] }, ?_⟩
          simp only [applyHunk]
          rw [bind_of_ok derived, bind_of_ok (writeNamed_never path contents world)]
          rfl
      | some dest =>
          refine ⟨{ affected with modified := affected.modified ++ [dest] }, ?_⟩
          -- Writing the destination leaves a file at the source, even when they are the same.
          have stillThere : ((world.perform [(resolve cwd dest, some contents)]).files
              (resolve cwd path)).isSome = true := by
            simp only [World.perform, replay_cons]
            by_cases same : resolve cwd path = resolve cwd dest
            · simp [same, replay]
            · simp [replay, Function.update_of_ne same, current]
          simp only [applyHunk]
          rw [bind_of_ok derived, bind_of_ok (createParent_never dest world),
            bind_of_ok (writeNamed_never dest contents world),
            bind_of_ok (removeFile_never stillThere)]
          simp only [ApplyPatchFileChange.writes, Option.map_some]
          rw [← World.perform_append]
          rfl

end OneHunk

/-! ## All hunks -/

section AllHunks

variable {query : BashQuery} {unifiedDiff : UnifiedDiff} {files : Files} {argv : List Text}
  {cwd : PathBuf} {args : ApplyPatchArgs} {action : ApplyPatchAction}
  {checked : List (Hunk × ApplyPatchFileChange)}

/-- The writes and removals that checked hunks stand for. -/
def allWrites (cwd : PathBuf) (checked : List (Hunk × ApplyPatchFileChange)) :
    List (Path × Option Text) :=
  checked.flatMap fun entry => entry.2.writes (resolve cwd entry.1.path)

theorem allWrites_perm_mentions
    (each : ∀ entry ∈ checked, verifyHunk unifiedDiff files cwd entry.1 = .ok entry.2) :
    ((allWrites cwd checked).map Prod.fst).Perm
      ((checked.map Prod.fst).flatMap (Hunk.mentions cwd)) := by
  induction checked with
  | nil => exact List.Perm.refl _
  | cons entry checked ih =>
      simp only [allWrites, List.flatMap_cons, List.map_append, List.map_cons]
      apply List.Perm.append
      · exact writes_perm_mentions (each entry List.mem_cons_self)
      · exact ih fun later member => each later (List.mem_cons_of_mem _ member)

/-- Checked hunks that mention each path once make exactly their changes. -/
theorem applyHunks_of_verified {world : World} (affected : AffectedPaths)
    (each : ∀ entry ∈ checked, verifyHunk unifiedDiff files cwd entry.1 = .ok entry.2)
    (distinct : ((checked.map Prod.fst).flatMap (Hunk.mentions cwd)).Nodup)
    (untouched : ∀ entry ∈ checked,
      world.files (resolve cwd entry.1.path) = files (resolve cwd entry.1.path)) :
    ∃ affected', applyHunks .never cwd (checked.map Prod.fst) affected world =
      .ok affected' (world.perform (allWrites cwd checked)) := by
  -- The invariant is that the files of the hunks to come are as verification saw them.
  induction checked generalizing affected world with
  | nil => exact ⟨affected, by simp [applyHunks, allWrites, World.perform, replay]; rfl⟩
  | cons entry checked ih =>
      have verified := each entry List.mem_cons_self
      simp only [List.map_cons, List.flatMap_cons, List.nodup_append'] at distinct
      obtain ⟨_, restDistinct, apart⟩ := distinct
      obtain ⟨middle, step⟩ :=
        applyHunk_of_verified affected verified (untouched entry List.mem_cons_self)
      have stillUntouched : ∀ later ∈ checked,
          (world.perform (entry.2.writes (resolve cwd entry.1.path))).files
            (resolve cwd later.1.path) = files (resolve cwd later.1.path) := by
        intro later member
        rw [← untouched later (List.mem_cons_of_mem _ member)]
        apply replay_of_notMem
        intro written
        apply apart ((writes_perm_mentions verified).mem_iff.mp written)
        exact List.mem_flatMap_of_mem (List.mem_map_of_mem member) (path_mem_mentions cwd later.1)
      obtain ⟨affected', rest⟩ := ih middle
        (fun later member => each later (List.mem_cons_of_mem _ member)) restDistinct stillUntouched
      refine ⟨affected', ?_⟩
      simp only [applyHunks, List.map_cons, List.foldlM_cons] at rest ⊢
      rw [bind_of_ok step, rest, ← World.perform_append]
      rfl

/-- What the files are after the hunks of a patch, with the contents that verification found. -/
structure Predicts (cwd : PathBuf) (hunks : List Hunk) (changes : Changes) (before after : Files) :
    Prop where
  added : ∀ path contents, Hunk.addFile path contents ∈ hunks →
    after (resolve cwd path) = some contents
  deleted : ∀ path, Hunk.deleteFile path ∈ hunks → after (resolve cwd path) = none
  updated : ∀ path chunks, Hunk.updateFile path none chunks ∈ hunks →
    ∃ diff newContent, changes.lookup (resolve cwd path) = some (.update diff none newContent) ∧
      after (resolve cwd path) = some newContent
  moved : ∀ path dest chunks, Hunk.updateFile path (some dest) chunks ∈ hunks →
    ∃ diff newContent, changes.lookup (resolve cwd path) =
        some (.update diff (some (PathBuf.join cwd dest)) newContent) ∧
      after (resolve cwd path) = none ∧ after (resolve cwd dest) = some newContent
  others : ∀ path, (∀ hunk ∈ hunks, path ∉ hunk.mentions cwd) → after path = before path

theorem paths_sublist_mentions (cwd : PathBuf) (hunks : List Hunk) :
    (hunks.map fun hunk => resolve cwd hunk.path).Sublist (hunks.flatMap (Hunk.mentions cwd)) := by
  induction hunks with
  | nil => exact List.Sublist.refl _
  | cons hunk hunks ih =>
      rw [List.map_cons, List.flatMap_cons, ← List.singleton_append]
      apply List.Sublist.append _ ih
      exact List.singleton_sublist.mpr (path_mem_mentions cwd hunk)

theorem predicts_replay {changes : Changes}
    (each : ∀ entry ∈ checked, verifyHunk unifiedDiff files cwd entry.1 = .ok entry.2)
    (distinct : ((checked.map Prod.fst).flatMap (Hunk.mentions cwd)).Nodup)
    (looked : ∀ key, changes.lookup key =
      replay (fun key => (∅ : Changes).lookup key) (keyed cwd checked) key) :
    Predicts cwd (checked.map Prod.fst) changes files (replay files (allWrites cwd checked)) := by
  have writesDistinct : ((allWrites cwd checked).map Prod.fst).Nodup :=
    (allWrites_perm_mentions each).nodup_iff.mpr distinct
  have keysDistinct : ((keyed cwd checked).map Prod.fst).Nodup := by
    rw [map_fst_keyed]
    exact distinct.sublist (paths_sublist_mentions cwd _)
  have written {entry} (member : entry ∈ checked) {path value}
      (isWrite : (path, value) ∈ entry.2.writes (resolve cwd entry.1.path)) :
      replay files (allWrites cwd checked) path = value :=
    replay_of_mem writesDistinct (List.mem_flatMap_of_mem member isWrite)
  have found {entry} (member : entry ∈ checked) :
      changes.lookup (resolve cwd entry.1.path) = some entry.2 := by
    rw [looked]
    exact replay_of_mem keysDistinct (List.mem_map_of_mem member)
  refine ⟨?_, ?_, ?_, ?_, ?_⟩
  · intro path contents inHunks
    obtain ⟨⟨hunk, change⟩, member, rfl⟩ := List.mem_map.mp inHunks
    obtain rfl : .add contents = change := by simpa [verifyHunk] using each _ member
    exact written member List.mem_cons_self
  · intro path inHunks
    obtain ⟨⟨hunk, change⟩, member, rfl⟩ := List.mem_map.mp inHunks
    obtain ⟨content, _, isDelete⟩ := verifyHunk_deleteFile (each _ member)
    obtain rfl : change = .delete content := isDelete
    exact written member List.mem_cons_self
  · intro path chunks inHunks
    obtain ⟨⟨hunk, change⟩, member, rfl⟩ := List.mem_map.mp inHunks
    obtain ⟨original, contents, _, _, isUpdate⟩ := verifyHunk_updateFile (each _ member)
    obtain rfl : change = .update (unifiedDiff original contents 1) none contents := isUpdate
    exact ⟨_, contents, found member, written member List.mem_cons_self⟩
  · intro path dest chunks inHunks
    obtain ⟨⟨hunk, change⟩, member, rfl⟩ := List.mem_map.mp inHunks
    obtain ⟨original, contents, _, _, isUpdate⟩ := verifyHunk_updateFile (each _ member)
    obtain rfl : change =
        .update (unifiedDiff original contents 1)
          (some (PathBuf.join cwd dest)) contents := isUpdate
    exact ⟨_, contents, found member, written member (List.mem_cons_of_mem _ List.mem_cons_self),
      written member List.mem_cons_self⟩
  · intro path unmentioned
    apply replay_of_notMem
    rw [(allWrites_perm_mentions each).mem_iff, List.mem_flatMap]
    rintro ⟨hunk, member, mentioned⟩
    exact unmentioned hunk member mentioned

/-- A verified patch with at least one hunk, whose hunks mention each path once, is applied without
error and makes the files what verification predicted. -/
theorem applyHunksToFiles_predicted (parsed : maybeParseApplyPatch query argv = .body args)
    (verified : maybeParseApplyPatchVerified query unifiedDiff files argv cwd = .body action)
    (distinct : (args.hunks.flatMap (Hunk.mentions action.cwd)).Nodup)
    (nonempty : args.hunks ≠ []) :
    ∃ affected world,
      applyHunksToFiles .never action.cwd args.hunks (World.initial files) = .ok affected world ∧
      Predicts action.cwd args.hunks action.changes files world.files := by
  obtain ⟨args', parsed', _, verifiedHunks⟩ := exists_args_of_verified verified
  obtain rfl : args = args' := by
    rw [parsed] at parsed'
    exact MaybeApplyPatch.body.inj parsed'
  obtain ⟨checked, isHunks, each, looked⟩ := exists_checked_of_verifyHunks verifiedHunks
  rw [← isHunks] at distinct nonempty ⊢
  have untouched : ∀ entry ∈ checked, (World.initial files).files
      (resolve action.cwd entry.1.path) = files (resolve action.cwd entry.1.path) :=
    fun _ _ => rfl
  obtain ⟨affected, ran⟩ := applyHunks_of_verified .empty each distinct untouched
  refine ⟨affected, (World.initial files).perform (allWrites action.cwd checked), ?_,
    predicts_replay each distinct looked⟩
  rw [applyHunksToFiles, if_neg (by simpa using nonempty)]
  exact ran

/-- One file is moved and another one added. -/
def movedPatch : Text :=
  ("*** Begin Patch\n*** Update File: a\n*** Move to: b\n@@\n-x\n+y\n".toList ++
    "*** Add File: c\n+z\n*** End Patch".toList)

/-- The parsed patch. -/
def movedArgs : ApplyPatchArgs where
  patch := movedPatch
  hunks := [.updateFile ['a'] (some ['b']) [⟨none, [['x']], [['y']], false⟩],
    .addFile ['c'] ['z', '\n']]
  workdir := none

/-- The verified patch. -/
def movedAction : ApplyPatchAction where
  changes := AList.insert [.rootDir, .normal ['w'], .normal ['c']] (.add ['z', '\n'])
    (AList.insert [.rootDir, .normal ['w'], .normal ['a']]
      (.update [] (some "/w/b".toList) ['y', '\n']) ∅)
  patch := movedPatch
  cwd := "/w".toList

theorem applyHunksToFiles_predicted_moved :
    ∃ affected world,
      applyHunksToFiles .never "/w".toList movedArgs.hunks (World.initial smallFiles) =
        .ok affected world ∧
      Predicts "/w".toList movedArgs.hunks movedAction.changes smallFiles world.files :=
  @applyHunksToFiles_predicted noQuery noDiff smallFiles ["apply_patch".toList, movedPatch]
    "/w".toList movedArgs movedAction (by rfl) (by rfl) (by decide) (by decide)

/-- A patch without hunks. -/
def emptyPatch : Text := "*** Begin Patch\n*** End Patch".toList

/-- Applying a patch without hunks is an error, though its verification succeeds. -/
theorem applyHunksToFiles_empty_fails :
    ¬ ∀ query unifiedDiff files argv cwd args action,
      maybeParseApplyPatch query argv = .body args →
      maybeParseApplyPatchVerified query unifiedDiff files argv cwd = .body action →
      (args.hunks.flatMap (Hunk.mentions action.cwd)).Nodup →
      ∃ affected world,
        applyHunksToFiles .never action.cwd args.hunks (World.initial files) = .ok affected world ∧
        Predicts action.cwd args.hunks action.changes files world.files := by
  intro predicted
  obtain ⟨affected, world, ran, _⟩ := predicted noQuery noDiff smallFiles
    ["apply_patch".toList, emptyPatch] "/w".toList
    { patch := emptyPatch, hunks := [], workdir := none }
    { changes := ∅, patch := emptyPatch, cwd := "/w".toList } (by rfl) (by rfl) List.nodup_nil
  cases ran

end AllHunks
end CodexPilot.ApplyPatch
