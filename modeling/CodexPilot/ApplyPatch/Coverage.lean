import CodexPilot.ApplyPatch.Invocation
import CodexPilot.ApplyPatch.Reparse

/-!
# Changes and touched files

The changes of a verified patch are meant to name every file that applying the patch touches.  They
name the header path of every hunk; a move destination is only named by the last hunk of its file.
-/

namespace CodexPilot.ApplyPatch

open RustStd Journal

/-! ## Touched files -/

section Touched

variable {faults : Faults} {cwd : PathBuf} {world : World} {affected : AffectedPaths}

/-- The move of an update gets as far as opening its destination. -/
def Moves (faults : Faults) (cwd : PathBuf) (world : World) (path dest : PathBuf)
    (chunks : List UpdateFileChunk) : Prop :=
  ∃ contents, deriveNewContents faults (resolve cwd path) path chunks world = .ok contents world ∧
    ParentCreatable faults world dest ∧ Opens faults world (resolve cwd dest) contents

/-- A path that a hunk writes or removes. -/
def Hunk.Touches (faults : Faults) (cwd : PathBuf) (world : World) (hunk : Hunk) (path : Path) :
    Prop :=
  path = resolve cwd hunk.path ∨
    ∃ source dest chunks, hunk = .updateFile source (some dest) chunks ∧
      Moves faults cwd world source dest chunks ∧ path = resolve cwd dest

theorem touched_writeNamed {name : PathBuf} {contents : Text} :
    ∃ extra, (finalState (writeNamed faults cwd name contents world)).touched =
      world.touched ++ extra ∧ ∀ path ∈ extra, path = resolve cwd name := by
  unfold writeNamed
  rcases @write_cases faults world (writeContext name) (resolve cwd name)
    contents with ⟨done, _⟩ | ⟨error, left, failed, _⟩ | ⟨error, failed, _⟩
  · exact ⟨[resolve cwd name], by simp [done], by simp⟩
  · exact ⟨[resolve cwd name], by simp [failed], by simp⟩
  · exact ⟨[], by simp [failed], by simp⟩

theorem touched_moved {source dest : PathBuf} {chunks : List UpdateFileChunk} :
    ∃ extra, (finalState (applyHunk faults cwd affected (.updateFile source (some dest) chunks)
        world)).touched = world.touched ++ extra ∧
      (∀ path ∈ extra, (Hunk.updateFile source (some dest) chunks).Touches faults cwd world path) ∧
      (Moves faults cwd world source dest chunks → resolve cwd dest ∈ extra) := by
  simp only [applyHunk]
  rcases @deriveNewContents_cases faults world (resolve cwd source) source chunks with
    ⟨contents, derived⟩ | ⟨error, failed⟩
  · rw [bind_of_ok derived]
    by_cases creatable : ParentCreatable faults world dest
    · rw [bind_of_ok (createParent_of_creatable creatable)]
      unfold writeNamed
      rcases @write_cases faults world (writeContext dest) (resolve cwd dest)
        contents with ⟨done, opens⟩ | ⟨error, left, failed, opens⟩ | ⟨error, failed, closed⟩
      · rw [bind_of_ok done, finalState_bind_pure]
        have moves : Moves faults cwd world source dest chunks :=
          ⟨contents, derived, creatable, opens⟩
        rcases @removeFile_cases faults (world.perform [(resolve cwd dest, some contents)])
          (removeContext source) (resolve cwd source) with
          removed | ⟨error, failed⟩
        · refine ⟨[resolve cwd dest, resolve cwd source], by simp [removed], ?_, by simp⟩
          intro path member
          rcases List.mem_pair.mp member with rfl | rfl
          · exact .inr ⟨source, dest, chunks, rfl, moves, rfl⟩
          · exact .inl rfl
        · refine ⟨[resolve cwd dest], by simp [failed], ?_, by simp⟩
          intro path member
          exact .inr ⟨source, dest, chunks, rfl, moves, List.mem_singleton.mp member⟩
      · rw [bind_of_error failed]
        refine ⟨[resolve cwd dest], by simp, ?_, by simp⟩
        intro path member
        exact .inr ⟨source, dest, chunks, rfl, ⟨contents, derived, creatable, opens⟩,
          List.mem_singleton.mp member⟩
      · rw [bind_of_error failed]
        refine ⟨[], by simp, by simp, ?_⟩
        rintro ⟨contents', derived', _, opens⟩
        rw [derived] at derived'
        cases derived'
        exact absurd opens closed
    · obtain ⟨error, failed⟩ := createParent_of_not_creatable creatable
      rw [bind_of_error failed]
      exact ⟨[], by simp, by simp, fun moves => absurd moves.choose_spec.2.1 creatable⟩
  · rw [bind_of_error failed]
    refine ⟨[], by simp, by simp, ?_⟩
    rintro ⟨contents, derived, _⟩
    rw [failed] at derived
    cases derived

/-- A hunk adds to the touched paths its own path and a destination that its move opens. -/
theorem touched_applyHunk (hunk : Hunk) :
    ∃ extra, (finalState (applyHunk faults cwd affected hunk world)).touched =
        world.touched ++ extra ∧
      (∀ path ∈ extra, hunk.Touches faults cwd world path) ∧
      ∀ source dest chunks, hunk = .updateFile source (some dest) chunks →
        Moves faults cwd world source dest chunks → resolve cwd dest ∈ extra := by
  cases hunk with
  | addFile path contents =>
      simp only [applyHunk]
      by_cases creatable : ParentCreatable faults world path
      · rw [bind_of_ok (createParent_of_creatable creatable), finalState_bind_pure]
        obtain ⟨extra, touched, own⟩ := @touched_writeNamed faults cwd world path contents
        exact ⟨extra, touched, fun _ member => .inl (own _ member), by simp⟩
      · obtain ⟨error, failed⟩ := createParent_of_not_creatable creatable
        rw [bind_of_error failed]
        exact ⟨[], by simp, by simp, by simp⟩
  | deleteFile path =>
      simp only [applyHunk]
      rw [finalState_bind_pure]
      rcases @removeFile_cases faults world (deleteContext path)
        (resolve cwd path) with removed | ⟨error, failed⟩
      · exact ⟨[resolve cwd path], by simp [removed],
          fun _ member => .inl (List.mem_singleton.mp member), by simp⟩
      · exact ⟨[], by simp [failed], by simp, by simp⟩
  | updateFile path movePath chunks =>
      cases movePath with
      | some dest =>
          obtain ⟨extra, touched, within, moved⟩ :=
            @touched_moved faults cwd world affected path dest chunks
          refine ⟨extra, touched, within, ?_⟩
          intro source dest' chunks' same
          cases same
          exact moved
      | none =>
          simp only [applyHunk]
          rcases @deriveNewContents_cases faults world (resolve cwd path) path chunks with
            ⟨contents, derived⟩ | ⟨error, failed⟩
          · rw [bind_of_ok derived, finalState_bind_pure]
            obtain ⟨extra, touched, own⟩ := @touched_writeNamed faults cwd world path contents
            exact ⟨extra, touched, fun _ member => .inl (own _ member), by simp⟩
          · rw [bind_of_error failed]
            exact ⟨[], by simp, by simp, by simp⟩

end Touched

/-! ## Recorded files -/

section Recorded

variable {query : BashQuery} {unifiedDiff : UnifiedDiff} {files : Files} {cwd : PathBuf}
  {hunks : List Hunk} {changes : Changes} {path : Path}

/-- A file that a look at the changes finds: a key, or the destination of an update. -/
def Changes.Names (changes : Changes) (path : Path) : Prop :=
  path ∈ changes ∨
    ∃ key diff dest newContent, changes.lookup key = some (.update diff (some dest) newContent) ∧
      PathBuf.components dest = path

/-- A file that the hunks leave in the changes: one in the header of a hunk, or the destination of a
hunk that no later hunk of the same file replaces. -/
def Recorded (cwd : PathBuf) (hunks : List Hunk) (path : Path) : Prop :=
  (∃ hunk ∈ hunks, resolve cwd hunk.path = path) ∨
    ∃ before source dest chunks after,
      hunks = before ++ .updateFile source (some dest) chunks :: after ∧
      resolve cwd dest = path ∧ ∀ later ∈ after, resolve cwd later.path ≠ resolve cwd source

theorem notMem_keyed_iff {checked : List (Hunk × ApplyPatchFileChange)} :
    path ∉ (keyed cwd checked).map Prod.fst ↔
      ∀ hunk ∈ checked.map Prod.fst, resolve cwd hunk.path ≠ path := by
  rw [map_fst_keyed, List.mem_map]
  push Not
  rfl

/-- The last hunk of a file decides its change. -/
theorem lookup_eq_some_iff (verified : verifyHunks unifiedDiff files cwd hunks ∅ = .ok changes)
    {change : ApplyPatchFileChange} :
    changes.lookup path = some change ↔
      ∃ before hunk after, hunks = before ++ hunk :: after ∧ resolve cwd hunk.path = path ∧
        verifyHunk unifiedDiff files cwd hunk = .ok change ∧
        ∀ later ∈ after, resolve cwd later.path ≠ path := by
  obtain ⟨checked, rfl, each, looked⟩ := exists_checked_of_verifyHunks verified
  rw [looked]
  constructor
  · intro found
    have member : path ∈ (keyed cwd checked).map Prod.fst := by
      by_contra absent
      rw [replay_of_notMem absent] at found
      cases found
    obtain ⟨before, value, after, split, final⟩ := exists_last_of_mem member
    rw [split, replay_of_last final] at found
    obtain ⟨front, back, rfl, rfl, atEntry⟩ := List.map_eq_append_iff.mp split
    obtain ⟨⟨hunk, found'⟩, tail, rfl, isEntry, rfl⟩ := List.map_eq_cons_iff.mp atEntry
    obtain ⟨rfl, rfl⟩ := Prod.ext_iff.mp isEntry
    obtain rfl : found' = change := Option.some.inj found
    exact ⟨front.map Prod.fst, hunk, tail.map Prod.fst, by simp, rfl, each (hunk, found') (by simp),
      notMem_keyed_iff.mp final⟩
  · rintro ⟨before, hunk, after, split, rfl, checkedHunk, final⟩
    obtain ⟨front, back, rfl, rfl, atEntry⟩ := List.map_eq_append_iff.mp split
    obtain ⟨entry, tail, rfl, rfl, rfl⟩ := List.map_eq_cons_iff.mp atEntry
    obtain rfl : entry.2 = change :=
      Except.ok.inj ((each entry (by simp)).symm.trans checkedHunk)
    have keyedSplit : keyed cwd (front ++ entry :: tail) =
        keyed cwd front ++ (resolve cwd entry.1.path, some entry.2) :: keyed cwd tail := by
      simp [keyed]
    rw [keyedSplit, replay_of_last (notMem_keyed_iff.mpr final)]

theorem exists_change_of_mem (verified : verifyHunks unifiedDiff files cwd hunks ∅ = .ok changes)
    {hunk : Hunk} (member : hunk ∈ hunks) :
    ∃ change, verifyHunk unifiedDiff files cwd hunk = .ok change := by
  obtain ⟨checked, rfl, each, _⟩ := exists_checked_of_verifyHunks verified
  obtain ⟨entry, inside, rfl⟩ := List.mem_map.mp member
  exact ⟨entry.2, each entry inside⟩

theorem mem_changes_iff (verified : verifyHunks unifiedDiff files cwd hunks ∅ = .ok changes) :
    path ∈ changes ↔ ∃ hunk ∈ hunks, resolve cwd hunk.path = path := by
  rw [← AList.lookup_isSome, Option.isSome_iff_exists]
  constructor
  · rintro ⟨change, found⟩
    obtain ⟨before, hunk, after, rfl, isPath, _⟩ := (lookup_eq_some_iff verified).mp found
    exact ⟨hunk, by simp, isPath⟩
  · intro named
    obtain ⟨checked, rfl, _, looked⟩ := exists_checked_of_verifyHunks verified
    have member : path ∈ (keyed cwd checked).map Prod.fst := by
      rw [map_fst_keyed, List.mem_map]
      exact named
    obtain ⟨before, value, after, split, final⟩ := exists_last_of_mem member
    have inKeyed : (path, value) ∈ keyed cwd checked := by simp [split]
    obtain ⟨entry, _, isEntry⟩ := List.mem_map.mp inKeyed
    refine ⟨entry.2, ?_⟩
    rw [looked, split, replay_of_last final]
    exact (Prod.ext_iff.mp isEntry).2.symm

theorem exists_update_iff (verified : verifyHunks unifiedDiff files cwd hunks ∅ = .ok changes) :
    (∃ key diff dest newContent, changes.lookup key = some (.update diff (some dest) newContent) ∧
        PathBuf.components dest = path) ↔
      ∃ before source dest chunks after,
        hunks = before ++ .updateFile source (some dest) chunks :: after ∧
        resolve cwd dest = path ∧
        ∀ later ∈ after, resolve cwd later.path ≠ resolve cwd source := by
  constructor
  · rintro ⟨key, diff, dest, newContent, found, rfl⟩
    obtain ⟨before, hunk, after, split, rfl, checkedHunk, final⟩ :=
      (lookup_eq_some_iff verified).mp found
    cases hunk with
    | addFile source contents => simp [verifyHunk] at checkedHunk
    | deleteFile source =>
        obtain ⟨_, _, isDelete⟩ := verifyHunk_deleteFile checkedHunk
        cases isDelete
    | updateFile source movePath chunks =>
        obtain ⟨_, _, _, _, isUpdate⟩ := verifyHunk_updateFile checkedHunk
        cases movePath with
        | none => cases isUpdate
        | some target =>
            cases isUpdate
            exact ⟨before, source, target, chunks, after, split, rfl, final⟩
  · rintro ⟨before, source, dest, chunks, after, split, rfl, final⟩
    obtain ⟨change, checkedHunk⟩ := exists_change_of_mem verified
      (show .updateFile source (some dest) chunks ∈ hunks by simp [split])
    obtain ⟨original, contents, _, _, rfl⟩ := verifyHunk_updateFile checkedHunk
    exact ⟨resolve cwd source, _, PathBuf.join cwd dest, contents,
      (lookup_eq_some_iff verified).mpr ⟨before, _, after, split, rfl, checkedHunk, final⟩, rfl⟩

/-- The changes name exactly the files that the hunks leave in them. -/
theorem names_iff_recorded (verified : verifyHunks unifiedDiff files cwd hunks ∅ = .ok changes) :
    changes.Names path ↔ Recorded cwd hunks path := by
  rw [Changes.Names, Recorded, mem_changes_iff verified, exists_update_iff verified]

end Recorded

/-! ## Coverage -/

section Coverage

variable {query : BashQuery} {unifiedDiff : UnifiedDiff} {files : Files} {argv : List Text}
  {cwd : PathBuf} {action : ApplyPatchAction}

/-- The files that a run over the hunks touches, whether it fails or not. -/
def touchedFiles (faults : Faults) (cwd : PathBuf) (files : Files) (hunks : List Hunk) :
    List Path :=
  (finalState (applyHunksToFiles faults cwd hunks (World.initial files))).touched

/-- The run comes to a hunk in the given world. -/
def Reaches (faults : Faults) (cwd : PathBuf) (files : Files) (hunks : List Hunk) (world : World)
    (hunk : Hunk) : Prop :=
  ∃ before after affected, hunks = before ++ hunk :: after ∧
    applyHunks faults cwd before .empty (World.initial files) = .ok affected world

theorem touchedFiles_eq (faults : Faults) (hunks : List Hunk) :
    touchedFiles faults cwd files hunks =
      (finalState (applyHunks faults cwd hunks .empty (World.initial files))).touched := by
  cases hunks with
  | nil | cons hunk hunks => rfl

theorem touched_subset_applyHunk (faults : Faults) (affected : AffectedPaths) (hunk : Hunk)
    (world : World) :
    world.touched ⊆ (finalState (applyHunk faults cwd affected hunk world)).touched := by
  obtain ⟨extra, touched, _⟩ := @touched_applyHunk faults cwd world affected hunk
  rw [touched]
  exact List.subset_append_left _ _

/-- A run touches exactly what its hunks touch when it comes to them, up to files that a hunk names
in its header. -/
theorem mem_touchedFiles_iff {faults : Faults} {hunks : List Hunk} {path : Path}
    (foreign : ∀ hunk ∈ hunks, resolve cwd hunk.path ≠ path) :
    path ∈ touchedFiles faults cwd files hunks ↔
      ∃ world source dest chunks,
        Reaches faults cwd files hunks world (.updateFile source (some dest) chunks) ∧
        Moves faults cwd world source dest chunks ∧ resolve cwd dest = path := by
  rw [touchedFiles_eq]
  constructor
  · intro member
    obtain ⟨before, hunk, after, affected, world, split, ran, absent, present⟩ :=
      exists_step_of_mem_foldlM member (List.not_mem_nil)
    obtain ⟨extra, touched, within, _⟩ := @touched_applyHunk faults cwd world affected hunk
    have inExtra : path ∈ extra := by
      rw [touched, List.mem_append] at present
      exact present.resolve_left absent
    rcases within path inExtra with own | ⟨source, dest, chunks, rfl, moves, isDest⟩
    · exact absurd own.symm (foreign hunk (by simp [split]))
    · exact ⟨world, source, dest, chunks, ⟨before, after, affected, split, ran⟩, moves, isDest.symm⟩
  · rintro ⟨world, source, dest, chunks, ⟨before, after, affected, split, ran⟩, moves, rfl⟩
    obtain ⟨extra, touched, _, moved⟩ := @touched_applyHunk faults cwd world affected
      (.updateFile source (some dest) chunks)
    have atStep : resolve cwd dest ∈ (finalState (applyHunk faults cwd affected
        (.updateFile source (some dest) chunks) world)).touched := by
      rw [touched]
      exact List.mem_append_right _ (moved source dest chunks rfl moves)
    rw [split]
    exact log_step_subset_foldlM (touched_subset_applyHunk faults) ran atStep

theorem path_eq_of_resembles {left right : Hunk} (resembles : left.Resembles right) :
    right.path = left.path := by
  cases left <;> cases right <;> simp_all [Hunk.Resembles, Hunk.path]

/-- Every header of the second reading is one of the first. -/
theorem exists_header_of_resembles {first again : List Hunk} {path : Path}
    (resembles : List.Forall₂ Hunk.Resembles first again)
    (named : ∃ hunk ∈ again, resolve cwd hunk.path = path) :
    ∃ hunk ∈ first, resolve cwd hunk.path = path := by
  have headers : again.map Hunk.path = first.map Hunk.path := by
    clear named
    induction resembles with
    | nil => rfl
    | cons head _ ih => simp [path_eq_of_resembles head, ih]
  obtain ⟨hunk, member, isPath⟩ := named
  have inFirst : hunk.path ∈ first.map Hunk.path := headers ▸ List.mem_map_of_mem member
  obtain ⟨original, inside, samePath⟩ := List.mem_map.mp inFirst
  exact ⟨original, inside, samePath ▸ isPath⟩

/-- Every move that the run comes to and opens goes to a file that the hunks leave in the
changes. -/
def MovesRecorded (faults : Faults) (cwd : PathBuf) (files : Files) (first again : List Hunk) :
    Prop :=
  ∀ world source dest chunks,
    Reaches faults cwd files again world (.updateFile source (some dest) chunks) →
    Moves faults cwd world source dest chunks → Recorded cwd first (resolve cwd dest)

theorem changes_name_touched_iff {first again : List Hunk} {changes : Changes}
    (checked : verifyHunks unifiedDiff files cwd first ∅ = .ok changes)
    (resembles : List.Forall₂ Hunk.Resembles first again) (faults : Faults) :
    (∀ path ∈ touchedFiles faults cwd files again, changes.Names path) ↔
      MovesRecorded faults cwd files first again := by
  constructor
  · intro covered world source dest chunks reaches moves
    by_cases foreign : ∀ hunk ∈ again, resolve cwd hunk.path ≠ resolve cwd dest
    · apply (names_iff_recorded checked).mp
      apply covered
      exact (mem_touchedFiles_iff foreign).mpr ⟨world, source, dest, chunks, reaches, moves, rfl⟩
    · push Not at foreign
      exact .inl (exists_header_of_resembles resembles foreign)
  · intro recorded path touched
    apply (names_iff_recorded checked).mpr
    by_cases foreign : ∀ hunk ∈ again, resolve cwd hunk.path ≠ path
    · obtain ⟨world, source, dest, chunks, reaches, moves, rfl⟩ :=
        (mem_touchedFiles_iff foreign).mp touched
      exact recorded world source dest chunks reaches moves
    · push Not at foreign
      exact .inl (exists_header_of_resembles resembles foreign)

/-- The stored patch of an action is read with the hunks that were checked, up to carriage
returns. -/
theorem exists_again_of_verified
    (verified : maybeParseApplyPatchVerified query unifiedDiff files argv cwd = .body action) :
    ∃ args again, maybeParseApplyPatch query argv = .body args ∧
      parsePatch action.patch = .ok again ∧
      verifyHunks unifiedDiff files action.cwd args.hunks ∅ = .ok action.changes ∧
      List.Forall₂ Hunk.Resembles args.hunks again.hunks := by
  obtain ⟨args, parsed, samePatch, checked⟩ := exists_args_of_verified verified
  obtain ⟨patch, first, parsedFirst, firstPatch, firstHunks⟩ := exists_parsePatch parsed
  obtain ⟨again, parsedAgain, resembles⟩ := parsePatch_stored parsedFirst
  rw [firstPatch, ← samePatch] at parsedAgain
  rw [firstHunks] at resembles
  exact ⟨args, again, parsed, parsedAgain, checked, resembles⟩

/-- The changes of a verified patch name every file that applying the stored patch touches exactly
when every move that the run comes to and opens goes to a file that the hunks leave in the changes:
one in the header of a hunk, or the destination of a hunk that no later hunk of the same file
replaces. -/
theorem changes_cover_touched_iff
    (verified : maybeParseApplyPatchVerified query unifiedDiff files argv cwd = .body action)
    (faults : Faults) :
    ∃ args again, maybeParseApplyPatch query argv = .body args ∧
      parsePatch action.patch = .ok again ∧
      ((∀ path ∈ touchedFiles faults action.cwd files again.hunks, action.changes.Names path) ↔
        MovesRecorded faults action.cwd files args.hunks again.hunks) := by
  obtain ⟨args, again, parsed, parsedAgain, checked, resembles⟩ :=
    exists_again_of_verified verified
  exact ⟨args, again, parsed, parsedAgain, changes_name_touched_iff checked resembles faults⟩

/-- A file is moved, and its old path is used for a new file. -/
def movedAndAddedPatch : Text :=
  ("*** Begin Patch\n*** Update File: a\n*** Move to: b\n@@\n-x\n+y\n".toList ++
    "*** Add File: a\n+z\n*** End Patch".toList)

/-- The hunks of that patch. -/
def movedAndAddedHunks : List Hunk :=
  [.updateFile ['a'] (some ['b']) [⟨none, [['x']], [['y']], false⟩], .addFile ['a'] ['z', '\n']]

theorem changes_cover_touched_iff_small :
    ∃ args again, maybeParseApplyPatch noQuery ["apply_patch".toList, movedAndAddedPatch] =
        .body args ∧ parsePatch movedAndAddedPatch = .ok again ∧
      ((∀ path ∈ touchedFiles .never "/w".toList smallFiles again.hunks,
          Changes.Names (AList.insert [.rootDir, .normal ['w'], .normal ['a']]
            (.add ['z', '\n']) ∅) path) ↔
        MovesRecorded .never "/w".toList smallFiles args.hunks again.hunks) :=
  @changes_cover_touched_iff noQuery noDiff smallFiles ["apply_patch".toList, movedAndAddedPatch]
    "/w".toList
    { changes := AList.insert [.rootDir, .normal ['w'], .normal ['a']] (.add ['z', '\n']) ∅
      patch := movedAndAddedPatch
      cwd := "/w".toList } (by rfl) .never

/-- The destination of the move is written and named nowhere in the changes. -/
theorem changes_miss_moved_destination :
    ¬ ∀ query unifiedDiff files argv cwd action,
      maybeParseApplyPatchVerified query unifiedDiff files argv cwd = .body action →
      ∀ faults again, parsePatch action.patch = .ok again →
        ∀ path ∈ touchedFiles faults action.cwd files again.hunks, action.changes.Names path := by
  intro covered
  have named := covered noQuery noDiff smallFiles ["apply_patch".toList, movedAndAddedPatch]
    "/w".toList
    { changes := AList.insert [.rootDir, .normal ['w'], .normal ['a']] (.add ['z', '\n']) ∅
      patch := movedAndAddedPatch
      cwd := "/w".toList } (by rfl) .never
    { patch := movedAndAddedPatch, hunks := movedAndAddedHunks, workdir := none } (by rfl)
    [.rootDir, .normal ['w'], .normal ['b']] (by decide)
  rcases named with isKey | ⟨key, diff, dest, newContent, found, _⟩
  · rcases (AList.mem_insert _).mp isKey with same | inEmpty
    · revert same
      decide
    · exact absurd inEmpty (AList.notMem_empty _)
  · by_cases same : key = [.rootDir, .normal ['w'], .normal ['a']]
    · rw [same, AList.lookup_insert] at found
      cases found
    · rw [AList.lookup_insert_ne same] at found
      cases found

end Coverage
end CodexPilot.ApplyPatch
