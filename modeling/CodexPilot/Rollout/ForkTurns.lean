import CodexPilot.Rollout.Truncation

/-!
# The last turns of a fork

The positions that are read off a rollout are those of the turns in its history.  What is recorded
from such a turn on does not depend on what was before it, so a rollout that is cut there leaves the
end of the history.
-/

namespace CodexPilot.Rollout

open RustStd ContextManager

variable {Data : Type} {readers : ForkReaders} {materials : Materials Data}

/-- The turns of a fork are turns that a rollback counts. -/
theorem isUserTurnBoundary_of_isForkTurnBoundary {item : ResponseItem Data}
    (fork : isForkTurnBoundary readers item = true) :
    isUserTurnBoundary readers.readers item = true := by
  rw [isForkTurnBoundary, Bool.or_eq_true] at fork
  obtain real | trigger := fork
  · exact isUserTurnBoundary_of_isRealUserMessageBoundary real
  · cases item with
    | message role content data =>
        rw [isTriggerTurnBoundary, Bool.and_eq_true, Option.any_eq_true] at trigger
        obtain ⟨assistant, communication, found, _⟩ := trigger
        have instruction : isInterAgentInstructionContent readers.readers content = true := by
          unfold InterAgentCommunication.fromMessageContent at found
          split at found
          · exact Option.isSome_iff_exists.mpr ⟨communication, found⟩
          · exact Option.isSome_iff_exists.mpr ⟨communication, found⟩
          · cases found
        rw [isUserTurnBoundary, assistant, instruction, Bool.and_self, Bool.or_true]
    | _ => cases trigger

/-! ## Positions -/

section Positions

variable {boundaryReaders : Readers} {kind : ResponseItem Data → Bool}
  {survivors : List (ℕ × ResponseItem Data)}

theorem positionsOf_append (left right : List (ℕ × ResponseItem Data)) :
    positionsOf kind (left ++ right) = positionsOf kind left ++ positionsOf kind right := by
  rw [positionsOf, List.filter_append, List.map_append]
  rfl

theorem positionsOf_record
    (turns : ∀ item, kind item = true → isUserTurnBoundary boundaryReaders item = true)
    (item : ResponseItem Data) (idx : ℕ) :
    positionsOf kind (survivors ++ (recorded materials item).map (idx, ·)) =
      positionsOf kind survivors ++ if kind item then [idx] else [] := by
  have sameKind : (kind ∘ Prod.snd) ∘ (idx, ·) = kind := rfl
  rw [positionsOf_append, List.append_cancel_left_eq, positionsOf, List.filter_map, sameKind,
    filter_recorded turns]
  split_ifs <;> rfl

theorem positionsOf_cons {survivor : ℕ × ResponseItem Data} (isKind : kind survivor.2 = true) :
    positionsOf kind (survivor :: survivors) = survivor.1 :: positionsOf kind survivors := by
  have isKind' : (kind ∘ Prod.snd) survivor = true := isKind
  rw [positionsOf, List.filter_cons_of_pos isKind']
  rfl

/-- Of a kind of turns, a rollback leaves what is before the cut. -/
theorem positionsOf_dropLast
    (turns : ∀ item, kind item = true → isUserTurnBoundary boundaryReaders item = true)
    (count : ℕ) :
    positionsOf kind (Turns.dropLast (isUserTurnBoundary boundaryReaders ∘ Prod.snd)
        (isInjectedContext boundaryReaders ∘ Prod.snd) count survivors) =
      positionsOf kind
        (Turns.beforeLast (isUserTurnBoundary boundaryReaders ∘ Prod.snd) count survivors) := by
  rw [positionsOf, Turns.filter_dropLast_eq]
  · rfl
  · intro survivor context
    refine eq_false_of_ne_true fun isKind => ?_
    have noTurn := not_boundary_of_isInjectedContext survivor.2 context
    cases noTurn.symm.trans (turns survivor.2 isKind)

end Positions

/-! ## Reading the positions off the rollout -/

/-- The positions are those of the turns among the survivors. -/
structure Tracked (readers : ForkReaders) (survivors : List (ℕ × ResponseItem Data))
    (positions : TurnPositions) : Prop where
  rollback : positions.rollbackTurnPositions =
    positionsOf (isUserTurnBoundary readers.readers) survivors
  fork : positions.forkTurnPositions = positionsOf (isForkTurnBoundary readers) survivors

/-- The position at which a rollback starts is the one after those that are left. -/
theorem rollbackStart_eq {positions front back : List ℕ} {start numTurns : ℕ}
    (split : positions = front ++ start :: back)
    (left : front.length = positions.length - numTurns) :
    (if numTurns ≤ positions.length then positions[positions.length - numTurns]? else none).or
      positions.head? = some start := by
  rw [← left]
  split_ifs with within
  · rw [split, List.getElem?_append_right le_rfl, Nat.sub_self]
    rfl
  · obtain rfl := List.length_eq_zero_iff.mp (left.trans (Nat.sub_eq_zero_of_le (by omega)))
    rw [split]
    rfl

theorem tracked_rollback {survivors : List (ℕ × ResponseItem Data)} {positions : TurnPositions}
    (increasing : survivors.Pairwise fun earlier later => earlier.1 < later.1)
    (tracked : Tracked readers survivors positions) (numTurns idx : ℕ) :
    Tracked readers
      (Turns.dropLast (isUserTurnBoundary readers.readers ∘ Prod.snd)
        (isInjectedContext readers.readers ∘ Prod.snd) numTurns survivors) (positions.step readers
        ((.eventMsg (.threadRolledBack numTurns) : RolloutItem Data), idx)) := by
  have lengths : positions.rollbackTurnPositions.length =
      survivors.countP (isUserTurnBoundary readers.readers ∘ Prod.snd) := by
    rw [tracked.rollback, positionsOf, List.length_map, List.countP_eq_length_filter]
  obtain rfl | positive := Nat.eq_zero_or_pos numTurns
  · rw [Turns.dropLast_zero]
    exact tracked
  obtain none | some := Nat.eq_zero_or_pos
    (survivors.countP (isUserTurnBoundary readers.readers ∘ Prod.snd))
  · have empty : positions.rollbackTurnPositions = [] :=
      List.length_eq_zero_iff.mp (lengths.trans none)
    have unchanged : positions.step readers
        ((.eventMsg (.threadRolledBack numTurns) : RolloutItem Data), idx) = positions := by
      simp [TurnPositions.step, empty]
    rw [unchanged, Turns.dropLast, if_pos (.inr (none ▸ Nat.zero_le _)),
      Turns.beforeLast_of_countP_le (none ▸ Nat.zero_le _), none, Turns.beforeLast_zero]
    exact tracked
  · obtain ⟨turn, back, isTurn, split⟩ := Turns.exists_beforeLast positive some
    have rollback : positions.rollbackTurnPositions =
        positionsOf (isUserTurnBoundary readers.readers) (Turns.beforeLast
          (isUserTurnBoundary readers.readers ∘ Prod.snd) numTurns survivors) ++
          turn.1 :: positionsOf (isUserTurnBoundary readers.readers) back := by
      rw [tracked.rollback, ← positionsOf_cons isTurn, ← positionsOf_append, ← split]
    have frontLength : (positionsOf (isUserTurnBoundary readers.readers) (Turns.beforeLast
        (isUserTurnBoundary readers.readers ∘ Prod.snd) numTurns survivors)).length =
          positions.rollbackTurnPositions.length - numTurns := by
      rw [positionsOf, List.length_map, Turns.filter_beforeLast, List.length_take, lengths,
        List.countP_eq_length_filter]
      omega
    have start := rollbackStart_eq rollback frontLength
    have stepped : positions.step readers
        ((.eventMsg (.threadRolledBack numTurns) : RolloutItem Data), idx) =
        { rollbackTurnPositions := positions.rollbackTurnPositions.take
            (positions.rollbackTurnPositions.length - numTurns)
          forkTurnPositions := positions.forkTurnPositions.filter (· < turn.1) } := by
      rw [TurnPositions.step]
      dsimp only
      rw [if_neg positive.ne', start]
    rw [stepped]
    rw [split] at increasing
    obtain ⟨_, fromTurn, apart⟩ := List.pairwise_append.mp increasing
    constructor
    · rw [positionsOf_dropLast (fun _ => id)]
      dsimp only
      rw [← frontLength, rollback, List.take_left]
    · have whole : positionsOf (isForkTurnBoundary readers) survivors =
          positionsOf (isForkTurnBoundary readers) (Turns.beforeLast
            (isUserTurnBoundary readers.readers ∘ Prod.snd) numTurns survivors) ++
            positionsOf (isForkTurnBoundary readers) (turn :: back) := by
        rw [← positionsOf_append, ← split]
      rw [positionsOf_dropLast fun _ => isUserTurnBoundary_of_isForkTurnBoundary, tracked.fork,
        whole]
      dsimp only
      rw [List.filter_append, List.filter_eq_self.mpr, List.filter_eq_nil_iff.mpr, List.append_nil]
      · intro position member
        obtain ⟨survivor, isSurvivor, rfl⟩ := List.mem_map.mp member
        rw [decide_eq_true_iff, Nat.not_lt]
        obtain rfl | later := List.mem_cons.mp (List.mem_of_mem_filter isSurvivor)
        · exact le_rfl
        · exact (List.rel_of_pairwise_cons fromTurn later).le
      · intro position member
        obtain ⟨survivor, isSurvivor, rfl⟩ := List.mem_map.mp member
        exact decide_eq_true
          (apart survivor (List.mem_of_mem_filter isSurvivor) turn List.mem_cons_self)

theorem tracked_step {survivors : List (ℕ × ResponseItem Data)} {positions : TurnPositions}
    (increasing : survivors.Pairwise fun earlier later => earlier.1 < later.1)
    (tracked : Tracked readers survivors positions) (item : RolloutItem Data) (idx : ℕ) :
    Tracked readers (survivorStep readers.readers materials survivors (item, idx))
      (positions.step readers (item, idx)) := by
  cases item with
  | responseItem item =>
      rw [survivorStep_record]
      constructor
      · rw [positionsOf_record (fun _ => id), ← tracked.rollback, TurnPositions.step]
        split_ifs <;> simp [*]
      · rw [positionsOf_record fun _ => isUserTurnBoundary_of_isForkTurnBoundary, ← tracked.fork,
          TurnPositions.step]
        split_ifs <;> simp [*]
  | eventMsg event =>
      cases event with
      | threadRolledBack numTurns =>
          rw [survivorStep_rollback]
          exact tracked_rollback increasing tracked numTurns idx
      | _ => exact tracked
  | _ => exact tracked

/-- Reading the rollout, the positions stay those of the turns in the history. -/
theorem tracked_run (readers : ForkReaders) (materials : Materials Data)
    (items : List (RolloutItem Data)) :
    Enumerated materials items.zipIdx items.length (survivors readers.readers materials items) ∧
      Tracked readers (survivors readers.readers materials items)
        (items.zipIdx.foldl (TurnPositions.step readers) ⟨[], []⟩) := by
  have rounds : Enumerated materials items.zipIdx (0 + items.length)
        (survivors readers.readers materials items) ∧
      Tracked readers (survivors readers.readers materials items)
        (items.zipIdx.foldl (TurnPositions.step readers) ⟨[], []⟩) := by
    refine foldl_enumerate_rel (fun idx survivors positions =>
      Enumerated materials items.zipIdx idx survivors ∧ Tracked readers survivors positions)
      (fun item idx member survivors positions related => ?_) ?_
    · exact ⟨enumerated_step member related.1,
        tracked_step related.1.increasing related.2 item idx⟩
    · exact ⟨⟨List.Pairwise.nil, by simp, by simp⟩, ⟨rfl, rfl⟩⟩
  rwa [Nat.zero_add] at rounds

/-! ## Cutting the rollout -/

/-- From a turn that stays on, the survivors are those of the cut rollout; or the turn is dropped.
-/
def CutAt (kept : List (ℕ × ResponseItem Data)) (turn : ℕ × ResponseItem Data) (idx : ℕ)
    (whole suffix : List (ℕ × ResponseItem Data)) : Prop :=
  turn.1 < idx ∧ ((∃ rest, whole = kept ++ turn :: rest ∧ suffix = turn :: rest) ∨
    turn.1 ∉ whole.map Prod.fst)

/-- A step adds survivors at its own position only. -/
theorem mem_survivorStep {boundaryReaders : Readers} {whole : List (ℕ × ResponseItem Data)}
    {item : RolloutItem Data} {idx : ℕ} {survivor : ℕ × ResponseItem Data}
    (member : survivor ∈ survivorStep boundaryReaders materials whole (item, idx)) :
    survivor ∈ whole ∨ survivor.1 = idx := by
  cases item with
  | responseItem item =>
      rw [survivorStep_record, List.mem_append, List.mem_map] at member
      obtain old | ⟨_, _, rfl⟩ := member
      · exact .inl old
      · exact .inr rfl
  | eventMsg event =>
      cases event with
      | threadRolledBack numTurns =>
          rw [survivorStep_rollback] at member
          exact .inl ((Turns.dropLast_prefix numTurns whole).subset member)
      | _ => exact .inl member
  | _ => exact .inl member

theorem cutAt_step {boundaryReaders : Readers} {kept whole suffix : List (ℕ × ResponseItem Data)}
    {turn : ℕ × ResponseItem Data} {item : RolloutItem Data} {idx : ℕ}
    (isTurn : isUserTurnBoundary boundaryReaders turn.2 = true)
    (earlier : turn.1 ∉ kept.map Prod.fst) (cut : CutAt kept turn idx whole suffix) :
    CutAt kept turn (idx + 1) (survivorStep boundaryReaders materials whole (item, idx))
      (survivorStep boundaryReaders materials suffix (item, idx)) := by
  obtain ⟨before, stays | dropped⟩ := cut
  · obtain ⟨rest, rfl, rfl⟩ := stays
    refine ⟨Nat.lt_succ_of_lt before, ?_⟩
    cases item with
    | responseItem item =>
        refine .inl ⟨rest ++ (recorded materials item).map (idx, ·), ?_, ?_⟩
        · rw [survivorStep_record, List.append_assoc, List.cons_append]
        · rw [survivorStep_record, List.cons_append]
    | eventMsg event =>
        cases event with
        | threadRolledBack numTurns =>
            rw [survivorStep_rollback, survivorStep_rollback]
            have noContext : ¬ isInjectedContext boundaryReaders turn.2 = true := fun context =>
              Bool.false_ne_true ((not_boundary_of_isInjectedContext _ context).symm.trans isTurn)
            obtain few | many := Nat.lt_or_ge
              (rest.countP (isUserTurnBoundary boundaryReaders ∘ Prod.snd)) numTurns
            · refine .inr fun member => earlier ?_
              have inKept : Turns.dropLast (isUserTurnBoundary boundaryReaders ∘ Prod.snd)
                  (isInjectedContext boundaryReaders ∘ Prod.snd) numTurns (kept ++ turn :: rest) <+:
                    kept := Turns.dropLast_append_prefix isTurn few
              exact (inKept.sublist.map Prod.fst).subset member
            · obtain ⟨left, same⟩ : ∃ left, ∀ kept,
                  Turns.dropLast (isUserTurnBoundary boundaryReaders ∘ Prod.snd)
                    (isInjectedContext boundaryReaders ∘ Prod.snd) numTurns (kept ++ turn :: rest) =
                      kept ++ turn :: left := Turns.dropLast_append isTurn noContext many
              exact .inl ⟨left, same kept, same []⟩
        | _ => exact .inl ⟨rest, rfl, rfl⟩
    | _ => exact .inl ⟨rest, rfl, rfl⟩
  · refine ⟨Nat.lt_succ_of_lt before, .inr fun member => ?_⟩
    obtain ⟨survivor, isSurvivor, same⟩ := List.mem_map.mp member
    obtain old | new := mem_survivorStep isSurvivor
    · exact dropped (List.mem_map.mpr ⟨survivor, old, same⟩)
    · exact before.ne (same.symm.trans new)

/-- A rollout that is cut at a turn leaves the survivors from that turn on. -/
theorem survivors_cut {boundaryReaders : Readers} {items : List (RolloutItem Data)}
    {turn : ℕ × ResponseItem Data}
    (enumerated : ∀ items : List (RolloutItem Data), Enumerated materials items.zipIdx items.length
      (survivors boundaryReaders materials items))
    (member : turn ∈ survivors boundaryReaders materials items)
    (isTurn : isUserTurnBoundary boundaryReaders turn.2 = true) :
    ∃ kept rest, survivors boundaryReaders materials items = kept ++ turn :: rest ∧
      survivorsFrom boundaryReaders materials turn.1 (items.drop turn.1) = turn :: rest := by
  obtain ⟨item, isEntry, isRecorded⟩ := (enumerated items).origin turn member
  have found : items[turn.1]? = some (.responseItem item) :=
    List.mk_mem_zipIdx_iff_getElem?.mp isEntry
  obtain ⟨inside, isItem⟩ := List.getElem?_eq_some_iff.mp found
  have tail : items.drop turn.1 = .responseItem item :: items.drop (turn.1 + 1) := by
    rw [List.drop_eq_getElem_cons inside, isItem]
  have one : (recorded materials item).map (turn.1, ·) = [turn] := by
    obtain none | one := recorded_eq_nil_or materials item
    · rw [none] at isRecorded
      cases isRecorded
    · rw [one, List.mem_singleton] at isRecorded
      rw [one, ← isRecorded]
      rfl
  have length : (items.take turn.1).length = turn.1 := by
    rw [List.length_take, Nat.min_eq_left inside.le]
  have earlier :
      turn.1 ∉ (survivors boundaryReaders materials (items.take turn.1)).map Prod.fst := by
    intro same
    obtain ⟨survivor, isSurvivor, same⟩ := List.mem_map.mp same
    have below := (enumerated (items.take turn.1)).below survivor isSurvivor
    rw [length, same] at below
    exact Nat.lt_irrefl _ below
  -- Both rollouts are the same from the turn on.
  have cut : CutAt (survivors boundaryReaders materials (items.take turn.1)) turn
      (turn.1 + 1 + (items.drop (turn.1 + 1)).length)
      (survivors boundaryReaders materials items)
      (survivorsFrom boundaryReaders materials turn.1 (items.drop turn.1)) := by
    have whole : survivors boundaryReaders materials items =
        ((items.drop (turn.1 + 1)).zipIdx (turn.1 + 1)).foldl
          (survivorStep boundaryReaders materials)
          (survivors boundaryReaders materials (items.take turn.1) ++ [turn]) := by
      conv_lhs => rw [survivors, survivorsFrom, ← List.take_append_drop turn.1 items,
        List.zipIdx_append, length, tail, List.zipIdx_cons, List.foldl_append, List.foldl_cons,
        Nat.zero_add, survivorStep_record, one]
      rfl
    rw [whole, tail, survivorsFrom, List.zipIdx_cons, List.foldl_cons, survivorStep_record, one]
    refine foldl_enumerate_rel
      (CutAt (survivors boundaryReaders materials (items.take turn.1)) turn) ?_ ?_
    · exact fun item idx _ whole suffix cut => cutAt_step isTurn earlier cut
    · exact ⟨Nat.lt_succ_self _, .inl ⟨[], rfl, rfl⟩⟩
  obtain ⟨_, ⟨rest, whole, suffix⟩ | dropped⟩ := cut
  · exact ⟨_, rest, whole, suffix⟩
  · exact absurd (List.mem_map_of_mem member) dropped

theorem length_positionsOf (kind : ResponseItem Data → Bool)
    (survivors : List (ℕ × ResponseItem Data)) :
    (positionsOf kind survivors).length = (survivors.map Prod.snd).countP kind := by
  rw [positionsOf, List.length_map, List.countP_map, List.countP_eq_length_filter]

/-- From the turn at a position from the end, there are as many. -/
theorem length_from_turn {kind : ResponseItem Data → Bool}
    {kept rest : List (ℕ × ResponseItem Data)} {turn : ℕ × ResponseItem Data} {count : ℕ}
    (increasing : (kept ++ turn :: rest).Pairwise fun earlier later => earlier.1 < later.1)
    (isKind : kind turn.2 = true) (few : count < (positionsOf kind (kept ++ turn :: rest)).length)
    (found : (positionsOf kind (kept ++ turn :: rest))[
      (positionsOf kind (kept ++ turn :: rest)).length - count]? = some turn.1) :
    (positionsOf kind (turn :: rest)).length = count := by
  have distinct : (positionsOf kind (kept ++ turn :: rest)).Nodup :=
    List.pairwise_map.mpr ((increasing.filter _).imp fun lower => lower.ne)
  have split : positionsOf kind (kept ++ turn :: rest) =
      positionsOf kind kept ++ positionsOf kind (turn :: rest) := positionsOf_append kept _
  have here : (positionsOf kind (kept ++ turn :: rest))[(positionsOf kind kept).length]? =
      some turn.1 := by
    rw [split, List.getElem?_append_right le_rfl, Nat.sub_self, positionsOf_cons isKind]
    rfl
  have inside : (positionsOf kind kept).length <
      (positionsOf kind (kept ++ turn :: rest)).length := (List.getElem?_eq_some_iff.mp here).1
  have index := (List.getElem?_inj inside distinct).mp (here.trans found.symm)
  have lengths := congrArg List.length split
  rw [List.length_append] at lengths
  omega

/-- The list from the last turns on, or the whole list when there are no more turns. -/
def KeepsLast (isTurn : ResponseItem Data → Bool) (count : ℕ)
    (history kept : List (ResponseItem Data)) : Prop :=
  (history.countP isTurn ≤ count → kept = history) ∧
    (count < history.countP isTurn → ∃ before turn rest, history = before ++ kept ∧
      kept = turn :: rest ∧ isTurn turn = true ∧ kept.countP isTurn = count)

theorem count_forkTurns (readers : ForkReaders) (materials : Materials Data)
    {items : List (RolloutItem Data)} (kinds : ∀ item ∈ items, item.isCompacted = false) :
    (forkTurnPositionsInRollout readers items).length =
      (replay readers.readers materials items).countP (isForkTurnBoundary readers) := by
  have tracked : forkTurnPositionsInRollout readers items =
      positionsOf (isForkTurnBoundary readers) (survivors readers.readers materials items) :=
    (tracked_run readers materials items).2.fork
  rw [tracked, length_positionsOf, survivors, survivorsFrom_items _ _ 0 kinds]

/-- A truncated rollout leaves exactly the last turns of the history. -/
theorem truncate_keepsLast (readers : ForkReaders) (materials : Materials Data)
    {items : List (RolloutItem Data)} {nFromEnd : ℕ}
    (kinds : ∀ item ∈ items, item.isCompacted = false) (positive : 1 ≤ nFromEnd) :
    KeepsLast (isForkTurnBoundary readers) nFromEnd (replay readers.readers materials items)
      (replay readers.readers materials
        (truncateRolloutToLastNForkTurns readers items nFromEnd)) := by
  have count := count_forkTurns readers materials kinds
  rw [truncateRolloutToLastNForkTurns, if_neg (Nat.one_le_iff_ne_zero.mp positive), count]
  constructor
  · intro few
    rw [if_pos few]
  · intro more
    rw [if_neg more.not_ge]
    obtain ⟨enumerated, tracked⟩ := tracked_run readers materials items
    have inside : (replay readers.readers materials items).countP (isForkTurnBoundary readers) -
        nFromEnd < (forkTurnPositionsInRollout readers items).length := by omega
    have found := List.getElem?_eq_getElem inside
    rw [List.getD_eq_getElem?_getD, found, Option.getD_some]
    have isPosition := List.getElem_mem inside
    generalize (forkTurnPositionsInRollout readers items)[
      (replay readers.readers materials items).countP (isForkTurnBoundary readers) - nFromEnd] =
        position at found isPosition ⊢
    have positions : forkTurnPositionsInRollout readers items =
        positionsOf (isForkTurnBoundary readers) (survivors readers.readers materials items) :=
      tracked.fork
    rw [positions] at isPosition
    obtain ⟨turn, isTurn, rfl⟩ := List.mem_map.mp isPosition
    obtain ⟨member, isFork⟩ := List.mem_filter.mp isTurn
    obtain ⟨kept, rest, whole, suffix⟩ := survivors_cut
      (fun items => (tracked_run readers materials items).1) member
      (isUserTurnBoundary_of_isForkTurnBoundary isFork)
    rw [positions, whole] at found
    rw [positions, whole] at count
    rw [whole] at enumerated
    have length := length_from_turn enumerated.increasing isFork (count ▸ more) (count ▸ found)
    have history := survivorsFrom_items readers.readers materials 0 kinds
    have left := survivorsFrom_items readers.readers materials turn.1
      fun item (inSuffix : item ∈ items.drop turn.1) => kinds item (List.mem_of_mem_drop inSuffix)
    rw [← survivors, whole, List.map_append] at history
    rw [suffix] at left
    refine ⟨kept.map Prod.snd, turn.2, rest.map Prod.snd, ?_, left.symm, isFork, ?_⟩
    · rw [← left, history]
    · rw [← left, ← length_positionsOf, length]

def plainForkReaders : ForkReaders := ⟨fun _ => none, fun _ => none⟩

def plainMaterials : Materials Unit := ⟨id, fun items _ => items⟩

/-- A rollout with a turn that is rolled back. -/
def rolledBackRollout : List (RolloutItem Unit) :=
  [.responseItem sampleMessage, .responseItem sampleMessage, .eventMsg (.threadRolledBack 1),
    .responseItem sampleMessage]

theorem truncate_keepsLast_of_rolledBack :
    KeepsLast (isForkTurnBoundary plainForkReaders) 1
      (replay plainForkReaders.readers plainMaterials rolledBackRollout)
      (replay plainForkReaders.readers plainMaterials
        (truncateRolloutToLastNForkTurns plainForkReaders rolledBackRollout 1)) :=
  truncate_keepsLast plainForkReaders plainMaterials (by decide) le_rfl

end CodexPilot.Rollout
