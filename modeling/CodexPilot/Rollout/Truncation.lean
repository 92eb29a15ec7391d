import CodexPilot.Rollout.Rollback
import CodexPilot.RustStd.Iter

/-!
# Truncating rollouts

A rollout is cut at a turn that still is in the history, before a message of the user or to the last
turns of a fork.  The items of the history keep the order in which they stand in the rollout, and a
rollback drops the last turns among them, so the positions of the turns are read off them.
-/

namespace CodexPilot.Rollout

open RustStd ContextManager

variable {Data : Type}

/-! ## Turns of a fork -/

/-- What is read of an instruction. -/
structure InterAgentCommunication where
  triggerTurn : Bool

/-- What is read by other crates, with the instruction between agents itself. -/
structure ForkReaders where
  hookPromptXml : Text → Option (Text × Text)
  interAgentCommunication : Text → Option InterAgentCommunication

/-- The readers that only tell whether there is an instruction. -/
def ForkReaders.readers (readers : ForkReaders) : Readers where
  hookPromptXml := readers.hookPromptXml
  interAgentCommunication text := (readers.interAgentCommunication text).isSome

section Fork

variable (readers : ForkReaders)

def InterAgentCommunication.fromMessageContent : List ContentItem → Option InterAgentCommunication
  | [.inputText text] | [.outputText text] => readers.interAgentCommunication text
  | _ => none

def isTriggerTurnBoundary : ResponseItem Data → Bool
  | .message role content _ =>
      role == assistantRole &&
        (InterAgentCommunication.fromMessageContent readers content).any (·.triggerTurn)
  | _ => false

/-- A message of the user or an instruction that triggers a turn. -/
def isForkTurnBoundary (item : ResponseItem Data) : Bool :=
  isRealUserMessageBoundary readers.readers item || isTriggerTurnBoundary readers item

/-- The positions of the turns that a rollback counts, and of those of a fork. -/
structure TurnPositions where
  rollbackTurnPositions : List ℕ
  forkTurnPositions : List ℕ

def TurnPositions.step (positions : TurnPositions) (entry : RolloutItem Data × ℕ) : TurnPositions :=
  match entry.1 with
  | .responseItem item =>
      { rollbackTurnPositions :=
          if isUserTurnBoundary readers.readers item then
            positions.rollbackTurnPositions ++ [entry.2]
          else positions.rollbackTurnPositions
        forkTurnPositions :=
          if isForkTurnBoundary readers item then positions.forkTurnPositions ++ [entry.2]
          else positions.forkTurnPositions }
  | .eventMsg (.threadRolledBack numTurns) =>
      let length := positions.rollbackTurnPositions.length
      let rollbackStart :=
        if numTurns ≤ length then positions.rollbackTurnPositions[length - numTurns]? else none
      if numTurns = 0 then positions
      else
        match rollbackStart.or positions.rollbackTurnPositions.head? with
        | none => positions
        | some rollbackStartIdx =>
            { rollbackTurnPositions := positions.rollbackTurnPositions.take (length - numTurns)
              forkTurnPositions := positions.forkTurnPositions.filter (· < rollbackStartIdx) }
  | _ => positions

def forkTurnPositionsInRollout (items : List (RolloutItem Data)) : List ℕ :=
  (items.zipIdx.foldl (TurnPositions.step readers) ⟨[], []⟩).forkTurnPositions

def truncateRolloutToLastNForkTurns (items : List (RolloutItem Data)) (nFromEnd : ℕ) :
    List (RolloutItem Data) :=
  let positions := forkTurnPositionsInRollout readers items
  if nFromEnd = 0 then []
  else if positions.length ≤ nFromEnd then items
  else items.drop (positions.getD (positions.length - nFromEnd) 0)

end Fork

/-! ## Messages of the user -/

section Messages

variable (readers : Readers)

def userPositionsStep (positions : List ℕ) (entry : RolloutItem Data × ℕ) : List ℕ :=
  match entry.1 with
  | .responseItem item =>
      if isRealUserMessageBoundary readers item then positions ++ [entry.2] else positions
  | .eventMsg (.threadRolledBack numTurns) => positions.take (positions.length - numTurns)
  | _ => positions

def userMessagePositionsInRollout (items : List (RolloutItem Data)) : List ℕ :=
  items.zipIdx.foldl (userPositionsStep readers) []

def usizeMax : ℕ := 18446744073709551615

def truncateRolloutBeforeNthUserMessageFromStart (items : List (RolloutItem Data))
    (nFromStart : ℕ) : List (RolloutItem Data) :=
  let positions := userMessagePositionsInRollout readers items
  if nFromStart = usizeMax then items
  else if positions.length ≤ nFromStart then items
  else items.take (positions.getD nFromStart 0)

end Messages

/-! ## The history -/

section Replay

variable (readers : Readers) (materials : Materials Data)

/-- Record the items, and drop turns at the rollbacks. -/
def replay (items : List (RolloutItem Data)) : List (ResponseItem Data) :=
  (items.foldl (forwardStep readers materials) (History.new, false)).1.items

/-- Without compactions it is the history of the resumed thread. -/
theorem replay_eq_reconstruct {items : List (RolloutItem Data)}
    (kinds : ∀ item ∈ items, item.isCompacted = false) :
    (reconstructHistoryFromRollout readers materials items).history =
      replay readers materials items :=
  history_of_uncompacted kinds

/-- The items of the history with their positions in the rollout; a rollback keeps as many of them
as it keeps in the history. -/
def survivorStep (survivors : List (ℕ × ResponseItem Data)) (entry : RolloutItem Data × ℕ) :
    List (ℕ × ResponseItem Data) :=
  match entry.1 with
  | .responseItem item =>
      survivors ++ ((History.new.recordItems materials.truncate [item]).items.map (entry.2, ·))
  | .eventMsg (.threadRolledBack numTurns) =>
      let history : History Data := ⟨survivors.map Prod.snd, none⟩
      survivors.take (history.dropLastNUserTurns readers numTurns).items.length
  | _ => survivors

def survivorsFrom (start : ℕ) (items : List (RolloutItem Data)) : List (ℕ × ResponseItem Data) :=
  (items.zipIdx start).foldl (survivorStep readers materials) []

def survivors (items : List (RolloutItem Data)) : List (ℕ × ResponseItem Data) :=
  survivorsFrom readers materials 0 items

end Replay

/-! ## The items that are left after the rollbacks -/

variable {readers : Readers} {materials : Materials Data}

/-- What is recorded of an item. -/
def recorded (materials : Materials Data) (item : ResponseItem Data) : List (ResponseItem Data) :=
  (History.new.recordItems materials.truncate [item]).items

theorem recorded_eq_nil_or (materials : Materials Data) (item : ResponseItem Data) :
    recorded materials item = [] ∨
      recorded materials item = [processItem materials.truncate item] := by
  rw [recorded, History.recordItems, History.new, List.nil_append, List.filter_cons]
  split_ifs
  · exact .inr rfl
  · exact .inl rfl

/-- Of a kind of turns, an item is recorded as it is, and nothing else is. -/
theorem filter_recorded {kind : ResponseItem Data → Bool}
    (turns : ∀ item, kind item = true → isUserTurnBoundary readers item = true)
    (item : ResponseItem Data) :
    (recorded materials item).filter kind = if kind item then [item] else [] := by
  cases isKind : kind item with
  | true =>
      obtain ⟨api, same⟩ := recorded_of_isUserTurnBoundary materials.truncate (turns item isKind)
      have kept : recorded materials item = [item] := by
        simp [recorded, History.recordItems, History.new, api, same]
      rw [kept, List.filter_cons_of_pos isKind, List.filter_nil, if_pos rfl]
  | false =>
      rw [if_neg Bool.false_ne_true, List.filter_eq_nil_iff]
      intro copy member isKind'
      obtain none | one := recorded_eq_nil_or materials item
      · rw [none] at member
        cases member
      · rw [one, List.mem_singleton] at member
        subst member
        have boundary := turns _ isKind'
        rw [isUserTurnBoundary_processItem] at boundary
        obtain ⟨_, same⟩ := recorded_of_isUserTurnBoundary materials.truncate boundary
        rw [same, isKind] at isKind'
        cases isKind'

/-! ## Steps -/

theorem survivorStep_record (survivors : List (ℕ × ResponseItem Data)) (item : ResponseItem Data)
    (idx : ℕ) :
    survivorStep readers materials survivors (.responseItem item, idx) =
      survivors ++ (recorded materials item).map (idx, ·) :=
  rfl

/-- A rollback drops the last turns of what is left. -/
theorem survivorStep_rollback (survivors : List (ℕ × ResponseItem Data)) (numTurns idx : ℕ) :
    survivorStep readers materials survivors (.eventMsg (.threadRolledBack numTurns), idx) =
      Turns.dropLast (isUserTurnBoundary readers ∘ Prod.snd)
        (isInjectedContext readers ∘ Prod.snd) numTurns survivors := by
  rw [survivorStep]
  dsimp only
  rw [dropLastNUserTurns_items, Turns.dropLast_map, List.length_map]
  exact (List.prefix_iff_eq_take.mp (Turns.dropLast_prefix numTurns survivors)).symm

/-- Without their positions, the survivors are the history. -/
theorem survivorsFrom_items (readers : Readers) (materials : Materials Data)
    {items : List (RolloutItem Data)} (start : ℕ)
    (kinds : ∀ item ∈ items, item.isCompacted = false) :
    (survivorsFrom readers materials start items).map Prod.snd =
      replay readers materials items := by
  have enumerated : items = (items.zipIdx start).map Prod.fst := by simp
  have rounds : (survivorsFrom readers materials start items).map Prod.snd =
      ((items.zipIdx start).foldl
        (fun state entry => forwardStep readers materials state entry.1)
        ((History.new, false) : History Data × Bool)).1.items := by
    refine foldl_enumerate_rel
      (fun _ (survivors : List (ℕ × ResponseItem Data)) (state : History Data × Bool) =>
        survivors.map Prod.snd = state.1.items) ?_ rfl
    intro item idx member survivors state same
    cases item with
    | responseItem item =>
        rw [survivorStep_record, List.map_append, same, List.map_map]
        exact congrArg (state.1.items ++ ·) (List.map_id _)
    | compacted compacted => cases kinds _ (List.fst_mem_of_mem_zipIdx member)
    | eventMsg event =>
        cases event with
        | threadRolledBack numTurns =>
            rw [survivorStep_rollback, ← Turns.dropLast_map, same]
            exact (dropLastNUserTurns_items state.1 numTurns).symm
        | _ => exact same
    | _ => exact same
  rw [rounds, replay]
  conv_rhs => rw [enumerated, List.foldl_map]

/-! ## Positions -/

/-- The positions of the survivors of a kind. -/
def positionsOf (kind : ResponseItem Data → Bool) (survivors : List (ℕ × ResponseItem Data)) :
    List ℕ :=
  (survivors.filter (kind ∘ Prod.snd)).map Prod.fst

/-- The survivors are in order, and each is recorded of the item at its position. -/
structure Enumerated (materials : Materials Data) (entries : List (RolloutItem Data × ℕ)) (idx : ℕ)
    (survivors : List (ℕ × ResponseItem Data)) : Prop where
  increasing : survivors.Pairwise fun earlier later => earlier.1 < later.1
  below : ∀ survivor ∈ survivors, survivor.1 < idx
  origin : ∀ survivor ∈ survivors, ∃ item, (.responseItem item, survivor.1) ∈ entries ∧
    survivor.2 ∈ recorded materials item

theorem Enumerated.sublist {entries : List (RolloutItem Data × ℕ)} {idx : ℕ}
    {survivors fewer : List (ℕ × ResponseItem Data)}
    (enumerated : Enumerated materials entries idx survivors) (part : fewer.Sublist survivors) :
    Enumerated materials entries (idx + 1) fewer where
  increasing := enumerated.increasing.sublist part
  below survivor member := Nat.lt_succ_of_lt (enumerated.below survivor (part.subset member))
  origin survivor member := enumerated.origin survivor (part.subset member)

theorem enumerated_step {entries : List (RolloutItem Data × ℕ)} {item : RolloutItem Data} {idx : ℕ}
    {survivors : List (ℕ × ResponseItem Data)} (member : (item, idx) ∈ entries)
    (enumerated : Enumerated materials entries idx survivors) :
    Enumerated materials entries (idx + 1)
      (survivorStep readers materials survivors (item, idx)) := by
  have idle := enumerated.sublist (List.Sublist.refl survivors)
  cases item with
  | responseItem item =>
      rw [survivorStep_record]
      obtain none | one := recorded_eq_nil_or materials item
      · rw [none, List.map_nil, List.append_nil]
        exact idle
      · have isLast : ∀ survivor ∈ survivors ++ (recorded materials item).map (idx, ·),
            survivor ∈ survivors ∨ survivor = (idx, processItem materials.truncate item) := by
          intro survivor inEither
          rw [one, List.map_singleton] at inEither
          exact (List.mem_append.mp inEither).imp_right List.mem_singleton.mp
        constructor
        · rw [one, List.map_singleton, List.pairwise_append]
          refine ⟨enumerated.increasing, List.pairwise_singleton _ _, ?_⟩
          intro earlier isEarlier later isLater
          rw [List.mem_singleton.mp isLater]
          exact enumerated.below earlier isEarlier
        · intro survivor inEither
          obtain old | rfl := isLast survivor inEither
          · exact idle.below survivor old
          · exact Nat.lt_succ_self idx
        · intro survivor inEither
          obtain old | rfl := isLast survivor inEither
          · exact enumerated.origin survivor old
          · exact ⟨item, member, one ▸ List.mem_singleton_self _⟩
  | eventMsg event =>
      cases event with
      | threadRolledBack numTurns =>
          rw [survivorStep_rollback]
          exact enumerated.sublist (Turns.dropLast_prefix numTurns survivors).sublist
      | _ => exact idle
  | _ => exact idle

end CodexPilot.Rollout
