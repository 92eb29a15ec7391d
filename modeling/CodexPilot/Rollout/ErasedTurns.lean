import CodexPilot.Rollout.ForkTurns
import CodexPilot.Rollout.Spans

/-!
# Turns that have been rolled back

Resuming a rollout gives what the turns that stand would give without the others, as long as the
newest compaction stands and each cut leaves what is below it.
-/

namespace CodexPilot.Rollout

open RustStd ContextManager

variable {Data : Type} {readers : Readers} {materials : Materials Data}

/-! ## What turns leave -/

/-- What is recorded of some items. -/
def recordedAll (materials : Materials Data) (items : List (ResponseItem Data)) :
    List (ResponseItem Data) :=
  items.flatMap (recorded materials)

namespace ClosedTurn

/-- What is recorded of a turn up to its compaction. -/
def recordedItems (materials : Materials Data) (turn : ClosedTurn Data readers) :
    List (ResponseItem Data) :=
  recordedAll materials (turn.contextual ++ turn.message :: turn.response)

/-- A turn is added to the history, or its compaction replaces it. -/
def extend (materials : Materials Data) (history : List (ResponseItem Data))
    (turn : ClosedTurn Data readers) : List (ResponseItem Data) :=
  match turn.compaction with
  | none => history ++ turn.recordedItems materials
  | some found => found.replacement ++ recordedAll materials found.behind

/-- The settings that can be compared with on resuming after the turn. -/
def resumedReference (turn : ClosedTurn Data readers) : Option (TurnContextItem Data) :=
  match turn.compaction with
  | none => some turn.context
  | some _ => none

end ClosedTurn

/-- What turns leave when they are resumed. -/
def reconstructionOf (materials : Materials Data) (turns : List (ClosedTurn Data readers)) :
    RolloutReconstruction Data where
  history := turns.foldl (ClosedTurn.extend materials) []
  previousTurnSettings := turns.getLast?.map (·.settings)
  referenceContextItem := turns.getLast?.bind (·.resumedReference)

/-- The turns of a rollout, with those that are rolled back. -/
def turnsOf (spans : List (Span Data readers)) : List (ClosedTurn Data readers) :=
  spans.filterMap fun
    | .turn closed => some closed
    | .rollback _ => none

/-- A span is added to those behind the newest compaction. -/
def sinceStep (since : Option (ClosedTurn Data readers) × List (Span Data readers))
    (span : Span Data readers) : Option (ClosedTurn Data readers) × List (Span Data readers) :=
  match span with
  | .turn closed =>
      if closed.compaction.isSome then (some closed, []) else (since.1, since.2 ++ [span])
  | .rollback _ => (since.1, since.2 ++ [span])

/-- The newest turn with a compaction, and the spans behind it; without one, all spans. -/
def sinceCompaction (spans : List (Span Data readers)) :
    Option (ClosedTurn Data readers) × List (Span Data readers) :=
  spans.foldl sinceStep (none, [])

/-- What a turn with a compaction leaves below the turns behind it. -/
def bottomOf (materials : Materials Data) (newest : Option (ClosedTurn Data readers)) :
    List (ResponseItem Data) :=
  newest.elim [] (ClosedTurn.extend materials [])

/-- A cut in front of a turn leaves what is below: it has a turn and does not end in context, or the
turn that is cut has no context in front. -/
def CleanCut (readers : Readers) (bottom : List (ResponseItem Data))
    (turn : ClosedTurn Data readers) : Prop :=
  if bottom.any (isUserTurnBoundary readers) then
    ∀ last ∈ bottom.getLast?, isInjectedContext readers last = false
  else turn.contextual = []

/-- Every rollback of all turns that stand above the bottom is a clean cut. -/
def CutsClean (bottom : List (ResponseItem Data)) :
    List (ClosedTurn Data readers) → List (Span Data readers) → Prop
  | _, [] => True
  | turns, .turn closed :: spans => CutsClean bottom (turns ++ [closed]) spans
  | turns, .rollback numTurns :: spans =>
      (turns.length ≤ numTurns → ∀ lowest ∈ turns.head?, CleanCut readers bottom lowest) ∧
        CutsClean bottom (turns.take (turns.length - numTurns)) spans

/-! ## Items of a turn -/

section Items

variable {turn : ClosedTurn Data readers}

theorem countP_recorded (item : ResponseItem Data) :
    (recorded materials item).countP (isUserTurnBoundary readers) =
      if isUserTurnBoundary readers item then 1 else 0 := by
  rw [List.countP_eq_length_filter, filter_recorded fun _ => id]
  split_ifs <;> rfl

theorem countP_recordedAll (items : List (ResponseItem Data)) :
    (recordedAll materials items).countP (isUserTurnBoundary readers) =
      items.countP (isUserTurnBoundary readers) := by
  induction items with
  | nil => rfl
  | cons item items ih =>
      rw [recordedAll, List.flatMap_cons, List.countP_append, countP_recorded, List.countP_cons]
      rw [recordedAll] at ih
      rw [ih, Nat.add_comm]

theorem recorded_message (turn : ClosedTurn Data readers) :
    recorded materials turn.message = [turn.message] := by
  obtain ⟨api, same⟩ := recorded_of_isUserTurnBoundary materials.truncate turn.begins
  simp [recorded, History.recordItems, History.new, api, same]

theorem recordedAll_eq (items : List (ResponseItem Data)) :
    recordedAll materials items =
      (items.filter isRecorded).map (processItem materials.truncate) := by
  induction items with
  | nil => rfl
  | cons item items ih =>
      rw [recordedAll] at ih
      rw [recordedAll, List.flatMap_cons, ih, List.filter_cons]
      have one : recorded materials item =
          ([item].filter isRecorded).map (processItem materials.truncate) := rfl
      rw [one, List.filter_singleton]
      cases isRecorded item <;> rfl

theorem isInjectedContext_processItem
    (truncate : FunctionCallOutputPayload → FunctionCallOutputPayload) (item : ResponseItem Data) :
    isInjectedContext readers (processItem truncate item) = isInjectedContext readers item := by
  cases item <;> rfl

/-- The context of a turn, its message, and the rest. -/
theorem recordedItems_eq (turn : ClosedTurn Data readers) :
    turn.recordedItems materials = recordedAll materials turn.contextual ++
      turn.message :: recordedAll materials turn.response := by
  rw [ClosedTurn.recordedItems, recordedAll, List.flatMap_append, List.flatMap_cons,
    recorded_message]
  rfl

theorem countP_response (turn : ClosedTurn Data readers) :
    (recordedAll materials turn.response).countP (isUserTurnBoundary readers) = 0 := by
  rw [countP_recordedAll, List.countP_eq_zero]
  intro item member
  rw [turn.responds item member]
  exact Bool.false_ne_true

theorem isInjectedContext_of_mem {item : ResponseItem Data}
    (member : item ∈ recordedAll materials turn.contextual) :
    isInjectedContext readers item = true := by
  rw [recordedAll_eq] at member
  obtain ⟨original, isOriginal, rfl⟩ := List.mem_map.mp member
  rw [isInjectedContext_processItem]
  exact turn.injected original (List.mem_of_mem_filter isOriginal)

/-- A turn has one item that begins a turn. -/
theorem countP_recordedItems (turn : ClosedTurn Data readers) :
    (turn.recordedItems materials).countP (isUserTurnBoundary readers) = 1 := by
  have none : (recordedAll materials turn.contextual).countP (isUserTurnBoundary readers) = 0 := by
    rw [List.countP_eq_zero]
    intro item member
    rw [not_boundary_of_isInjectedContext item (isInjectedContext_of_mem member)]
    exact Bool.false_ne_true
  rw [recordedItems_eq, List.countP_append, none, List.countP_cons_of_pos turn.begins,
    countP_response]

theorem countP_turns (turns : List (ClosedTurn Data readers)) :
    (turns.flatMap (ClosedTurn.recordedItems materials)).countP (isUserTurnBoundary readers) =
      turns.length := by
  induction turns with
  | nil => rfl
  | cons turn turns ih =>
      rw [List.flatMap_cons, List.countP_append, ih, countP_recordedItems, List.length_cons,
        Nat.add_comm]

/-- A turn without a compaction does not end in context. -/
theorem last_recordedItems (uncompressed : turn.compaction = none) :
    ∀ last ∈ (turn.recordedItems materials).getLast?, ¬ isInjectedContext readers last = true := by
  intro last isLast
  have ends := turn.ends
  rw [uncompressed, Option.map_none, Option.getD_none, List.append_nil] at ends
  have behind : turn.message :: recordedAll materials turn.response =
      ((turn.message :: turn.response).filter isRecorded).map (processItem materials.truncate) := by
    rw [← recordedAll_eq]
    exact (congrArg (· ++ recordedAll materials turn.response) (recorded_message turn)).symm
  rw [recordedItems_eq, List.getLast?_append_of_ne_nil _ (List.cons_ne_nil _ _), behind,
    List.getLast?_map] at isLast
  obtain ⟨original, isOriginal, rfl⟩ := Option.mem_map.mp isLast
  rw [isInjectedContext_processItem, ends original isOriginal]
  exact Bool.false_ne_true

end Items

/-! ## Reading forwards -/

section Forwards

variable {items : List (ResponseItem Data)} {state : History Data × Bool}
  {turn : ClosedTurn Data readers}

/-- The reading forwards has these items, and has met no compaction without a history. -/
structure Shows (items : List (ResponseItem Data)) (state : History Data × Bool) : Prop where
  items : state.1.items = items
  plain : state.2 = false

theorem shows_responses (shows : Shows items state) (responses : List (ResponseItem Data)) :
    Shows (items ++ recordedAll materials responses)
      ((responses.map .responseItem).foldl (forwardStep readers materials) state) := by
  induction responses generalizing state items with
  | nil => exact ⟨shows.items.trans (List.append_nil items).symm, shows.plain⟩
  | cons item responses ih =>
      have here : Shows (items ++ recorded materials item)
          (forwardStep readers materials state (.responseItem item)) :=
        ⟨congrArg (· ++ recorded materials item) shows.items, shows.plain⟩
      have later := ih here
      rw [List.append_assoc] at later
      exact later

/-- A turn without a compaction is added. -/
theorem shows_turn (shows : Shows items state) (uncompressed : turn.compaction = none) :
    Shows (items ++ turn.recordedItems materials)
      (turn.rolloutItems.foldl (forwardStep readers materials) state) := by
  have added := @shows_responses Data readers materials items state shows
    (turn.contextual ++ turn.message :: turn.response)
  have noCompaction : turn.compactionItems = [] := by
    rw [ClosedTurn.compactionItems, uncompressed]
  rw [ClosedTurn.rolloutItems, completeTurn, ClosedTurn.body, noCompaction, List.append_nil,
    List.foldl_append]
  exact added

/-- The items on both sides of a turn, and its own. -/
theorem flatMap_cut (bottom : List (ResponseItem Data)) (kept : List (ClosedTurn Data readers))
    (cut : ClosedTurn Data readers) (more : List (ClosedTurn Data readers)) :
    bottom ++ (kept ++ cut :: more).flatMap (ClosedTurn.recordedItems materials) =
      (bottom ++ kept.flatMap (ClosedTurn.recordedItems materials)) ++
          recordedAll materials cut.contextual ++
        cut.message :: (recordedAll materials cut.response ++
          more.flatMap (ClosedTurn.recordedItems materials)) := by
  rw [List.flatMap_append, List.flatMap_cons, recordedItems_eq]
  simp only [List.append_assoc, List.cons_append]

theorem countP_behind (cut : ClosedTurn Data readers) (more : List (ClosedTurn Data readers)) :
    (recordedAll materials cut.response ++
        more.flatMap (ClosedTurn.recordedItems materials)).countP (isUserTurnBoundary readers) =
      more.length := by
  rw [List.countP_append, countP_response, countP_turns, Nat.zero_add]

/-- Above a turn that is kept, a cut leaves what is below. -/
theorem dropLast_above {bottom : List (ResponseItem Data)}
    {kept more : List (ClosedTurn Data readers)} {cut : ClosedTurn Data readers}
    (uncompressed : ∀ turn ∈ kept, turn.compaction = none) (some : kept ≠ []) :
    Turns.dropLast (isUserTurnBoundary readers) (isInjectedContext readers) (more.length + 1)
        (bottom ++ (kept ++ cut :: more).flatMap (ClosedTurn.recordedItems materials)) =
      bottom ++ kept.flatMap (ClosedTurn.recordedItems materials) := by
  rw [flatMap_cut]
  refine Turns.dropLast_append_turn cut.begins (fun _ member => isInjectedContext_of_mem member)
    (congrArg (· + 1) (countP_behind cut more)) ?_ ?_
  · rw [List.countP_append, countP_turns]
    exact Nat.lt_add_left _ (List.length_pos_iff.mpr some)
  · obtain ⟨init, newest, rfl⟩ := (List.eq_nil_or_concat' kept).resolve_left some
    have begun : newest.recordedItems materials ≠ [] := by
      rw [recordedItems_eq]
      exact List.append_ne_nil_of_right_ne_nil _ (List.cons_ne_nil _ _)
    rw [List.flatMap_append, List.flatMap_singleton, ← List.append_assoc,
      List.getLast?_append_of_ne_nil _ begun]
    exact last_recordedItems (uncompressed newest (by simp))

/-- A clean cut of all turns leaves the bottom. -/
theorem dropLast_all {bottom : List (ResponseItem Data)} {more : List (ClosedTurn Data readers)}
    {cut : ClosedTurn Data readers} {numTurns : ℕ} (all : more.length < numTurns)
    (within : numTurns = more.length + 1 ∨ bottom = []) (clean : CleanCut readers bottom cut) :
    Turns.dropLast (isUserTurnBoundary readers) (isInjectedContext readers) numTurns
        (bottom ++ (cut :: more).flatMap (ClosedTurn.recordedItems materials)) = bottom := by
  have split := @flatMap_cut Data readers materials bottom [] cut more
  rw [List.nil_append, List.flatMap_nil, List.append_nil] at split
  rw [split]
  rw [CleanCut] at clean
  cases begun : bottom.any (isUserTurnBoundary readers) with
  | true =>
      rw [begun, if_pos rfl] at clean
      have counted : 0 < bottom.countP (isUserTurnBoundary readers) :=
        List.countP_pos_iff.mpr (List.any_eq_true.mp begun)
      have exactly : numTurns = more.length + 1 := within.resolve_right fun empty => by
        rw [empty] at begun
        cases begun
      rw [exactly]
      refine Turns.dropLast_append_turn cut.begins
        (fun _ member => isInjectedContext_of_mem member)
        (congrArg (· + 1) (countP_behind cut more)) counted ?_
      intro last isLast
      rw [clean last isLast]
      exact Bool.false_ne_true
  | false =>
      rw [begun, if_neg Bool.false_ne_true] at clean
      have none : bottom.countP (isUserTurnBoundary readers) = 0 :=
        List.countP_eq_zero.mpr (List.any_eq_false.mp begun)
      rw [clean]
      have noContext : bottom ++ recordedAll materials [] = bottom := List.append_nil bottom
      rw [noContext]
      refine Turns.dropLast_append_first cut.begins none ?_
      rwa [countP_behind]

/-- A rollback leaves the turns that it does not reach. -/
theorem dropLast_turns {bottom : List (ResponseItem Data)} {turns : List (ClosedTurn Data readers)}
    {numTurns : ℕ} (uncompressed : ∀ turn ∈ turns, turn.compaction = none)
    (within : numTurns ≤ turns.length ∨ bottom = [])
    (clean : turns.length ≤ numTurns → ∀ lowest ∈ turns.head?, CleanCut readers bottom lowest) :
    Turns.dropLast (isUserTurnBoundary readers) (isInjectedContext readers) numTurns
        (bottom ++ turns.flatMap (ClosedTurn.recordedItems materials)) =
      bottom ++ (turns.take (turns.length - numTurns)).flatMap
        (ClosedTurn.recordedItems materials) := by
  obtain rfl | some := Nat.eq_zero_or_pos numTurns
  · rw [Turns.dropLast_zero, Nat.sub_zero, List.take_length]
  obtain fewer | all := Nat.lt_or_ge numTurns turns.length
  · have inside : turns.length - numTurns < turns.length := by omega
    have split := List.take_append_drop (turns.length - numTurns) turns
    rw [List.drop_eq_getElem_cons inside] at split
    have more : (turns.drop (turns.length - numTurns + 1)).length + 1 = numTurns := by
      rw [List.length_drop]
      omega
    have kept : turns.take (turns.length - numTurns) ≠ [] := by
      rw [← List.length_pos_iff, List.length_take]
      omega
    have cut := @dropLast_above Data readers materials bottom
      (turns.take (turns.length - numTurns)) (turns.drop (turns.length - numTurns + 1))
      turns[turns.length - numTurns]
      (fun turn member => uncompressed turn (List.mem_of_mem_take member)) kept
    rwa [split, more] at cut
  · rw [Nat.sub_eq_zero_of_le all, List.take_zero, List.flatMap_nil, List.append_nil]
    cases turns with
    | nil =>
        obtain rfl := within.resolve_left (by rw [List.length_nil]; omega)
        rw [List.flatMap_nil, List.append_nil, Turns.dropLast, if_pos (.inr (Nat.zero_le _))]
        rfl
    | cons cut more =>
        rw [List.length_cons] at all within
        exact dropLast_all all (within.imp_left fun less => le_antisymm less all)
          (clean all cut rfl)

/-- Spans that do not reach below the bottom, and are cut clean there, leave their turns on it. -/
theorem shows_spans {bottom : List (ResponseItem Data)} {turns : List (ClosedTurn Data readers)}
    {spans : List (Span Data readers)}
    (shows : Shows (bottom ++ turns.flatMap (ClosedTurn.recordedItems materials)) state)
    (uncompressed : ∀ turn ∈ turns, turn.compaction = none) (alike : Uncompressed spans)
    (within : rollsBack spans 0 ≤ turns.length ∨ bottom = [])
    (clean : CutsClean bottom turns spans) :
    Shows (bottom ++ ((spans.map Span.command).foldl UndoLog.valuesStep turns).flatMap
        (ClosedTurn.recordedItems materials))
      ((spansRollout spans).foldl (forwardStep readers materials) state) := by
  induction spans generalizing state turns with
  | nil => exact shows
  | cons span spans ih =>
      have later : Uncompressed spans := fun closed member =>
        alike closed (List.mem_cons_of_mem span member)
      rw [spansRollout, List.flatMap_cons, List.foldl_append, ← spansRollout, List.map_cons,
        List.foldl_cons]
      cases span with
      | turn closed =>
          have none : closed.compaction = none := alike closed List.mem_cons_self
          have added := @shows_turn Data readers materials _ _ _ shows none
          have joined : (turns ++ [closed]).flatMap (ClosedTurn.recordedItems materials) =
              turns.flatMap (ClosedTurn.recordedItems materials) ++
                closed.recordedItems materials := by
            rw [List.flatMap_append, List.flatMap_singleton]
          rw [List.append_assoc, ← joined] at added
          refine ih added ?_ later ?_ clean
          · intro turn member
            rcases List.mem_append.mp member with old | new
            · exact uncompressed turn old
            · exact List.mem_singleton.mp new ▸ none
          · refine within.imp_left fun reached => ?_
            have grown : (UndoLog.valuesStep turns (Span.turn closed).command).length =
                turns.length + 1 := List.length_append
            rw [rollsBack, List.map_cons, Span.command, UndoLog.reach_push_cons] at reached
            rw [grown, rollsBack]
            omega
      | rollback numTurns =>
          rw [CutsClean] at clean
          rw [rollsBack, List.map_cons, Span.command, UndoLog.reach_undo_cons] at within
          have cut := @dropLast_turns Data readers materials bottom turns numTurns uncompressed
            (within.imp_left fun reached => by omega) clean.1
          have dropped : Shows (bottom ++ (turns.take (turns.length - numTurns)).flatMap
              (ClosedTurn.recordedItems materials))
              (forwardStep readers materials state (.eventMsg (.threadRolledBack numTurns))) := by
            refine ⟨?_, shows.plain⟩
            rw [← cut, ← shows.items]
            exact dropLastNUserTurns_items state.1 numTurns
          refine ih dropped
            (fun turn member => uncompressed turn (List.mem_of_mem_take member)) later ?_ clean.2
          refine within.imp_left fun reached => ?_
          have left : (UndoLog.valuesStep turns (Span.rollback numTurns).command).length =
              turns.length - numTurns := List.length_take_of_le (Nat.sub_le _ _)
          rw [left, rollsBack]
          omega

end Forwards

/-! ## The newest compaction -/

section Newest

variable {spans : List (Span Data readers)}

theorem sinceStep_of_uncompressed {span : Span Data readers} (uncompressed : Uncompressed [span])
    (since : Option (ClosedTurn Data readers) × List (Span Data readers)) :
    sinceStep since span = (since.1, since.2 ++ [span]) := by
  cases span with
  | turn closed =>
      have none : closed.compaction = none := uncompressed closed List.mem_cons_self
      rw [sinceStep, none, Option.isSome_none, if_neg Bool.false_ne_true]
  | rollback numTurns => rfl

theorem uncompressed_concat {tail : List (Span Data readers)} {span : Span Data readers}
    (earlier : Uncompressed tail) (last : Uncompressed [span]) : Uncompressed (tail ++ [span]) :=
  fun closed member => (List.mem_append.mp member).elim (earlier closed) (last closed)

theorem uncompressed_nil : Uncompressed ([] : List (Span Data readers)) :=
  fun _ member => absurd member List.not_mem_nil

/-- Either no turn has a compaction, or the newest one that has is followed by turns without. -/
theorem sinceCompaction_cases (spans : List (Span Data readers)) :
    (sinceCompaction spans = (none, spans) ∧ Uncompressed spans) ∨
      ∃ older closed found tail, spans = older ++ .turn closed :: tail ∧
        sinceCompaction spans = (some closed, tail) ∧ closed.compaction = some found ∧
        Uncompressed tail := by
  induction spans using List.reverseRecOn with
  | nil => exact .inl ⟨rfl, uncompressed_nil⟩
  | append_singleton spans span before =>
      have stepped : sinceCompaction (spans ++ [span]) = sinceStep (sinceCompaction spans) span :=
        List.foldl_concat sinceStep (none, []) span spans
      rw [stepped]
      by_cases last : Uncompressed [span]
      case pos =>
        rw [sinceStep_of_uncompressed last]
        rcases before with ⟨all, earlier⟩ | ⟨older, closed, found, tail, rfl, since, has, earlier⟩
        · rw [all]
          exact .inl ⟨rfl, uncompressed_concat earlier last⟩
        · rw [since]
          exact .inr ⟨older, closed, found, tail ++ [span], by simp, rfl, has,
            uncompressed_concat earlier last⟩
      case neg =>
        obtain ⟨closed, compressed⟩ := not_forall.mp last
        obtain ⟨member, some⟩ := Classical.not_imp.mp compressed
        cases List.mem_singleton.mp member
        obtain ⟨found, has⟩ := Option.ne_none_iff_exists'.mp some
        refine .inr ⟨spans, closed, found, [], rfl, ?_, has, uncompressed_nil⟩
        rw [sinceStep, has, Option.isSome_some, if_pos rfl]

theorem turnsOf_append (left right : List (Span Data readers)) :
    turnsOf (left ++ right) = turnsOf left ++ turnsOf right :=
  List.filterMap_append

theorem mem_turnsOf_of_standing {closed : ClosedTurn Data readers}
    (stands : closed ∈ standing spans) : closed ∈ turnsOf spans := by
  induction spans using List.reverseRecOn with
  | nil => cases stands
  | append_singleton spans span before =>
      rw [standing_concat] at stands
      rw [turnsOf_append]
      cases span with
      | turn last =>
          exact (List.mem_append.mp stands).elim
            (fun earlier => List.mem_append_left _ (before earlier))
            (fun new => List.mem_append_right _ new)
      | rollback numTurns =>
          exact List.mem_append_left _ (before (List.mem_of_mem_take stands))

theorem standing_append (left right : List (Span Data readers)) :
    standing (left ++ right) =
      (standing left).take ((standing left).length - rollsBack right 0) ++ standing right := by
  rw [standing, List.map_append, List.foldl_append]
  exact UndoLog.foldl_valuesStep _ _

/-- Of turns with different ids, one stands only where the spans behind it do not reach it. -/
theorem rollsBack_of_stands {older tail : List (Span Data readers)}
    {closed : ClosedTurn Data readers}
    (distinct : ((turnsOf (older ++ .turn closed :: tail)).map (·.id)).Nodup)
    (stands : closed ∈ standing (older ++ .turn closed :: tail)) : rollsBack tail 0 = 0 := by
  have turns : turnsOf (older ++ .turn closed :: tail) =
      turnsOf older ++ closed :: turnsOf tail := turnsOf_append older (.turn closed :: tail)
  rw [turns, List.map_append, List.map_cons, List.nodup_middle, List.nodup_cons,
    ← List.map_append] at distinct
  have apart : closed ∉ turnsOf older ++ turnsOf tail := fun member =>
    distinct.1 (List.mem_map_of_mem member)
  by_contra reached
  rw [List.append_cons, standing_append, standing_concat] at stands
  refine apart (List.mem_append.mpr ?_)
  rcases List.mem_append.mp stands with before | behind
  · left
    have shorter : (UndoLog.valuesStep (standing older) (Span.turn closed).command).length -
        rollsBack tail 0 ≤ (standing older).length := by
      have grown : (UndoLog.valuesStep (standing older) (Span.turn closed).command).length =
          (standing older).length + 1 := List.length_append
      omega
    have cut : (UndoLog.valuesStep (standing older) (Span.turn closed).command).take
        ((UndoLog.valuesStep (standing older) (Span.turn closed).command).length -
          rollsBack tail 0) = (standing older).take
        ((UndoLog.valuesStep (standing older) (Span.turn closed).command).length -
          rollsBack tail 0) := List.take_append_of_le_length shorter
    rw [cut] at before
    exact mem_turnsOf_of_standing (List.mem_of_mem_take before)
  · exact .inr (mem_turnsOf_of_standing behind)

end Newest

/-! ## Resuming -/

section Resuming

variable {spans : List (Span Data readers)} {items : List (RolloutItem Data)}
  {replay : ReverseReplay Data} {history : List (ResponseItem Data)}

/-- The settings that have been established, if there are any. -/
def resumedFrom (reference : TurnReferenceContextItem Data) : Option (TurnContextItem Data) :=
  match reference with
  | .latest context => some context
  | _ => none

/-- Resuming puts what both readings have found together. -/
theorem reconstruct_of_readings
    (read : reverseReplay readers items.reverse [] { rolloutSuffix := items } = replay)
    (idle : replay.activeSegment = none)
    (shows : ∀ state : History Data × Bool, Shows (replay.baseReplacementHistory.getD []) state →
      Shows history (replay.rolloutSuffix.foldl (forwardStep readers materials) state)) :
    reconstructHistoryFromRollout readers materials items =
      { history
        previousTurnSettings := replay.previousTurnSettings
        referenceContextItem := resumedFrom replay.referenceContextItem } := by
  have taken : replay.takeActiveSegment = replay := by
    rw [ReverseReplay.takeActiveSegment, idle]
  simp only [reconstructHistoryFromRollout, read, taken]
  cases base : replay.baseReplacementHistory with
  | none =>
      rw [base] at shows
      have built := shows (History.new, false) ⟨rfl, rfl⟩
      simp only [built.items, built.plain]
      cases replay.referenceContextItem <;> rfl
  | some replacement =>
      rw [base] at shows
      have built := shows (History.new.replace replacement, false) ⟨rfl, rfl⟩
      simp only [built.items, built.plain]
      cases replay.referenceContextItem <;> rfl

theorem resumedFrom_reference (turn : ClosedTurn Data readers) :
    resumedFrom turn.reference = turn.resumedReference := by
  rw [ClosedTurn.reference, ClosedTurn.resumedReference]
  cases turn.compaction <;> rfl

theorem resumedFrom_getD (newest : Option (ClosedTurn Data readers)) :
    resumedFrom ((newest.map (·.reference)).getD .neverSet) = newest.bind (·.resumedReference) := by
  cases newest with
  | none => rfl
  | some turn => exact resumedFrom_reference turn

/-- Turns without a compaction are added to the history. -/
theorem foldl_extend {turns : List (ClosedTurn Data readers)}
    (uncompressed : ∀ turn ∈ turns, turn.compaction = none) (history : List (ResponseItem Data)) :
    turns.foldl (ClosedTurn.extend materials) history =
      history ++ turns.flatMap (ClosedTurn.recordedItems materials) := by
  induction turns generalizing history with
  | nil => exact (List.append_nil history).symm
  | cons turn turns ih =>
      have added : turn.extend materials history = history ++ turn.recordedItems materials := by
        rw [ClosedTurn.extend, uncompressed turn List.mem_cons_self]
      rw [List.foldl_cons, added,
        ih fun other member => uncompressed other (List.mem_cons_of_mem turn member),
        List.flatMap_cons, List.append_assoc]

/-- The turns of spans without compactions. -/
theorem compaction_of_standing (uncompressed : Uncompressed spans) :
    ∀ turn ∈ standing spans, turn.compaction = none := by
  intro turn stands
  obtain ⟨span, member, isTurn⟩ := List.mem_filterMap.mp (mem_turnsOf_of_standing stands)
  cases span with
  | turn closed =>
      cases isTurn
      exact uncompressed turn member
  | rollback numTurns => cases isTurn

/-- Without compactions the turns that stand are resumed. -/
theorem reconstruct_uncompressed (uncompressed : Uncompressed spans)
    (clean : CutsClean [] [] spans) :
    reconstructHistoryFromRollout readers materials (spansRollout spans) =
      reconstructionOf materials (standing spans) := by
  have read := @reverseReplay_uncompressed Data readers (spansRollout spans) spans uncompressed
  have shows : ∀ state : History Data × Bool, Shows [] state →
      Shows ((standing spans).flatMap (ClosedTurn.recordedItems materials))
        ((spansRollout spans).foldl (forwardStep readers materials) state) := by
    intro state start
    exact @shows_spans Data readers materials state [] [] spans start
      (List.forall_mem_nil _) uncompressed (.inr rfl) clean
  have kept : keptOf spans 0 = standing spans := List.take_length
  rw [reconstruct_of_readings read rfl shows, reconstructionOf,
    foldl_extend (compaction_of_standing uncompressed)]
  simp only [readSpans, settle, kept, Option.none_or, resumedFrom_getD, List.nil_append]

/-- From the newest compaction on, the turns that stand are resumed. -/
theorem reconstruct_compacted {older tail : List (Span Data readers)}
    {closed : ClosedTurn Data readers} {found : TurnCompaction Data}
    (compaction : closed.compaction = some found) (uncompressed : Uncompressed tail)
    (stands : rollsBack tail 0 = 0) (clean : CutsClean (bottomOf materials (some closed)) [] tail) :
    reconstructHistoryFromRollout readers materials
        (spansRollout (older ++ .turn closed :: tail)) =
      reconstructionOf materials (standing (older ++ .turn closed :: tail)) := by
  have read := @reverseReplay_compacted Data readers
    (spansRollout (older ++ .turn closed :: tail)) tail closed found compaction uncompressed stands
    older
  have bottom : bottomOf materials (some closed) =
      found.replacement ++ recordedAll materials found.behind := by
    rw [bottomOf, Option.elim_some, ClosedTurn.extend, compaction]
  have shows : ∀ state : History Data × Bool, Shows found.replacement state →
      Shows (bottomOf materials (some closed) ++
          (standing tail).flatMap (ClosedTurn.recordedItems materials))
        ((found.behind.map RolloutItem.responseItem ++
          RolloutItem.eventMsg (.turnComplete closed.id) :: spansRollout tail).foldl
            (forwardStep readers materials) state) := by
    intro state start
    have behind := @shows_responses Data readers materials _ _ start found.behind
    rw [← bottom] at behind
    rw [List.foldl_append, List.foldl_cons]
    refine @shows_spans Data readers materials _ _ [] tail ?_ (List.forall_mem_nil _) uncompressed
      (.inl (Nat.le_of_eq stands)) clean
    rw [List.flatMap_nil, List.append_nil]
    exact behind
  have left : standing (older ++ .turn closed :: tail) =
      (standing older ++ [closed]) ++ standing tail := by
    rw [List.append_cons, standing_append, stands, Nat.sub_zero, List.take_length, standing_concat]
    rfl
  have history : (standing (older ++ .turn closed :: tail)).foldl
      (ClosedTurn.extend materials) [] = bottomOf materials (some closed) ++
        (standing tail).flatMap (ClosedTurn.recordedItems materials) := by
    have replaced (history : List (ResponseItem Data)) :
        closed.extend materials history = bottomOf materials (some closed) := by
      rw [ClosedTurn.extend, compaction, bottom]
    rw [left, List.foldl_append, List.foldl_concat, replaced,
      foldl_extend (compaction_of_standing uncompressed)]
  rw [reconstruct_of_readings read rfl shows, reconstructionOf, history, left,
    List.getLast?_append, List.getLast?_concat]
  simp only [settle, Option.none_or, Option.map_some, Option.getD_some]
  cases newest : (standing tail).getLast? with
  | none =>
      simp only [Option.map_none, Option.getD_none, Option.none_or, resumedFrom_reference]
      rfl
  | some turn =>
      simp only [Option.map_some, Option.some_or, Option.getD_some, Option.bind_some,
        ← resumedFrom_reference]
      rw [ClosedTurn.reference]
      cases turn.compaction <;> rfl

theorem standing_turns (turns : List (ClosedTurn Data readers)) :
    standing (turns.map Span.turn) = turns := by
  induction turns using List.reverseRecOn with
  | nil => rfl
  | append_singleton turns turn before =>
      rw [List.map_append, List.map_singleton, standing_concat, before]
      rfl

theorem rollsBack_turns (turns : List (ClosedTurn Data readers)) :
    rollsBack (turns.map Span.turn) 0 = 0 := by
  induction turns with
  | nil => rfl
  | cons turn turns later =>
      rw [rollsBack] at later
      rw [rollsBack, List.map_cons, List.map_cons, Span.command, UndoLog.reach_push_cons, later]

theorem cutsClean_turns (bottom : List (ResponseItem Data))
    (below turns : List (ClosedTurn Data readers)) :
    CutsClean bottom below (turns.map Span.turn) := by
  induction turns generalizing below with
  | nil => exact trivial
  | cons turn turns later => exact later (below ++ [turn])

/-- A rollout without rollbacks gives what its turns leave. -/
theorem reconstruct_turns (turns : List (ClosedTurn Data readers)) :
    reconstructHistoryFromRollout readers materials (spansRollout (turns.map Span.turn)) =
      reconstructionOf materials turns := by
  rcases sinceCompaction_cases (turns.map Span.turn) with
    ⟨-, uncompressed⟩ | ⟨older, closed, found, tail, split, -, compaction, uncompressed⟩
  · rw [reconstruct_uncompressed uncompressed (cutsClean_turns [] [] turns), standing_turns]
  · obtain ⟨olderTurns, newerTurns, rfl, isOlder, isNewer⟩ := List.map_eq_append_iff.mp split
    obtain ⟨turn, tailTurns, rfl, isTurn, rfl⟩ := List.map_eq_cons_iff.mp isNewer
    have resumed := @reconstruct_compacted Data readers materials older _ closed found compaction
      uncompressed (rollsBack_turns tailTurns) (cutsClean_turns _ [] tailTurns)
    rw [← split, standing_turns] at resumed
    exact resumed

/-- **Turns that are rolled back leave no trace.**  When the newest compaction stands and every cut
above it is clean, resuming gives what it gives without the rollbacks and the turns that they roll
back. -/
theorem reconstruct_erased (distinct : ((turnsOf spans).map (·.id)).Nodup)
    (stands : ∀ closed ∈ (sinceCompaction spans).1, closed ∈ standing spans)
    (clean : CutsClean (bottomOf materials (sinceCompaction spans).1) []
      (sinceCompaction spans).2) :
    reconstructHistoryFromRollout readers materials (spansRollout spans) =
      reconstructHistoryFromRollout readers materials
        (spansRollout ((standing spans).map Span.turn)) := by
  rw [reconstruct_turns]
  rcases sinceCompaction_cases spans with
    ⟨since, uncompressed⟩ | ⟨older, closed, found, tail, rfl, since, compaction, uncompressed⟩
  · rw [since] at clean
    exact reconstruct_uncompressed uncompressed clean
  · rw [since] at stands clean
    exact reconstruct_compacted compaction uncompressed
      (rollsBack_of_stands distinct (stands closed rfl)) clean

end Resuming

/-! ## Traces -/

section Traces

def contextMessage : ResponseItem Unit :=
  .message developerRole [.inputText "<model_switch>".toList] ()

def answerMessage : ResponseItem Unit := .message assistantRole [.outputText ['o', 'k']] ()

theorem isInjectedContext_contextMessage :
    isInjectedContext plainReaders contextMessage = true := by
  decide +kernel

theorem isUserTurnBoundary_sampleMessage :
    isUserTurnBoundary plainReaders sampleMessage = true := by
  decide +kernel

theorem not_boundary_answerMessage : isUserTurnBoundary plainReaders answerMessage = false := by
  decide +kernel

theorem getLast?_recorded :
    ([sampleMessage, answerMessage].filter isRecorded).getLast? = some answerMessage := by
  decide +kernel

/-- A turn with context in front of its message, and perhaps a compaction at its end. -/
def contextTurn (id : Text) (compaction : Option (List (ResponseItem Unit))) :
    ClosedTurn Unit plainReaders where
  id := id
  payload := sampleLegacyEvent sampleMessage
  context := ⟨some id, ['m'], none, ()⟩
  contextual := [contextMessage]
  message := sampleMessage
  response := [answerMessage]
  compaction := compaction.map fun replacement => ⟨[], replacement, []⟩
  named := rfl
  injected := List.forall_mem_singleton.mpr isInjectedContext_contextMessage
  begins := isUserTurnBoundary_sampleMessage
  responds := List.forall_mem_singleton.mpr not_boundary_answerMessage
  continues := by
    intro found isFound item member
    obtain ⟨replacement, -, rfl⟩ := Option.mem_map.mp isFound
    cases member
  ends := by
    intro last isLast
    have nothing : ((compaction.map fun replacement =>
        (⟨[], replacement, []⟩ : TurnCompaction Unit)).map (·.behind)).getD [] = [] := by
      cases compaction <;> rfl
    rw [nothing, List.append_nil, getLast?_recorded] at isLast
    cases isLast
    decide +kernel

/-- All turns are rolled back, and another one follows. -/
def clearedSpans : List (Span Unit plainReaders) :=
  [.turn (contextTurn ['a'] none), .rollback 1, .turn (contextTurn ['b'] none)]

/-- The context of the turn that was rolled back stays in front of the one that stands. -/
theorem cleared_keeps_context :
    standing clearedSpans ≠ [] ∧ ((turnsOf clearedSpans).map (·.id)).Nodup ∧
      (reconstructHistoryFromRollout plainReaders plainMaterials
          (spansRollout clearedSpans)).history ≠
        (reconstructHistoryFromRollout plainReaders plainMaterials
          (spansRollout ((standing clearedSpans).map Span.turn))).history := by
  refine ⟨List.cons_ne_nil _ _, by decide, by decide +kernel⟩

/-- A turn is rolled back on either side of a compaction that stands. -/
def compactedSpans : List (Span Unit plainReaders) :=
  [.turn (contextTurn ['a'] none), .rollback 1,
    .turn (contextTurn ['b'] (some [sampleMessage, answerMessage])),
    .turn (contextTurn ['c'] none), .rollback 1, .turn (contextTurn ['d'] none)]

theorem sinceCompaction_compactedSpans :
    sinceCompaction compactedSpans =
      (some (contextTurn ['b'] (some [sampleMessage, answerMessage])),
        [.turn (contextTurn ['c'] none), .rollback 1, .turn (contextTurn ['d'] none)]) :=
  rfl

theorem standing_compactedSpans :
    standing compactedSpans =
      [contextTurn ['b'] (some [sampleMessage, answerMessage]), contextTurn ['d'] none] :=
  rfl

theorem bottomOf_contextTurn (id : Text) (replacement : List (ResponseItem Unit)) :
    bottomOf plainMaterials (some (contextTurn id (some replacement))) = replacement :=
  List.append_nil replacement

theorem cleanCut_answered (turn : ClosedTurn Unit plainReaders) :
    CleanCut plainReaders [sampleMessage, answerMessage] turn := by
  rw [CleanCut, if_pos (by decide +kernel)]
  intro last isLast
  cases isLast
  decide +kernel

theorem reconstruct_erased_compacted :
    reconstructHistoryFromRollout plainReaders plainMaterials (spansRollout compactedSpans) =
      reconstructHistoryFromRollout plainReaders plainMaterials
        (spansRollout ((standing compactedSpans).map Span.turn)) := by
  refine reconstruct_erased (by decide) ?_ ?_
  · rw [sinceCompaction_compactedSpans, standing_compactedSpans]
    intro closed newest
    rw [← Option.mem_some_iff.mp newest]
    exact List.mem_cons_self
  · rw [sinceCompaction_compactedSpans, bottomOf_contextTurn]
    exact ⟨fun _ lowest _ => cleanCut_answered lowest, trivial⟩

end Traces

end CodexPilot.Rollout
