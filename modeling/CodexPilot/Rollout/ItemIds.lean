import CodexPilot.Library.Numbering
import CodexPilot.Rollout.ThreadHistory

/-!
# The ids of shown items

The builder of a displayed thread numbers its items, and counts from the items that are left after a
rollback.  Items of tools, plans and hook prompts come with ids of their own.  As long as none of
these looks like a numbered id, the numbered ids of a thread are different.
-/

namespace CodexPilot.Rollout

open RustStd ContextManager Numbering

variable {Data : Type}

/-! ## Numbered ids -/

/-- The form of the ids that the builder gives. -/
def Generated (id : Text) : Prop := ∃ index, id = itemId index

theorem itemId_injective : Function.Injective itemId := by
  intro first second same
  have digits := congrArg (Nat.ofDigitChars 10 · 0) (List.append_cancel_left same)
  simpa [Nat.repr, Nat.ofDigitChars_ten_toDigits] using digits

/-- The number in an id, if it is a numbered one. -/
noncomputable def indexOf (id : Text) : Option ℕ := Function.partialInv itemId id

@[simp]
theorem indexOf_itemId (index : ℕ) : indexOf (itemId index) = some index :=
  Function.partialInv_left itemId_injective index

theorem indexOf_of_not_generated {id : Text} (other : ¬Generated id) : indexOf id = none := by
  rw [Option.eq_none_iff_forall_ne_some]
  intro index found
  exact other ⟨index, (itemId_injective.isPartialInv index id).mp found |>.symm⟩

/-! ## The ledger of a builder -/

/-- The numbers of the items. -/
noncomputable def block (items : List (ThreadItem Data)) : Block :=
  ⟨items.filterMap fun item => indexOf item.id, items.length⟩

/-- What the builder has issued. -/
noncomputable def ledger (builder : ThreadHistoryBuilder Data) : Ledger :=
  ⟨builder.turns.map (fun turn => block turn.items) ++
    (builder.currentTurn.map fun turn => block turn.items).toList, builder.nextItemIndex⟩

/-- Items change without a change of the numbered ones. -/
def Grows (before after : List (ThreadItem Data)) : Prop :=
  ∃ more, block after = ⟨(block before).numbers, (block before).size + more⟩

variable {items : List (ThreadItem Data)} {item : ThreadItem Data}
  {change : List (ThreadItem Data) → List (ThreadItem Data)}

theorem block_append_numbered (index : ℕ) (numbered : item.id = itemId index) :
    block (items ++ [item]) = ⟨(block items).numbers ++ [index], (block items).size + 1⟩ := by
  simp [block, numbered]

theorem grows_append (other : ¬Generated item.id) (items : List (ThreadItem Data)) :
    Grows items (items ++ [item]) :=
  ⟨1, by simp [block, indexOf_of_not_generated other]⟩

theorem grows_upsertTurnItem (other : ¬Generated item.id) (items : List (ThreadItem Data)) :
    Grows items (upsertTurnItem item items) := by
  induction items with
  | nil => exact grows_append other []
  | cons existing items ih =>
      rw [upsertTurnItem]
      split
      case isTrue same => exact ⟨0, by simp [block, List.filterMap_cons, same]⟩
      case isFalse =>
        obtain ⟨more, grown⟩ := ih
        refine ⟨more, ?_⟩
        simp only [block, Block.mk.injEq] at grown
        simp only [block, List.filterMap_cons, grown.1, List.length_cons, grown.2, Block.mk.injEq,
          true_and]
        omega

theorem grows_replaceLast {replacement : ThreadItem Data} (last : items.getLast? = some item)
    (same : replacement.id = item.id) : Grows items (items.dropLast ++ [replacement]) := by
  obtain ⟨front, rfl⟩ := List.getLast?_eq_some_iff.mp last
  exact ⟨0, by simp [block, List.filterMap_cons, same]⟩

/-! ## The steps of a builder -/

variable (readers : Readers) (fresh : FreshIds Data) (builder : ThreadHistoryBuilder Data)

theorem ledger_none {builder : ThreadHistoryBuilder Data} (current : builder.currentTurn = none) :
    ledger builder =
      ⟨builder.turns.map fun turn => block turn.items, builder.nextItemIndex⟩ := by
  simp [ledger, current]

theorem ledger_some {builder : ThreadHistoryBuilder Data} {turn : PendingTurn Data}
    (current : builder.currentTurn = some turn) :
    ledger builder = ⟨builder.turns.map (fun turn => block turn.items) ++ [block turn.items],
      builder.nextItemIndex⟩ := by
  simp [ledger, current]

theorem reaches_finishCurrentTurn :
    Reaches (ledger builder) (ledger builder.finishCurrentTurn) := by
  rw [ThreadHistoryBuilder.finishCurrentTurn]
  cases current : builder.currentTurn with
  | none => exact .refl
  | some turn =>
      dsimp only
      split
      case isTrue empty =>
        have none : turn.items = [] := by simp_all
        rw [ledger_some current, none, ledger_none rfl]
        exact .single (.drops _ _)
      case isFalse =>
        rw [ledger_some current, ledger_none rfl, List.map_append]
        exact .refl

/-- The current turn, or a new one, is open. -/
theorem reaches_ensureTurn : Reaches (ledger builder)
    ⟨builder.turns.map (fun turn => block turn.items) ++ [block (builder.ensureTurn fresh).items],
      builder.nextItemIndex⟩ := by
  cases current : builder.currentTurn with
  | none =>
      rw [ledger_none current, ThreadHistoryBuilder.ensureTurn, current]
      exact .single (.opens _ _)
  | some turn =>
      rw [ledger_some current, ThreadHistoryBuilder.ensureTurn, current]
      exact .refl

theorem ledger_modifyItems (change : List (ThreadItem Data) → List (ThreadItem Data)) :
    ledger (builder.modifyItems fresh change) =
      ⟨builder.turns.map (fun turn => block turn.items) ++
        [block (change (builder.ensureTurn fresh).items)], builder.nextItemIndex⟩ := by
  simp [ledger, ThreadHistoryBuilder.modifyItems]

theorem ledger_pushItem (item : Text → ThreadItem Data) :
    ledger (builder.pushItem fresh item) =
      ⟨builder.turns.map (fun turn => block turn.items) ++
        [block ((builder.ensureTurn fresh).items ++ [item (itemId builder.nextItemIndex)])],
        builder.nextItemIndex + 1⟩ := by
  simp [ledger, ThreadHistoryBuilder.pushItem, ThreadHistoryBuilder.modifyItems]

theorem reaches_modifyItems
    (grows : Grows (builder.ensureTurn fresh).items (change (builder.ensureTurn fresh).items)) :
    Reaches (ledger builder) (ledger (builder.modifyItems fresh change)) := by
  obtain ⟨more, grown⟩ := grows
  rw [ledger_modifyItems, grown]
  exact (reaches_ensureTurn fresh builder).tail (.grows _ _ [] more _)

theorem reaches_pushItem {item : Text → ThreadItem Data} (numbered : ∀ id, (item id).id = id) :
    Reaches (ledger builder) (ledger (builder.pushItem fresh item)) := by
  rw [ledger_pushItem, block_append_numbered _ (numbered _)]
  exact (reaches_ensureTurn fresh builder).tail (.issues _ _ _)

/-- A change of one turn that is found. -/
theorem reaches_modifyFirst {found : Turn Data → Bool} {change : Turn Data → Turn Data}
    (grows : ∀ turn, Grows turn.items (change turn).items) :
    Reaches (ledger builder)
      (ledger { builder with turns := modifyFirst found change builder.turns }) := by
  have changed (turns : List (Turn Data)) : modifyFirst found change turns = turns ∨
      ∃ before turn after, turns = before ++ turn :: after ∧
        modifyFirst found change turns = before ++ change turn :: after := by
    induction turns with
    | nil => exact .inl rfl
    | cons turn turns ih =>
        rw [modifyFirst]
        split
        case isTrue => exact .inr ⟨[], turn, turns, rfl, rfl⟩
        case isFalse =>
          obtain same | ⟨before, other, after, rfl, moved⟩ := ih
          · exact .inl (by rw [same])
          · exact .inr ⟨turn :: before, other, after, rfl, by rw [moved]; rfl⟩
  obtain same | ⟨before, turn, after, whole, moved⟩ := changed builder.turns
  · rw [same]
  · obtain ⟨more, grown⟩ := grows turn
    rw [moved]
    simp only [ledger, whole, List.map_append, List.map_cons, List.append_assoc, List.cons_append,
      grown]
    exact .single (.grows (before.map fun turn => block turn.items) (block turn.items) _ more _)

theorem reaches_upsertItemInTurnId {item : ThreadItem Data} (other : ¬Generated item.id)
    (turnId : Text) :
    Reaches (ledger builder) (ledger (builder.upsertItemInTurnId turnId item)) := by
  rw [ThreadHistoryBuilder.upsertItemInTurnId]
  split
  case h_1 turn found =>
    have current : builder.currentTurn = some turn := (Option.filter_eq_some_iff.mp found).1
    obtain ⟨more, grown⟩ := grows_upsertTurnItem other turn.items
    rw [ledger_some current, ledger_some rfl, grown]
    exact .single (.grows _ _ [] more _)
  case h_2 => exact reaches_modifyFirst builder fun turn => grows_upsertTurnItem other turn.items

theorem reaches_handleUserMessage (payload : UserMessageEvent Data) :
    Reaches (ledger builder) (ledger (builder.handleUserMessage fresh payload)) := by
  rw [ThreadHistoryBuilder.handleUserMessage]
  refine Relation.ReflTransGen.trans ?_ (reaches_pushItem fresh _ fun _ => rfl)
  split
  · split
    · exact reaches_finishCurrentTurn builder
    · exact .refl
  · exact .refl

theorem reaches_handleReasoning (text : Text)
    (extend : List Text × List Text → List Text × List Text) :
    Reaches (ledger builder) (ledger (builder.handleReasoning fresh text extend)) := by
  rw [ThreadHistoryBuilder.handleReasoning]
  split
  · exact .refl
  · split
    next id summary content last =>
      exact reaches_modifyItems fresh builder (grows_replaceLast last rfl)
    next => exact reaches_pushItem fresh builder fun _ => rfl

theorem currentTurn_finishCurrentTurn : builder.finishCurrentTurn.currentTurn = none := by
  rw [ThreadHistoryBuilder.finishCurrentTurn]
  split
  · assumption
  · split <;> rfl

theorem total_blocks (turns : List (Turn Data)) :
    total (turns.map fun turn => block turn.items) = (turns.map (·.items.length)).sum := by
  simp [total, block, Function.comp_def]

theorem reaches_handleThreadRollback (numTurns : ℕ) :
    Reaches (ledger builder) (ledger (builder.handleThreadRollback numTurns)) := by
  refine (reaches_finishCurrentTurn builder).trans ?_
  have current := currentTurn_finishCurrentTurn builder
  rw [ThreadHistoryBuilder.handleThreadRollback]
  generalize builder.finishCurrentTurn = finished at current ⊢
  have whole : ledger finished =
      ⟨((finished.turns.take (finished.turns.length - numTurns)).map
          fun turn => block turn.items) ++
        (finished.turns.drop (finished.turns.length - numTurns)).map fun turn => block turn.items,
        finished.nextItemIndex⟩ := by
    rw [ledger_none current, ← List.map_append, List.take_append_drop]
  rw [whole, ← total_blocks, ledger_none (by exact current)]
  exact .single (.truncates _ _ _)

theorem reaches_handleTurnStarted (turnId : Text) :
    Reaches (ledger builder) (ledger (builder.handleTurnStarted fresh turnId)) := by
  refine (reaches_finishCurrentTurn builder).trans ?_
  rw [ledger_none (currentTurn_finishCurrentTurn builder)]
  exact .single (.opens _ _)

/-- A change of the current turn that leaves its items. -/
theorem reaches_currentTurn {change : PendingTurn Data → PendingTurn Data}
    (same : ∀ turn, (change turn).items = turn.items) : Reaches (ledger builder)
      (ledger { builder with currentTurn := builder.currentTurn.map change }) := by
  cases current : builder.currentTurn with
  | none => rw [ledger_none current, ledger_none rfl]
  | some turn =>
      simp only [ledger, current, Option.map_some, same]
      exact .refl

theorem grows_refl (items : List (ThreadItem Data)) : Grows items items := ⟨0, rfl⟩

theorem reaches_handleTurnAborted (turnId : Option Text) :
    Reaches (ledger builder) (ledger (builder.handleTurnAborted turnId)) := by
  cases turnId with
  | none => exact reaches_currentTurn builder fun _ => rfl
  | some turnId =>
      rw [ThreadHistoryBuilder.handleTurnAborted]
      split_ifs
      · exact reaches_currentTurn builder fun _ => rfl
      · exact reaches_modifyFirst builder fun turn => grows_refl turn.items
      · exact reaches_currentTurn builder fun _ => rfl

theorem reaches_handleTurnComplete (turnId : Text) :
    Reaches (ledger builder) (ledger (builder.handleTurnComplete turnId)) := by
  have marked : Reaches (ledger builder) (ledger { builder with
      currentTurn := builder.currentTurn.map fun turn =>
        { turn with status := ThreadHistoryBuilder.markCompleted turn.status } }) :=
    reaches_currentTurn builder fun _ => rfl
  rw [ThreadHistoryBuilder.handleTurnComplete]
  split_ifs
  · exact marked.trans (reaches_finishCurrentTurn _)
  · exact reaches_modifyFirst builder fun turn => grows_refl turn.items
  · exact marked.trans (reaches_finishCurrentTurn _)

/-! ## What is handled -/

/-- The ids that come with an event. -/
def eventIds : EventMsg Data → List Text
  | .toolItem _ id _ => [id]
  | _ => []

theorem reaches_handleEvent {event : EventMsg Data} (apart : ∀ id ∈ eventIds event, ¬Generated id) :
    Reaches (ledger builder) (ledger (builder.handleEvent fresh event)) := by
  cases event with
  | userMessage payload => exact reaches_handleUserMessage fresh builder payload
  | agentMessage message data =>
      rw [ThreadHistoryBuilder.handleEvent, ThreadHistoryBuilder.handleAgentMessage]
      split
      · exact .refl
      · exact reaches_pushItem fresh builder fun _ => rfl
  | agentReasoning text
  | agentReasoningRawContent text => exact reaches_handleReasoning fresh builder text _
  | toolItem turnId id data =>
      have other : ¬Generated (ThreadItem.tool id data).id := apart id List.mem_cons_self
      cases turnId with
      | none => exact reaches_modifyItems fresh builder (grows_upsertTurnItem other _)
      | some turnId => exact reaches_upsertItemInTurnId builder other turnId
  | contextCompacted | enteredReviewMode hint
  | exitedReviewMode explanation => exact reaches_pushItem fresh builder fun _ => rfl
  | error affectsTurnStatus data =>
      rw [ThreadHistoryBuilder.handleEvent, ThreadHistoryBuilder.handleError]
      split
      · exact reaches_currentTurn builder fun _ => rfl
      · exact .refl
  | threadRolledBack numTurns => exact reaches_handleThreadRollback builder numTurns
  | turnAborted turnId => exact reaches_handleTurnAborted builder turnId
  | turnStarted turnId => exact reaches_handleTurnStarted fresh builder turnId
  | turnComplete turnId => exact reaches_handleTurnComplete builder turnId
  | other => exact .refl

/-- An input of a builder. -/
inductive HistoryInput (Data : Type) where
  | rolloutItem (item : RolloutItem Data)
  | event (event : EventMsg Data)

def handleInput : HistoryInput Data → ThreadHistoryBuilder Data
  | .rolloutItem item => builder.handleRolloutItem readers fresh item
  | .event event => builder.handleEvent fresh event

/-- The ids that come with an input: of tools, plans and hook prompts. -/
def inputIds : HistoryInput Data → List Text
  | .event event | .rolloutItem (.eventMsg event) => eventIds event
  | .rolloutItem (.responseItem (.message role content data)) =>
      if role = userRole ∧
          (ThreadHistoryBuilder.parseHookPromptMessage readers content).isSome then
        [fresh.hookPrompt data]
      else []
  | .rolloutItem _ => []

theorem reaches_handleResponseItem {item : ResponseItem Data}
    (apart : ∀ id ∈ inputIds readers fresh (.rolloutItem (.responseItem item)), ¬Generated id) :
    Reaches (ledger builder) (ledger (builder.handleResponseItem readers fresh item)) := by
  cases item with
  | message role content data =>
      rw [ThreadHistoryBuilder.handleResponseItem]
      split
      case isTrue user =>
        cases parsed : ThreadHistoryBuilder.parseHookPromptMessage readers content with
        | none => exact .refl
        | some fragments =>
            apply reaches_modifyItems fresh builder
            apply grows_append
            apply apart
            simp [inputIds, user, parsed, ThreadItem.id]
      case isFalse => exact .refl
  | _ => exact .refl

theorem reaches_handleInput {input : HistoryInput Data}
    (apart : ∀ id ∈ inputIds readers fresh input, ¬Generated id) :
    Reaches (ledger builder) (ledger (handleInput readers fresh builder input)) := by
  cases input with
  | event event => exact reaches_handleEvent fresh builder apart
  | rolloutItem item =>
      let advanced : ThreadHistoryBuilder Data :=
        { builder with
          currentRolloutIndex := builder.nextRolloutIndex
          nextRolloutIndex := builder.nextRolloutIndex + 1 }
      have counted : ledger builder = ledger advanced := rfl
      rw [counted]
      cases item with
      | eventMsg event => exact reaches_handleEvent fresh advanced apart
      | compacted compacted =>
          exact reaches_ensureTurn fresh advanced
      | responseItem item => exact reaches_handleResponseItem readers fresh advanced apart
      | turnContext context | sessionMeta data => exact .refl

/-- A builder after inputs, each with the ids that are new at it. -/
def handleAll (inputs : List (FreshIds Data × HistoryInput Data)) : ThreadHistoryBuilder Data :=
  inputs.foldl (fun builder (fresh, input) => handleInput readers fresh builder input)
    ThreadHistoryBuilder.new

theorem numbered_handleAll {inputs : List (FreshIds Data × HistoryInput Data)}
    (apart : ∀ step ∈ inputs, ∀ id ∈ inputIds readers step.1 step.2, ¬Generated id) :
    Numbered (ledger (handleAll readers inputs)) := by
  induction inputs using List.reverseRecOn with
  | nil => exact numbered_new
  | append_singleton inputs step ih =>
      rw [handleAll, List.foldl_append]
      apply (ih fun earlier member => apart earlier (List.mem_append_left _ member)).reaches
      exact reaches_handleInput readers step.1 _ (apart step (by simp))

/-- The numbered ids of the turns are pairwise different. -/
theorem generated_pairwise_ne {inputs : List (FreshIds Data × HistoryInput Data)}
    (apart : ∀ step ∈ inputs, ∀ id ∈ inputIds readers step.1 step.2, ¬Generated id) :
    ((handleAll readers inputs).finish.flatMap (·.items)).Pairwise
      fun first second => Generated first.id → first.id ≠ second.id := by
  have numbered := (numbered_handleAll readers apart).reaches
    (reaches_finishCurrentTurn (handleAll readers inputs))
  have nodup := numbered.nodup
  rw [ledger_none (currentTurn_finishCurrentTurn _)] at nodup
  have shown : numbers (((handleAll readers inputs).finish).map fun turn => block turn.items) =
      ((handleAll readers inputs).finish.flatMap (·.items)).filterMap
        fun item => indexOf item.id := by
    rw [List.filterMap_flatMap, numbers, List.flatMap_map]
    rfl
  rw [← ThreadHistoryBuilder.finish, shown, List.nodup_iff_pairwise_ne,
    List.pairwise_filterMap] at nodup
  apply nodup.imp
  rintro first second differ ⟨index, named⟩ same
  rw [← same, named, indexOf_itemId] at differ
  exact differ index rfl index rfl rfl

/-- A tool item and a rollback between numbered items. -/
theorem generated_pairwise_ne_rolledBack :
    let fresh : FreshIds Unit := ⟨fun _ => "turn".toList, fun _ => "hook".toList⟩
    let inputs : List (FreshIds Unit × HistoryInput Unit) :=
      [(fresh, .rolloutItem (.eventMsg (.userMessage ⟨"a".toList, none, [], []⟩))),
        (fresh, .rolloutItem (.eventMsg (.toolItem none "call".toList ()))),
        (fresh, .event (.threadRolledBack 1)), (fresh, .event (.agentMessage "b".toList ()))]
    ((handleAll ⟨fun _ => none, fun _ => false⟩ inputs).finish.flatMap (·.items)).Pairwise
      fun first second => Generated first.id → first.id ≠ second.id := by
  intro fresh inputs
  apply generated_pairwise_ne
  have apart : ¬Generated "call".toList := by
    rintro ⟨index, same⟩
    simp [itemId] at same
  simpa [inputs, inputIds, eventIds] using apart

/-- The ids of tools and plans that come with an input. -/
def callIds : HistoryInput Data → List Text
  | .event event | .rolloutItem (.eventMsg event) => eventIds event
  | .rolloutItem _ => []

def retryPrompt : Text := "<hook_prompt hook_run_id=\"run\">Retry.</hook_prompt>".toList

/-- The id of a hook prompt is the id of its message, whatever it is. -/
theorem hookPrompt_id_repeats :
    let readers : Readers :=
      ⟨fun text => if text = retryPrompt then some ("Retry.".toList, "run".toList) else none,
        fun _ => false⟩
    let fresh : FreshIds Unit := ⟨fun _ => "turn".toList, fun _ => "item-1".toList⟩
    let inputs : List (FreshIds Unit × HistoryInput Unit) :=
      [(fresh, .rolloutItem (.responseItem (.message userRole [.inputText retryPrompt] ()))),
        (fresh, .rolloutItem (.eventMsg (.userMessage ⟨"a".toList, none, [], []⟩)))]
    (∀ step ∈ inputs, callIds step.2 = []) ∧
      (((handleAll readers inputs).finish.flatMap (·.items)).map (·.id) =
        ["item-1".toList, "item-1".toList]) ∧
      ¬((handleAll readers inputs).finish.flatMap (·.items)).Pairwise
        fun first second => Generated first.id → first.id ≠ second.id := by
  intro readers fresh inputs
  have ids : ((handleAll readers inputs).finish.flatMap (·.items)).map (·.id) =
      ["item-1".toList, "item-1".toList] := by decide
  refine ⟨by simp [inputs, callIds, eventIds], ids, ?_⟩
  intro distinct
  have differ := List.pairwise_map (f := ThreadItem.id)
    (R := fun first second => Generated first → first ≠ second) |>.mpr distinct
  rw [ids] at differ
  exact List.rel_of_pairwise_cons differ (List.mem_singleton_self _) ⟨1, rfl⟩ rfl

end CodexPilot.Rollout
