import CodexPilot.ContextManager.Items

/-!
# Calls and their outputs

Before a history is sent to the model, every call gets an output and every output without a call is
dropped.  The two passes do not undo one another, whatever the order of the items and the use of
ids.
-/

namespace CodexPilot.ContextManager

open RustStd

variable {Data : Type}

/-! ## The passes -/

def abortedText : Text := "aborted".toList

def completedText : Text := "completed".toList

def clientText : Text := "client".toList

def serverText : Text := "server".toList

section Passes

variable (items : List (ResponseItem Data))

def hasFunctionCallOutput (callId : Text) : Bool :=
  items.any fun
    | .functionCallOutput existing _ => existing == callId
    | _ => false

def hasToolSearchOutput (callId : Text) : Bool :=
  items.any fun
    | .toolSearchOutput (some existing) _ _ _ => existing == callId
    | _ => false

def hasCustomToolCallOutput (callId : Text) : Bool :=
  items.any fun
    | .customToolCallOutput existing _ _ => existing == callId
    | _ => false

/-- The output that a call misses. -/
def missingOutput : ResponseItem Data → Option (ResponseItem Data)
  | .functionCall callId _ | .localShellCall (some callId) _ =>
      if hasFunctionCallOutput items callId then none
      else some (.functionCallOutput callId (.fromText abortedText))
  | .toolSearchCall (some callId) _ =>
      if hasToolSearchOutput items callId then none
      else some (.toolSearchOutput (some callId) completedText clientText [])
  | .customToolCall callId _ =>
      if hasCustomToolCallOutput items callId then none
      else some (.customToolCallOutput callId none (.fromText abortedText))
  | _ => none

/-- The missing outputs with the positions of their calls. -/
def missingOutputsToInsert : List (ℕ × ResponseItem Data) :=
  items.zipIdx.filterMap fun (item, idx) => (missingOutput items item).map (idx, ·)

/-- Insert the missing outputs behind their calls, from the last position to the first. -/
def ensureCallOutputsPresent : List (ResponseItem Data) :=
  (missingOutputsToInsert items).reverse.foldl
    (fun items (idx, output) => items.insertIdx (idx + 1) output) items

def functionCallIds : List Text :=
  items.filterMap fun
    | .functionCall callId _ => some callId
    | _ => none

def toolSearchCallIds : List Text :=
  items.filterMap fun
    | .toolSearchCall callId _ => callId
    | _ => none

def localShellCallIds : List Text :=
  items.filterMap fun
    | .localShellCall callId _ => callId
    | _ => none

def customToolCallIds : List Text :=
  items.filterMap fun
    | .customToolCall callId _ => some callId
    | _ => none

/-- An item is no orphan. -/
def hasMatch : ResponseItem Data → Bool
  | .functionCallOutput callId _ =>
      (functionCallIds items).contains callId || (localShellCallIds items).contains callId
  | .customToolCallOutput callId _ _ => (customToolCallIds items).contains callId
  | .toolSearchOutput callId _ execution _ =>
      if execution = serverText then true
      else
        match callId with
        | some callId => (toolSearchCallIds items).contains callId
        | none => true
  | _ => true

/-- `remove_orphan_outputs`. -/
def removeOrphanOutputs : List (ResponseItem Data) := items.filter (hasMatch items)

/-- Both passes over the calls and outputs. -/
def normalizeCalls : List (ResponseItem Data) :=
  removeOrphanOutputs (ensureCallOutputsPresent items)

end Passes

/-! ## Insertion from the back -/

theorem insertIdx_behind {α : Type*} (before after : List α) (item output : α) :
    (before ++ item :: after).insertIdx (before.length + 1) output =
      before ++ item :: output :: after := by
  induction before with
  | nil => rfl
  | cons first before ih => simpa using ih

/-- Insertions behind given positions, from the last to the first, put each new element right behind
the one it belongs to. -/
theorem insert_behind_eq_flatMap {α : Type*} (extra : α → Option α) (before items : List α) :
    ((items.zipIdx before.length).filterMap fun (item, idx) =>
      (extra item).map (idx, ·)).reverse.foldl
        (fun items (idx, output) => items.insertIdx (idx + 1) output) (before ++ items) =
      before ++ items.flatMap fun item => item :: (extra item).toList := by
  rw [List.foldl_reverse]
  induction items generalizing before with
  | nil => simp
  | cons item items ih =>
      have later := ih (before ++ [item])
      simp only [List.length_append, List.length_cons, List.length_nil, List.append_assoc,
        List.cons_append, List.nil_append] at later
      rw [List.zipIdx_cons, List.filterMap_cons, List.flatMap_cons]
      cases missing : extra item with
      | none =>
          simp only [missing, Option.map_none, Option.toList_none]
          exact later
      | some output =>
          simp only [missing, Option.map_some, Option.toList_some, List.foldr_cons]
          rw [later, insertIdx_behind]
          rfl

/-- Every item, with the output that it misses right behind it. -/
theorem ensureCallOutputsPresent_eq (items : List (ResponseItem Data)) :
    ensureCallOutputsPresent items =
      items.flatMap fun item => item :: (missingOutput items item).toList :=
  insert_behind_eq_flatMap (missingOutput items) [] items

/-! ## Calls and answers -/

/-- The kinds of calls, by the kind of their output. -/
inductive CallKind where
  | function
  | toolSearch
  | customTool
  deriving DecidableEq

namespace ResponseItem

/-- The call that an item makes. -/
def call : ResponseItem Data → Option (CallKind × Text)
  | .functionCall callId _ => some (.function, callId)
  | .localShellCall callId _ => callId.map (.function, ·)
  | .toolSearchCall callId _ => callId.map (.toolSearch, ·)
  | .customToolCall callId _ => some (.customTool, callId)
  | _ => none

/-- The call that an item answers. -/
def answer : ResponseItem Data → Option (CallKind × Text)
  | .functionCallOutput callId _ => some (.function, callId)
  | .toolSearchOutput callId _ _ _ => callId.map (.toolSearch, ·)
  | .customToolCallOutput callId _ _ => some (.customTool, callId)
  | _ => none

/-- An output that the server has made of its own accord. -/
def isServerSide : ResponseItem Data → Bool
  | .toolSearchOutput _ _ execution _ => execution = serverText
  | _ => false

end ResponseItem

/-- The output that stands for a call that was aborted. -/
def abortedOutput : CallKind × Text → ResponseItem Data
  | (.function, callId) => .functionCallOutput callId (.fromText abortedText)
  | (.toolSearch, callId) => .toolSearchOutput (some callId) completedText clientText []
  | (.customTool, callId) => .customToolCallOutput callId none (.fromText abortedText)

section Keys

variable {items : List (ResponseItem Data)} {item output : ResponseItem Data}
  {key : CallKind × Text}

/-- An item answers a call. -/
def Answered (items : List (ResponseItem Data)) (key : CallKind × Text) : Prop :=
  ∃ output ∈ items, output.answer = some key

/-- An item makes a call. -/
def Called (items : List (ResponseItem Data)) (key : CallKind × Text) : Prop :=
  ∃ item ∈ items, item.call = some key

theorem hasFunctionCallOutput_iff {callId : Text} :
    hasFunctionCallOutput items callId = true ↔ Answered items (.function, callId) := by
  simp only [hasFunctionCallOutput, List.any_eq_true, Answered]
  refine exists_congr fun output => and_congr_right fun _ => ?_
  cases output <;> simp [ResponseItem.answer]

theorem hasToolSearchOutput_iff {callId : Text} :
    hasToolSearchOutput items callId = true ↔ Answered items (.toolSearch, callId) := by
  simp only [hasToolSearchOutput, List.any_eq_true, Answered]
  refine exists_congr fun output => and_congr_right fun _ => ?_
  cases output with
  | toolSearchOutput existing => cases existing <;> simp [ResponseItem.answer]
  | _ => simp [ResponseItem.answer]

theorem hasCustomToolCallOutput_iff {callId : Text} :
    hasCustomToolCallOutput items callId = true ↔ Answered items (.customTool, callId) := by
  simp only [hasCustomToolCallOutput, List.any_eq_true, Answered]
  refine exists_congr fun output => and_congr_right fun _ => ?_
  cases output <;> simp [ResponseItem.answer]

theorem exists_of_answered_function {callId : Text}
    (answered : Answered items (.function, callId)) :
    ∃ output, .functionCallOutput callId output ∈ items := by
  obtain ⟨item, member, answers⟩ := answered
  cases item with
  | functionCallOutput other output =>
      cases answers
      exact ⟨output, member⟩
  | toolSearchOutput other => cases other <;> cases answers
  | _ => cases answers

theorem exists_of_answered_toolSearch {callId : Text}
    (answered : Answered items (.toolSearch, callId)) :
    ∃ status execution tools,
      .toolSearchOutput (some callId) status execution tools ∈ items := by
  obtain ⟨item, member, answers⟩ := answered
  cases item with
  | toolSearchOutput other status execution tools =>
      obtain ⟨_, rfl, same⟩ := Option.map_eq_some_iff.mp answers
      cases same
      exact ⟨status, execution, tools, member⟩
  | _ => cases answers

theorem exists_of_answered_customTool {callId : Text}
    (answered : Answered items (.customTool, callId)) :
    ∃ name output, .customToolCallOutput callId name output ∈ items := by
  obtain ⟨item, member, answers⟩ := answered
  cases item with
  | customToolCallOutput other name output =>
      cases answers
      exact ⟨name, output, member⟩
  | toolSearchOutput other => cases other <;> cases answers
  | _ => cases answers

theorem exists_of_called_function {callId : Text} (called : Called items (.function, callId)) :
    ∃ data, .functionCall callId data ∈ items ∨ .localShellCall (some callId) data ∈ items := by
  obtain ⟨item, member, isCall⟩ := called
  cases item with
  | functionCall other data =>
      cases isCall
      exact ⟨data, .inl member⟩
  | localShellCall other data =>
      obtain ⟨_, rfl, same⟩ := Option.map_eq_some_iff.mp isCall
      cases same
      exact ⟨data, .inr member⟩
  | toolSearchCall other => cases other <;> cases isCall
  | _ => cases isCall

theorem exists_of_called_toolSearch {callId : Text} (called : Called items (.toolSearch, callId)) :
    ∃ data, .toolSearchCall (some callId) data ∈ items := by
  obtain ⟨item, member, isCall⟩ := called
  cases item with
  | toolSearchCall other data =>
      obtain ⟨_, rfl, same⟩ := Option.map_eq_some_iff.mp isCall
      cases same
      exact ⟨data, member⟩
  | localShellCall other => cases other <;> cases isCall
  | _ => cases isCall

theorem exists_of_called_customTool {callId : Text} (called : Called items (.customTool, callId)) :
    ∃ data, .customToolCall callId data ∈ items := by
  obtain ⟨item, member, isCall⟩ := called
  cases item with
  | customToolCall other data =>
      cases isCall
      exact ⟨data, member⟩
  | toolSearchCall other | localShellCall other => cases other <;> cases isCall
  | _ => cases isCall

/-- A call misses its output exactly when no item answers it. -/
theorem missingOutput_eq_some_iff :
    missingOutput items item = some output ↔
      ∃ key, item.call = some key ∧ ¬ Answered items key ∧ abortedOutput key = output := by
  cases item with
  | functionCall callId data =>
      simp [missingOutput, ResponseItem.call, hasFunctionCallOutput_iff, abortedOutput]
  | localShellCall callId data =>
      cases callId with
      | none => simp [missingOutput, ResponseItem.call]
      | some callId =>
          simp [missingOutput, ResponseItem.call, hasFunctionCallOutput_iff, abortedOutput]
  | toolSearchCall callId data =>
      cases callId with
      | none => simp [missingOutput, ResponseItem.call]
      | some callId =>
          simp [missingOutput, ResponseItem.call, hasToolSearchOutput_iff, abortedOutput]
  | customToolCall callId data =>
      simp [missingOutput, ResponseItem.call, hasCustomToolCallOutput_iff, abortedOutput]
  | _ => simp [missingOutput, ResponseItem.call]

theorem mem_functionCallIds {callId : Text} :
    callId ∈ functionCallIds items ∨ callId ∈ localShellCallIds items ↔
      Called items (.function, callId) := by
  simp only [functionCallIds, localShellCallIds, List.mem_filterMap, Called, ← exists_or,
    ← and_or_left]
  refine exists_congr fun item => and_congr_right fun _ => ?_
  cases item <;> simp [ResponseItem.call]

theorem mem_toolSearchCallIds {callId : Text} :
    callId ∈ toolSearchCallIds items ↔ Called items (.toolSearch, callId) := by
  simp only [toolSearchCallIds, List.mem_filterMap, Called]
  refine exists_congr fun item => and_congr_right fun _ => ?_
  cases item <;> simp [ResponseItem.call]

theorem mem_customToolCallIds {callId : Text} :
    callId ∈ customToolCallIds items ↔ Called items (.customTool, callId) := by
  simp only [customToolCallIds, List.mem_filterMap, Called]
  refine exists_congr fun item => and_congr_right fun _ => ?_
  cases item <;> simp [ResponseItem.call]

/-- An item has a match unless it answers a call that no item makes. -/
theorem hasMatch_iff :
    hasMatch items item = true ↔
      item.isServerSide = true ∨ ∀ key, item.answer = some key → Called items key := by
  cases item with
  | functionCallOutput callId output =>
      simp [hasMatch, ResponseItem.isServerSide, ResponseItem.answer, mem_functionCallIds]
  | customToolCallOutput callId name output =>
      simp [hasMatch, ResponseItem.isServerSide, ResponseItem.answer, mem_customToolCallIds]
  | toolSearchOutput callId status execution tools =>
      cases callId with
      | none => simp [hasMatch, ResponseItem.answer]
      | some callId =>
          simp [hasMatch, ResponseItem.isServerSide, ResponseItem.answer, mem_toolSearchCallIds]
  | _ => simp [hasMatch, ResponseItem.answer]

@[simp]
theorem call_abortedOutput (key : CallKind × Text) :
    (abortedOutput key : ResponseItem Data).call = none := by
  obtain ⟨kind, callId⟩ := key
  cases kind <;> rfl

@[simp]
theorem answer_abortedOutput (key : CallKind × Text) :
    (abortedOutput key : ResponseItem Data).answer = some key := by
  obtain ⟨kind, callId⟩ := key
  cases kind <;> rfl

theorem answer_eq_none_of_call (called : item.call = some key) : item.answer = none := by
  cases item with
  | functionCall | localShellCall | toolSearchCall | customToolCall => rfl
  | _ => cases called

/-! ## The passes agree -/

theorem mem_ensureCallOutputsPresent :
    output ∈ ensureCallOutputsPresent items ↔
      output ∈ items ∨ ∃ item ∈ items, missingOutput items item = some output := by
  simp only [ensureCallOutputsPresent_eq, List.mem_flatMap, List.mem_cons, Option.mem_toList]
  constructor
  · rintro ⟨item, member, rfl | missing⟩
    · exact .inl member
    · exact .inr ⟨item, member, missing⟩
  · rintro (member | ⟨item, member, missing⟩)
    · exact ⟨output, member, .inl rfl⟩
    · exact ⟨item, member, .inr missing⟩

/-- The first pass makes no calls. -/
theorem called_ensureCallOutputsPresent_iff :
    Called (ensureCallOutputsPresent items) key ↔ Called items key := by
  constructor
  · rintro ⟨item, member, called⟩
    rcases mem_ensureCallOutputsPresent.mp member with old | ⟨caller, -, missing⟩
    · exact ⟨item, old, called⟩
    · obtain ⟨_, -, -, rfl⟩ := missingOutput_eq_some_iff.mp missing
      simp at called
  · rintro ⟨item, member, called⟩
    exact ⟨item, mem_ensureCallOutputsPresent.mpr (.inl member), called⟩

/-- The first pass answers every call. -/
theorem answered_ensureCallOutputsPresent (called : Called items key) :
    Answered (ensureCallOutputsPresent items) key := by
  obtain ⟨item, member, isCall⟩ := called
  by_cases answered : Answered items key
  · obtain ⟨output, old, answers⟩ := answered
    exact ⟨output, mem_ensureCallOutputsPresent.mpr (.inl old), answers⟩
  · refine ⟨abortedOutput key, mem_ensureCallOutputsPresent.mpr (.inr ⟨item, member, ?_⟩), by simp⟩
    exact missingOutput_eq_some_iff.mpr ⟨key, isCall, answered, rfl⟩

/-- The second pass keeps every call. -/
theorem called_removeOrphanOutputs_iff :
    Called (removeOrphanOutputs items) key ↔ Called items key := by
  constructor
  · rintro ⟨item, member, called⟩
    exact ⟨item, List.mem_of_mem_filter member, called⟩
  · rintro ⟨item, member, called⟩
    refine ⟨item, List.mem_filter.mpr ⟨member, hasMatch_iff.mpr (.inr fun other answers => ?_)⟩,
      called⟩
    rw [answer_eq_none_of_call called] at answers
    cases answers

/-- The second pass keeps the answers of calls. -/
theorem answered_removeOrphanOutputs (called : Called items key) (answered : Answered items key) :
    Answered (removeOrphanOutputs items) key := by
  obtain ⟨output, member, answers⟩ := answered
  refine ⟨output, List.mem_filter.mpr ⟨member, hasMatch_iff.mpr (.inr fun other same => ?_)⟩,
    answers⟩
  cases answers.symm.trans same
  exact called

/-- Every call has an answer, and every output of a client has a call. -/
structure Balanced (items : List (ResponseItem Data)) : Prop where
  answered : ∀ key, Called items key → Answered items key
  called : ∀ output ∈ items, output.isServerSide = false →
    ∀ key, output.answer = some key → Called items key

theorem balanced_normalizeCalls (items : List (ResponseItem Data)) :
    Balanced (normalizeCalls items) := by
  constructor
  · intro key called
    have before := called_removeOrphanOutputs_iff.mp called
    refine answered_removeOrphanOutputs before (answered_ensureCallOutputsPresent ?_)
    exact called_ensureCallOutputsPresent_iff.mp before
  · intro output member client key answers
    have kept := hasMatch_iff.mp (List.mem_filter.mp member).2
    rw [client] at kept
    refine called_removeOrphanOutputs_iff.mpr ?_
    simpa using kept.resolve_left (by simp) key answers

/-- Nothing is to be done for a balanced history. -/
theorem normalizeCalls_of_balanced (balanced : Balanced items) : normalizeCalls items = items := by
  have complete : ∀ item ∈ items, missingOutput items item = none := by
    intro item member
    by_contra missing
    obtain ⟨output, isMissing⟩ := Option.ne_none_iff_exists'.mp missing
    obtain ⟨key, called, unanswered, -⟩ := missingOutput_eq_some_iff.mp isMissing
    exact unanswered (balanced.answered key ⟨item, member, called⟩)
  have ensured : ensureCallOutputsPresent items = items := by
    rw [ensureCallOutputsPresent_eq]
    calc
      items.flatMap (fun item => item :: (missingOutput items item).toList) =
          items.flatMap (fun item => [item]) :=
        List.flatMap_congr fun item member => by rw [complete item member]; rfl
      _ = items := by simp
  rw [normalizeCalls, ensured, removeOrphanOutputs, List.filter_eq_self]
  intro item member
  refine hasMatch_iff.mpr ?_
  cases server : item.isServerSide with
  | true => exact .inl rfl
  | false => exact .inr (balanced.called item member server)

/-- A filter that keeps or drops whole blocks filters the elements that the blocks are of. -/
theorem filter_flatMap_blocks {α : Type*} {keep : α → Bool} {block : α → List α} {rest : List α}
    (whole : ∀ item ∈ rest, (block item).filter keep = if keep item then block item else []) :
    (rest.flatMap block).filter keep = (rest.filter keep).flatMap block := by
  induction rest with
  | nil => rfl
  | cons item rest ih =>
      have later := ih fun other member => whole other (List.mem_cons_of_mem item member)
      rw [List.flatMap_cons, List.filter_append, whole item List.mem_cons_self, later,
        List.filter_cons]
      cases keep item with
      | false | true => rfl

/-- Both passes: the items with a match, each with the output that it misses right behind it. -/
theorem normalizeCalls_eq (items : List (ResponseItem Data)) :
    normalizeCalls items =
      (items.filter (hasMatch items)).flatMap
        fun item => item :: (missingOutput items item).toList := by
  have same : hasMatch (ensureCallOutputsPresent items) = hasMatch items := by
    funext item
    rw [Bool.eq_iff_iff, hasMatch_iff, hasMatch_iff]
    simp only [called_ensureCallOutputsPresent_iff]
  rw [normalizeCalls, removeOrphanOutputs, same, ensureCallOutputsPresent_eq]
  refine filter_flatMap_blocks fun item member => ?_
  cases missing : missingOutput items item with
  | none => cases kept : hasMatch items item <;> simp [kept]
  | some output =>
      obtain ⟨key, called, -, rfl⟩ := missingOutput_eq_some_iff.mp missing
      have kept : hasMatch items item = true := by
        refine hasMatch_iff.mpr (.inr fun other answers => ?_)
        rw [answer_eq_none_of_call called] at answers
        cases answers
      have inserted : hasMatch items (abortedOutput key) = true := by
        refine hasMatch_iff.mpr (.inr fun other answers => ?_)
        rw [answer_abortedOutput] at answers
        cases answers
        exact ⟨item, member, called⟩
      simp [kept, inserted]

theorem isOutput_of_answer (answers : item.answer = some key) : item.isOutput = true := by
  cases item with
  | functionCallOutput | customToolCallOutput | toolSearchOutput => rfl
  | _ => cases answers

theorem hasMatch_of_isOutput_eq_false (kept : item.isOutput = false) :
    hasMatch items item = true := by
  refine hasMatch_iff.mpr (.inr fun key answers => ?_)
  rw [isOutput_of_answer answers] at kept
  cases kept

/-- A filter that drops all that was put in filters what was there before. -/
theorem filter_flatMap_dropped {α : Type*} {keep : α → Bool} {extra : α → List α} (rest : List α)
    (dropped : ∀ item, (extra item).filter keep = []) :
    (rest.flatMap fun item => item :: extra item).filter keep = rest.filter keep := by
  induction rest with
  | nil => rfl
  | cons item rest ih =>
      rw [List.flatMap_cons, List.filter_append, List.filter_cons, dropped, ih,
        List.filter_cons]
      cases keep item with
      | false | true => rfl

/-- Whatever is not an output is kept, in order. -/
theorem filter_normalizeCalls (items : List (ResponseItem Data)) :
    (normalizeCalls items).filter (fun item => !item.isOutput) =
      items.filter fun item => !item.isOutput := by
  have outputs : ∀ item, ((missingOutput items item).toList).filter (fun item => !item.isOutput) =
      [] := by
    intro item
    cases missing : missingOutput items item with
    | none => rfl
    | some output =>
        obtain ⟨key, -, -, rfl⟩ := missingOutput_eq_some_iff.mp missing
        have inserted : (abortedOutput key : ResponseItem Data).isOutput = true :=
          isOutput_of_answer (answer_abortedOutput key)
        simp [inserted]
  rw [normalizeCalls_eq, filter_flatMap_dropped _ outputs, List.filter_filter]
  refine List.filter_congr fun item _ => ?_
  cases kind : item.isOutput with
  | true => rfl
  | false => simpa using hasMatch_of_isOutput_eq_false kind

/-- The history is balanced after both passes: every call has an output of its kind, every output of
a client has a call of its kind, all other items are kept in order, each inserted output is right
behind its call, and a second round changes nothing. -/
theorem normalizeCalls_spec (items : List (ResponseItem Data)) :
    (∀ callId data, .functionCall callId data ∈ normalizeCalls items →
      ∃ output, .functionCallOutput callId output ∈ normalizeCalls items) ∧
    (∀ callId data, .localShellCall (some callId) data ∈ normalizeCalls items →
      ∃ output, .functionCallOutput callId output ∈ normalizeCalls items) ∧
    (∀ callId data, .toolSearchCall (some callId) data ∈ normalizeCalls items →
      ∃ status execution tools,
        .toolSearchOutput (some callId) status execution tools ∈ normalizeCalls items) ∧
    (∀ callId data, .customToolCall callId data ∈ normalizeCalls items →
      ∃ name output, .customToolCallOutput callId name output ∈ normalizeCalls items) ∧
    (∀ callId output, .functionCallOutput callId output ∈ normalizeCalls items →
      ∃ data, .functionCall callId data ∈ normalizeCalls items ∨
        .localShellCall (some callId) data ∈ normalizeCalls items) ∧
    (∀ callId name output, .customToolCallOutput callId name output ∈ normalizeCalls items →
      ∃ data, .customToolCall callId data ∈ normalizeCalls items) ∧
    (∀ callId status execution tools, execution ≠ serverText →
      .toolSearchOutput (some callId) status execution tools ∈ normalizeCalls items →
      ∃ data, .toolSearchCall (some callId) data ∈ normalizeCalls items) ∧
    (normalizeCalls items).filter (fun item => !item.isOutput) =
      items.filter (fun item => !item.isOutput) ∧
    normalizeCalls items =
      (items.filter (hasMatch items)).flatMap
        (fun item => item :: (missingOutput items item).toList) ∧
    normalizeCalls (normalizeCalls items) = normalizeCalls items := by
  have balanced := balanced_normalizeCalls items
  refine ⟨?_, ?_, ?_, ?_, ?_, ?_, ?_, filter_normalizeCalls items, normalizeCalls_eq items,
    normalizeCalls_of_balanced balanced⟩
  · intro callId data member
    exact exists_of_answered_function (balanced.answered _ ⟨_, member, rfl⟩)
  · intro callId data member
    exact exists_of_answered_function (balanced.answered _ ⟨_, member, rfl⟩)
  · intro callId data member
    exact exists_of_answered_toolSearch (balanced.answered _ ⟨_, member, rfl⟩)
  · intro callId data member
    exact exists_of_answered_customTool (balanced.answered _ ⟨_, member, rfl⟩)
  · intro callId output member
    exact exists_of_called_function (balanced.called _ member rfl _ rfl)
  · intro callId name output member
    exact exists_of_called_customTool (balanced.called _ member rfl _ rfl)
  · intro callId status execution tools client member
    refine exists_of_called_toolSearch (balanced.called _ member ?_ _ rfl)
    simpa [ResponseItem.isServerSide] using client

end Keys

end CodexPilot.ContextManager
