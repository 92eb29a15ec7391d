import CodexPilot.ContextManager.History
import CodexPilot.ContextManager.Normalize

/-!
# Trimming a history

When the first or the last item of a history is removed, the call or output that belongs to it goes
with it.  So a history in which calls and outputs come in pairs keeps its pairs.
-/

namespace CodexPilot.ContextManager

open RustStd

variable {Data : Type}

/-! ## Removals -/

def removeFirstMatching (items : List (ResponseItem Data)) (predicate : ResponseItem Data → Bool) :
    List (ResponseItem Data) :=
  match items.findIdx? predicate with
  | some pos => items.eraseIdx pos
  | none => items

def isFunctionCall (callId : Text) : ResponseItem Data → Bool
  | .functionCall existing _ => existing == callId
  | _ => false

def isFunctionCallOutput (callId : Text) : ResponseItem Data → Bool
  | .functionCallOutput existing _ => existing == callId
  | _ => false

def isLocalShellCall (callId : Text) : ResponseItem Data → Bool
  | .localShellCall (some existing) _ => existing == callId
  | _ => false

def isToolSearchCall (callId : Text) : ResponseItem Data → Bool
  | .toolSearchCall (some existing) _ => existing == callId
  | _ => false

def isToolSearchOutput (callId : Text) : ResponseItem Data → Bool
  | .toolSearchOutput (some existing) _ _ _ => existing == callId
  | _ => false

def isCustomToolCall (callId : Text) : ResponseItem Data → Bool
  | .customToolCall existing _ => existing == callId
  | _ => false

def isCustomToolCallOutput (callId : Text) : ResponseItem Data → Bool
  | .customToolCallOutput existing _ _ => existing == callId
  | _ => false

/-- Remove the call or the output that belongs to an item. -/
def removeCorrespondingFor (items : List (ResponseItem Data)) :
    ResponseItem Data → List (ResponseItem Data)
  | .functionCall callId _ => removeFirstMatching items (isFunctionCallOutput callId)
  | .functionCallOutput callId _ =>
      match items.findIdx? (isFunctionCall callId) with
      | some pos => items.eraseIdx pos
      | none => removeFirstMatching items (isLocalShellCall callId)
  | .toolSearchCall (some callId) _ => removeFirstMatching items (isToolSearchOutput callId)
  | .toolSearchOutput (some callId) _ _ _ => removeFirstMatching items (isToolSearchCall callId)
  | .customToolCall callId _ => removeFirstMatching items (isCustomToolCallOutput callId)
  | .customToolCallOutput callId _ _ => removeFirstMatching items (isCustomToolCall callId)
  | .localShellCall (some callId) _ => removeFirstMatching items (isFunctionCallOutput callId)
  | _ => items

namespace History

/-- `remove_first_item`. -/
def removeFirstItem (history : History Data) : History Data :=
  match history.items with
  | [] => history
  | removed :: items => history.replace (removeCorrespondingFor items removed)

/-- The history, and whether there was an item. -/
def removeLastItem (history : History Data) : History Data × Bool :=
  match history.items.getLast? with
  | some removed => (history.replace (removeCorrespondingFor history.items.dropLast removed), true)
  | none => (history, false)

end History

/-! ## Pairs -/

/-- One item is the call of the other one's output. -/
def IsCounterpart (item partner : ResponseItem Data) : Prop :=
  (item.call.isSome = true ∧ partner.answer = item.call) ∨
    (item.answer.isSome = true ∧ partner.call = item.answer)

instance (item partner : ResponseItem Data) : Decidable (IsCounterpart item partner) :=
  inferInstanceAs (Decidable ((_ ∧ _) ∨ (_ ∧ _)))

/-- Every call has an output of its kind, and every output a call, but for the outputs that are
exempt; and there are no two calls and no two outputs for one id of a kind. -/
structure Paired (exempt : ResponseItem Data → Bool) (items : List (ResponseItem Data)) : Prop where
  answered : ∀ key, Called items key → Answered items key
  called : ∀ output ∈ items, exempt output = false →
    ∀ key, output.answer = some key → Called items key
  oneCall : ∀ key, items.countP (·.call = some key) ≤ 1
  oneAnswer : ∀ key, items.countP (·.answer = some key) ≤ 1

section Pairs

variable {items front back : List (ResponseItem Data)} {item partner : ResponseItem Data}
  {key : CallKind × Text} {output : FunctionCallOutputPayload} {exempt : ResponseItem Data → Bool}

/-- No item is both a call and an output. -/
theorem answer_of_call (isCall : item.call = some key) : item.answer = none := by
  cases item with
  | functionCallOutput | customToolCallOutput | toolSearchOutput => cases isCall
  | _ => rfl

theorem isCounterpart_of_call (isCall : item.call = some key) :
    IsCounterpart item partner ↔ partner.answer = some key := by
  simp [IsCounterpart, isCall, answer_of_call isCall]

theorem isCounterpart_of_answer (answers : item.answer = some key) :
    IsCounterpart item partner ↔ partner.call = some key := by
  have noCall : item.call = none := by
    cases isCall : item.call with
    | none => rfl
    | some other =>
        rw [answer_of_call isCall] at answers
        cases answers
  simp [IsCounterpart, answers, noCall]

theorem removeFirstMatching_eq_eraseP (predicate : ResponseItem Data → Bool) :
    removeFirstMatching items predicate = items.eraseP predicate := by
  rw [removeFirstMatching, List.eraseP_eq_eraseIdx]
  cases items.findIdx? predicate <;> rfl

theorem removeFirstMatching_eq_filter {predicate : ResponseItem Data → Bool}
    (one : items.countP predicate ≤ 1) :
    removeFirstMatching items predicate = items.filter (!predicate ·) := by
  rw [removeFirstMatching_eq_eraseP]
  induction items with
  | nil => rfl
  | cons item items ih =>
      cases found : predicate item with
      | true =>
          rw [List.countP_cons_of_pos found] at one
          have none : items.countP predicate = 0 := by omega
          rw [List.eraseP_cons_of_pos found, List.filter_cons_of_neg (by simp [found]),
            List.filter_eq_self.mpr]
          intro partner member
          simpa using List.countP_eq_zero.mp none partner member
      | false =>
          rw [List.countP_cons_of_neg (by simp [found])] at one
          rw [List.eraseP_cons_of_neg (by simp [found]),
            List.filter_cons_of_pos (by simp [found]), ih one]

/-- What the predicates look for. -/
theorem isFunctionCallOutput_iff {callId : Text} :
    isFunctionCallOutput callId item = true ↔ item.answer = some (.function, callId) := by
  cases item with
  | toolSearchOutput existing => cases existing <;> simp [isFunctionCallOutput, ResponseItem.answer]
  | _ => simp [isFunctionCallOutput, ResponseItem.answer]

theorem isCustomToolCallOutput_iff {callId : Text} :
    isCustomToolCallOutput callId item = true ↔ item.answer = some (.customTool, callId) := by
  cases item with
  | toolSearchOutput existing =>
      cases existing <;> simp [isCustomToolCallOutput, ResponseItem.answer]
  | _ => simp [isCustomToolCallOutput, ResponseItem.answer]

theorem isToolSearchOutput_iff {callId : Text} :
    isToolSearchOutput callId item = true ↔ item.answer = some (.toolSearch, callId) := by
  cases item with
  | toolSearchOutput existing => cases existing <;> simp [isToolSearchOutput, ResponseItem.answer]
  | _ => simp [isToolSearchOutput, ResponseItem.answer]

theorem isFunctionOrShellCall_iff {callId : Text} :
    isFunctionCall callId item = true ∨ isLocalShellCall callId item = true ↔
      item.call = some (.function, callId) := by
  cases item with
  | localShellCall existing | toolSearchCall existing =>
      cases existing <;> simp [isFunctionCall, isLocalShellCall, ResponseItem.call]
  | _ => simp [isFunctionCall, isLocalShellCall, ResponseItem.call]

theorem isToolSearchCall_iff {callId : Text} :
    isToolSearchCall callId item = true ↔ item.call = some (.toolSearch, callId) := by
  cases item with
  | localShellCall existing
  | toolSearchCall existing => cases existing <;> simp [isToolSearchCall, ResponseItem.call]
  | _ => simp [isToolSearchCall, ResponseItem.call]

theorem isCustomToolCall_iff {callId : Text} :
    isCustomToolCall callId item = true ↔ item.call = some (.customTool, callId) := by
  cases item with
  | localShellCall existing
  | toolSearchCall existing => cases existing <;> simp [isCustomToolCall, ResponseItem.call]
  | _ => simp [isCustomToolCall, ResponseItem.call]

theorem removeFirstMatching_of_iff {predicate : ResponseItem Data → Bool}
    {p : ResponseItem Data → Prop} [DecidablePred p] (same : ∀ item, predicate item = true ↔ p item)
    (one : items.countP (p ·) ≤ 1) : removeFirstMatching items predicate = items.filter (¬p ·) := by
  have alike : ∀ item, decide (p item) = predicate item := fun item => by
    cases found : predicate item with
    | true => exact decide_eq_true ((same item).mp found)
    | false => exact decide_eq_false fun holds => by simp [(same item).mpr holds] at found
  simp only [decide_not, alike] at one ⊢
  exact removeFirstMatching_eq_filter one

/-- With one call for an id, it does not matter which kind is looked for first. -/
theorem removeCorrespondingFor_output {callId : Text} (output : FunctionCallOutputPayload)
    (one : items.countP (·.call = some (.function, callId)) ≤ 1) :
    removeCorrespondingFor items (.functionCallOutput callId output) =
      items.filter (¬·.call = some (.function, callId)) := by
  have either : removeCorrespondingFor items (.functionCallOutput callId output) =
      if items.any (isFunctionCall callId) then items.eraseP (isFunctionCall callId)
      else items.eraseP (isLocalShellCall callId) := by
    simp only [removeCorrespondingFor, removeFirstMatching_eq_eraseP]
    cases found : items.findIdx? (isFunctionCall callId) with
    | none =>
        have missing : items.any (isFunctionCall callId) = false := by
          simpa using List.findIdx?_eq_none_iff.mp found
        rw [missing]
        rfl
    | some pos =>
        have present : items.any (isFunctionCall callId) = true := by
          rw [← List.findIdx?_isSome, found, Option.isSome_some]
        rw [present, if_pos rfl, List.eraseP_eq_eraseIdx (p := isFunctionCall callId), found]
  rw [either]
  clear either
  induction items with
  | nil => rfl
  | cons item items ih =>
      by_cases isCall : item.call = some (.function, callId)
      · rw [List.countP_cons_of_pos (by simpa using isCall)] at one
        have none : ∀ partner ∈ items, ¬partner.call = some (.function, callId) := by
          simpa using List.countP_eq_zero.mp (Nat.le_zero.mp (Nat.le_of_succ_le_succ one))
        have kept : items.filter (¬·.call = some (.function, callId)) = items := by
          rw [List.filter_eq_self]
          simpa using none
        have noFunction : items.any (isFunctionCall callId) = false := by
          rw [List.any_eq_false]
          exact fun partner member isFunction =>
            none partner member (isFunctionOrShellCall_iff.mp (.inl isFunction))
        rw [List.filter_cons_of_neg (by simp [isCall]), kept, List.any_cons, noFunction,
          Bool.or_false]
        cases isFunction : isFunctionCall callId item with
        | true => rw [if_pos rfl, List.eraseP_cons_of_pos isFunction]
        | false =>
            have either := isFunctionOrShellCall_iff.mpr isCall
            have isShell := either.resolve_left (by simp [isFunction])
            rw [if_neg Bool.false_ne_true, List.eraseP_cons_of_pos isShell]
      · have neither := mt isFunctionOrShellCall_iff.mp isCall
        rw [not_or] at neither
        rw [List.countP_cons_of_neg (by simpa using isCall)] at one
        rw [List.filter_cons_of_pos (by simpa using isCall), ← ih one, List.any_cons,
          List.eraseP_cons_of_neg neither.1, List.eraseP_cons_of_neg neither.2,
          Bool.eq_false_iff.mpr neither.1, Bool.false_or]
        split <;> rfl

/-- The items that are no counterpart. -/
def withoutCounterpart (item : ResponseItem Data) (items : List (ResponseItem Data)) :
    List (ResponseItem Data) :=
  items.filter (¬IsCounterpart item ·)

/-- When ids are used once, the counterpart is what is removed. -/
theorem removeCorrespondingFor_eq (oneCall : ∀ key, items.countP (·.call = some key) ≤ 1)
    (oneAnswer : ∀ key, items.countP (·.answer = some key) ≤ 1) (item : ResponseItem Data) :
    removeCorrespondingFor items item = withoutCounterpart item items := by
  have ofCall {key : CallKind × Text} (isCall : item.call = some key) :
      items.filter (¬·.answer = some key) = withoutCounterpart item items := by
    refine List.filter_congr fun partner _ => ?_
    simp [isCounterpart_of_call isCall]
  have ofAnswer {key : CallKind × Text} (answers : item.answer = some key) :
      items.filter (¬·.call = some key) = withoutCounterpart item items := by
    refine List.filter_congr fun partner _ => ?_
    simp [isCounterpart_of_answer answers]
  have alone (noCall : item.call = none) (noAnswer : item.answer = none) :
      items = withoutCounterpart item items := by
    rw [withoutCounterpart, eq_comm, List.filter_eq_self]
    simp [IsCounterpart, noCall, noAnswer]
  cases item with
  | functionCall callId data =>
      rw [removeCorrespondingFor, ← ofCall rfl]
      exact removeFirstMatching_of_iff (fun _ => isFunctionCallOutput_iff) (oneAnswer _)
  | functionCallOutput callId output =>
      rw [← ofAnswer rfl]
      exact removeCorrespondingFor_output output (oneCall _)
  | toolSearchCall callId data =>
      cases callId with
      | none => exact alone rfl rfl
      | some callId =>
          rw [removeCorrespondingFor, ← ofCall rfl]
          exact removeFirstMatching_of_iff (fun _ => isToolSearchOutput_iff) (oneAnswer _)
  | toolSearchOutput callId status execution tools =>
      cases callId with
      | none => exact alone rfl rfl
      | some callId =>
          rw [removeCorrespondingFor, ← ofAnswer rfl]
          exact removeFirstMatching_of_iff (fun _ => isToolSearchCall_iff) (oneCall _)
  | customToolCall callId data =>
      rw [removeCorrespondingFor, ← ofCall rfl]
      exact removeFirstMatching_of_iff (fun _ => isCustomToolCallOutput_iff) (oneAnswer _)
  | customToolCallOutput callId name output =>
      rw [removeCorrespondingFor, ← ofAnswer rfl]
      exact removeFirstMatching_of_iff (fun _ => isCustomToolCall_iff) (oneCall _)
  | localShellCall callId data =>
      cases callId with
      | none => exact alone rfl rfl
      | some callId =>
          rw [removeCorrespondingFor, ← ofCall rfl]
          exact removeFirstMatching_of_iff (fun _ => isFunctionCallOutput_iff) (oneAnswer _)
  | _ => exact alone rfl rfl

theorem mem_withoutCounterpart {items : List (ResponseItem Data)} :
    partner ∈ withoutCounterpart item items ↔ partner ∈ items ∧ ¬IsCounterpart item partner := by
  simp [withoutCounterpart]

/-- An id of a kind is used once. -/
theorem not_both_of_countP {p : ResponseItem Data → Prop} [DecidablePred p]
    (one : (front ++ item :: back).countP (p ·) ≤ 1) (isFirst : p item)
    (member : partner ∈ front ++ back) : ¬p partner := by
  intro isSecond
  have positive : 0 < (front ++ back).countP (p ·) :=
    List.countP_pos_iff.mpr ⟨partner, member, decide_eq_true isSecond⟩
  rw [List.countP_append, List.countP_cons_of_pos (by simpa using isFirst)] at one
  rw [List.countP_append] at positive
  omega

/-- Without an item and its counterpart, calls and outputs are still in pairs. -/
theorem Paired.withoutCounterpart (paired : Paired exempt (front ++ item :: back)) :
    Paired exempt (withoutCounterpart item (front ++ back)) := by
  have rest : (front ++ back).Sublist (front ++ item :: back) :=
    (List.sublist_cons_self item back).append_left front
  have part : (ContextManager.withoutCounterpart item (front ++ back)).Sublist
      (front ++ item :: back) := List.filter_sublist.trans rest
  have itemOr {partner : ResponseItem Data} (member : partner ∈ front ++ item :: back) :
      partner = item ∨ partner ∈ front ++ back := by
    simpa [or_left_comm] using member
  refine ⟨?_, ?_, fun key => (part.countP_le).trans (paired.oneCall key),
    fun key => (part.countP_le).trans (paired.oneAnswer key)⟩
  · rintro key ⟨call, member, isCall⟩
    obtain ⟨inRest, noCounterpart⟩ := mem_withoutCounterpart.mp member
    obtain ⟨output, isMember, answers⟩ := paired.answered key ⟨call, rest.subset inRest, isCall⟩
    obtain rfl | outputInRest := itemOr isMember
    · exact absurd ((isCounterpart_of_answer answers).mpr isCall) noCounterpart
    · refine ⟨output, mem_withoutCounterpart.mpr ⟨outputInRest, ?_⟩, answers⟩
      rintro (⟨-, same⟩ | ⟨isOutput, same⟩)
      · exact not_both_of_countP (paired.oneCall key) (same.symm.trans answers) inRest isCall
      · obtain ⟨other, isOther⟩ := Option.isSome_iff_exists.mp isOutput
        rw [answer_of_call (same.trans isOther)] at answers
        cases answers
  · intro output member mustAnswer key answers
    obtain ⟨inRest, noCounterpart⟩ := mem_withoutCounterpart.mp member
    obtain ⟨call, isMember, isCall⟩ :=
      paired.called output (rest.subset inRest) mustAnswer key answers
    obtain rfl | callInRest := itemOr isMember
    · exact absurd ((isCounterpart_of_call isCall).mpr answers) noCounterpart
    · refine ⟨call, mem_withoutCounterpart.mpr ⟨callInRest, ?_⟩, isCall⟩
      rintro (⟨isSome, same⟩ | ⟨-, same⟩)
      · rw [answer_of_call isCall] at same
        rw [← same] at isSome
        cases isSome
      · exact not_both_of_countP (paired.oneAnswer key) (same.symm.trans isCall) inRest answers

/-- There is one counterpart at most. -/
theorem Paired.countP_isCounterpart (paired : Paired exempt (front ++ item :: back)) :
    (front ++ back).countP (IsCounterpart item ·) ≤ 1 := by
  have rest : (front ++ back).Sublist (front ++ item :: back) :=
    (List.sublist_cons_self item back).append_left front
  cases isCall : item.call with
  | some key =>
      simp only [isCounterpart_of_call isCall]
      exact rest.countP_le.trans (paired.oneAnswer key)
  | none =>
      cases answers : item.answer with
      | some key =>
          simp only [isCounterpart_of_answer answers]
          exact rest.countP_le.trans (paired.oneCall key)
      | none => simp [IsCounterpart, isCall, answers]

end Pairs

/-! ## Removals from both ends -/

/-- Which end of a history is cut. -/
inductive Removal where
  | first
  | last
  deriving DecidableEq

/-- One removal. -/
def Removal.apply (history : History Data) : Removal → History Data
  | .first => history.removeFirstItem
  | .last => history.removeLastItem.1

section Runs

variable {exempt : ResponseItem Data → Bool} {history : History Data}
  {removed : ResponseItem Data} {items front back : List (ResponseItem Data)}

theorem Paired.removeCorrespondingFor (paired : Paired exempt (front ++ removed :: back)) :
    ContextManager.removeCorrespondingFor (front ++ back) removed =
      ContextManager.withoutCounterpart removed (front ++ back) := by
  have rest : (front ++ back).Sublist (front ++ removed :: back) :=
    (List.sublist_cons_self removed back).append_left front
  exact removeCorrespondingFor_eq (fun key => rest.countP_le.trans (paired.oneCall key))
    (fun key => rest.countP_le.trans (paired.oneAnswer key)) removed

theorem items_removeFirstItem (paired : Paired exempt history.items)
    (split : history.items = removed :: back) :
    history.removeFirstItem.items = withoutCounterpart removed back := by
  have whole : Paired exempt ([] ++ removed :: back) := split ▸ paired
  rw [History.removeFirstItem, split]
  exact whole.removeCorrespondingFor

theorem items_removeLastItem (paired : Paired exempt history.items)
    (split : history.items = front ++ [removed]) :
    history.removeLastItem.1.items = withoutCounterpart removed front := by
  rw [split] at paired
  have same := Paired.removeCorrespondingFor paired
  rw [List.append_nil] at same
  simp only [History.removeLastItem, split, List.getLast?_concat, List.dropLast_concat]
  exact same

theorem Paired.apply (paired : Paired exempt history.items) (removal : Removal) :
    Paired exempt (removal.apply history).items := by
  cases removal with
  | first =>
      cases split : history.items with
      | nil =>
          rw [Removal.apply, History.removeFirstItem, split]
          exact paired
      | cons removed back =>
          have whole : Paired exempt ([] ++ removed :: back) := split ▸ paired
          rw [Removal.apply, items_removeFirstItem paired split]
          exact whole.withoutCounterpart
  | last =>
      obtain split | ⟨front, removed, split⟩ := history.items.eq_nil_or_concat
      · rw [Removal.apply, History.removeLastItem, split]
        exact paired
      · rw [List.concat_eq_append] at split
        rw [Removal.apply, items_removeLastItem paired split]
        rw [split] at paired
        have without := paired.withoutCounterpart
        rwa [List.append_nil] at without

/-- Removing an item from either end removes its counterpart, when it has one, and nothing else; so
calls and outputs stay in pairs in every run of removals. -/
theorem removals_keepPairs (exempt : ResponseItem Data → Bool) (history : History Data)
    (paired : Paired exempt history.items) :
    (∀ removed back, history.items = removed :: back →
      history.removeFirstItem.items = back.filter (¬IsCounterpart removed ·) ∧
        back.countP (IsCounterpart removed ·) ≤ 1) ∧
    (∀ front removed, history.items = front ++ [removed] →
      history.removeLastItem.1.items = front.filter (¬IsCounterpart removed ·) ∧
        front.countP (IsCounterpart removed ·) ≤ 1) ∧
    ∀ removals : List Removal, Paired exempt (removals.foldl Removal.apply history).items := by
  refine ⟨?_, ?_, fun removals => ?_⟩
  · intro removed back split
    refine ⟨items_removeFirstItem paired split, ?_⟩
    have whole : Paired exempt ([] ++ removed :: back) := split ▸ paired
    exact whole.countP_isCounterpart
  · intro front removed split
    refine ⟨items_removeLastItem paired split, ?_⟩
    rw [split] at paired
    have one := paired.countP_isCounterpart
    rwa [List.append_nil] at one
  · induction removals generalizing history with
    | nil => exact paired
    | cons removal removals ih => exact ih _ (paired.apply removal)

/-- A history with a call, a message and the output of the call. -/
def pairedHistory : History Unit :=
  ⟨[.functionCall ['a'] (), .message [] [] (), .functionCallOutput ['a'] (.fromText [])], none⟩

theorem paired_pairedHistory : Paired (fun _ => false) pairedHistory.items := by
  have isCall : (ResponseItem.functionCall ['a'] () : ResponseItem Unit).call =
      some (.function, ['a']) := rfl
  have answers : (ResponseItem.functionCallOutput ['a'] (.fromText []) :
      ResponseItem Unit).answer = some (.function, ['a']) := rfl
  refine ⟨?_, ?_, fun key => ?_, fun key => ?_⟩
  · rintro key ⟨item, member, called⟩
    simp only [pairedHistory, List.mem_cons, List.not_mem_nil, or_false] at member
    rcases member with rfl | rfl | rfl
    · exact ⟨_, List.mem_of_getLast? rfl, answers.trans (isCall.symm.trans called)⟩
    · cases called
    · cases called
  · intro output member _ key answered
    simp only [pairedHistory, List.mem_cons, List.not_mem_nil, or_false] at member
    rcases member with rfl | rfl | rfl
    · cases answered
    · cases answered
    · exact ⟨_, List.mem_cons_self, isCall.trans (answers.symm.trans answered)⟩
  · simp only [pairedHistory, List.countP_cons, List.countP_nil, ResponseItem.call,
      reduceCtorEq, decide_false, Bool.false_eq_true, if_false, Nat.zero_add]
    split <;> decide
  · simp only [pairedHistory, List.countP_cons, List.countP_nil, ResponseItem.answer,
      reduceCtorEq, decide_false, Bool.false_eq_true, if_false, Nat.zero_add]
    split <;> decide

theorem removals_keepPairs_pairedHistory :
    (∀ removed back, pairedHistory.items = removed :: back →
      pairedHistory.removeFirstItem.items = back.filter (¬IsCounterpart removed ·) ∧
        back.countP (IsCounterpart removed ·) ≤ 1) ∧
    (∀ front removed, pairedHistory.items = front ++ [removed] →
      pairedHistory.removeLastItem.1.items = front.filter (¬IsCounterpart removed ·) ∧
        front.countP (IsCounterpart removed ·) ≤ 1) ∧
    ∀ removals : List Removal,
      Paired (fun _ => false) (removals.foldl Removal.apply pairedHistory).items :=
  removals_keepPairs _ _ paired_pairedHistory

end Runs

end CodexPilot.ContextManager
