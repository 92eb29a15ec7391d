import CodexPilot.ContextManager.Items
import CodexPilot.Library.Budgets
import CodexPilot.Strings.Truncate

/-!
# Truncated outputs and compacted histories

The texts of an output are paid for from one budget, in bytes or in tokens.  The text that exceeds
what is left of it is cut in the middle, and the texts behind that one are left out and counted;
images are free and always stay.  A compacted history keeps the most recent messages of the user, as
far as a budget of tokens reaches, and ends with a summary of the rest.
-/

namespace CodexPilot.ContextManager

open RustStd Composer Strings Allotments

/-- A limit in bytes or in tokens. -/
inductive TruncationPolicy where
  | bytes (limit : ℕ)
  | tokens (limit : ℕ)
deriving DecidableEq

/-- `approx_token_count`. -/
def approxTokenCount (text : Text) : ℕ := approxTokensFromByteCount (len text)

namespace TruncationPolicy

def tokenBudget : TruncationPolicy → ℕ
  | bytes limit => approxTokensFromByteCount limit
  | tokens limit => limit

def byteBudget : TruncationPolicy → ℕ
  | bytes limit => limit
  | tokens limit => approxBytesForTokens limit

/-- The budget, in the unit of the policy. -/
def budget (policy : TruncationPolicy) : ℕ :=
  match policy with
  | bytes _ => policy.byteBudget
  | tokens _ => policy.tokenBudget

/-- What a text costs, in the unit of the policy. -/
def cost : TruncationPolicy → Text → ℕ
  | bytes _, text => len text
  | tokens _, text => approxTokenCount text

/-- `snippet_policy`: the policy with what remains of the budget. -/
def limitedTo : TruncationPolicy → ℕ → TruncationPolicy
  | bytes _, remaining => bytes remaining
  | tokens _, remaining => tokens remaining

/-- Whether the marker counts tokens. -/
def usesTokens : TruncationPolicy → Bool
  | bytes _ => false
  | tokens _ => true

@[simp]
theorem budget_limitedTo (policy : TruncationPolicy) (remaining : ℕ) :
    (policy.limitedTo remaining).budget = remaining := by
  cases policy <;> rfl

@[simp]
theorem cost_limitedTo (policy : TruncationPolicy) (remaining : ℕ) (text : Text) :
    (policy.limitedTo remaining).cost text = policy.cost text := by
  cases policy <;> rfl

@[simp]
theorem usesTokens_limitedTo (policy : TruncationPolicy) (remaining : ℕ) :
    (policy.limitedTo remaining).usesTokens = policy.usesTokens := by
  cases policy <;> rfl

end TruncationPolicy

/-- `truncate_text`. -/
def truncateText (content : Text) : TruncationPolicy → Option Text
  | .bytes bytes => truncateMiddleChars content bytes
  | .tokens tokens => (truncateMiddleWithTokenBudget content tokens).map Prod.fst

/-- The variables of the loop of `truncate_function_output_items_with_policy`. -/
structure Truncation where
  out : List FunctionCallOutputContentItem
  remainingBudget : ℕ
  omittedTextItems : ℕ
deriving DecidableEq

/-- One iteration of the loop. -/
def Truncation.note (policy : TruncationPolicy) (state : Truncation) :
    FunctionCallOutputContentItem → Option Truncation
  | .inputText text =>
      if state.remainingBudget = 0 then
        some { state with omittedTextItems := state.omittedTextItems + 1 }
      else if policy.cost text ≤ state.remainingBudget then
        some { state with
          out := state.out ++ [.inputText text]
          remainingBudget := state.remainingBudget - policy.cost text }
      else do
        let snippet ← truncateText text (policy.limitedTo state.remainingBudget)
        if snippet = [] then
          return { state with remainingBudget := 0, omittedTextItems := state.omittedTextItems + 1 }
        else
          return { state with out := state.out ++ [.inputText snippet], remainingBudget := 0 }
  | .inputImage imageUrl detail =>
      some { state with out := state.out ++ [.inputImage imageUrl detail] }

/-- The item behind the others when texts were left out. -/
def omittedMarker (omittedTextItems : ℕ) : List FunctionCallOutputContentItem :=
  if 0 < omittedTextItems then
    [.inputText ("[omitted ".toList ++ Nat.toDigits 10 omittedTextItems ++
      " text items ...]".toList)]
  else []

/-- `truncate_function_output_items_with_policy`; no result stands for a cut inside of a
character. -/
def truncateFunctionOutputItemsWithPolicy (items : List FunctionCallOutputContentItem)
    (policy : TruncationPolicy) : Option (List FunctionCallOutputContentItem) := do
  let state ← items.foldlM (Truncation.note policy) ⟨[], policy.budget, 0⟩
  return state.out ++ omittedMarker state.omittedTextItems

namespace FunctionCallOutputContentItem

def isText : FunctionCallOutputContentItem → Bool
  | inputText _ => true
  | inputImage .. => false

def isImage : FunctionCallOutputContentItem → Bool
  | inputText _ => false
  | inputImage .. => true

/-- What an item costs: images are free. -/
def cost (policy : TruncationPolicy) : FunctionCallOutputContentItem → ℕ
  | inputText text => policy.cost text
  | inputImage .. => 0

end FunctionCallOutputContentItem

open FunctionCallOutputContentItem

/-! ## The text that is cut -/

/-- A snippet of a text: a prefix, a marker and a suffix, where the prefix and the suffix are within
the budget of the policy. -/
def Shortens (policy : TruncationPolicy) (whole snippet : Text) : Prop :=
  ∃ before middle after count, whole = before ++ (middle ++ after) ∧
    snippet = before ++ (formatTruncationMarker policy.usesTokens count ++ after) ∧
    policy.cost (before ++ after) ≤ policy.budget

theorem formatTruncationMarker_ne_nil (useTokens : Bool) (count : ℕ) :
    formatTruncationMarker useTokens count ≠ [] := by
  cases useTokens <;> exact List.cons_ne_nil _ _

theorem Shortens.ne_nil {policy : TruncationPolicy} {whole snippet : Text}
    (shortens : Shortens policy whole snippet) : snippet ≠ [] := by
  obtain ⟨before, middle, after, count, -, rfl, -⟩ := shortens
  intro empty
  obtain ⟨-, back⟩ := List.append_eq_nil_iff.mp empty
  obtain ⟨marker, -⟩ := List.append_eq_nil_iff.mp back
  exact formatTruncationMarker_ne_nil _ _ marker

theorem approxTokensFromByteCount_le {bytes tokens : ℕ}
    (within : bytes ≤ approxBytesForTokens tokens) : approxTokensFromByteCount bytes ≤ tokens := by
  simp only [approxBytesForTokens, approxTokensFromByteCount, approxBytesPerToken] at within ⊢
  omega

theorem approxBytesForTokens_lt {bytes tokens : ℕ}
    (beyond : tokens < approxTokensFromByteCount bytes) : approxBytesForTokens tokens < bytes := by
  simp only [approxBytesForTokens, approxTokensFromByteCount, approxBytesPerToken] at beyond ⊢
  omega

/-- Over the budget of tokens a text is cut, also where the text with the marker is the same as
before. -/
theorem truncateMiddleWithTokenBudget_of_exceeds {text : Text} {maxTokens : ℕ}
    (exceeds : approxBytesForTokens maxTokens < len text) :
    (truncateMiddleWithTokenBudget text maxTokens).map Prod.fst =
      truncateWithByteEstimate text (approxBytesForTokens maxTokens) true := by
  have inhabited : text ≠ [] := by
    rintro rfl
    exact absurd exceeds (Nat.not_lt_zero _)
  have beyond : ¬ (0 < maxTokens ∧ len text ≤ approxBytesForTokens maxTokens) :=
    fun fits => absurd fits.2 (Nat.not_le.mpr exceeds)
  rw [truncateMiddleWithTokenBudget, if_neg inhabited, if_neg beyond]
  cases truncateWithByteEstimate text (approxBytesForTokens maxTokens) true with
  | none => rfl
  | some truncated =>
      rw [Option.bind_eq_bind, Option.bind_some]
      split <;> rfl

/-- A text over the budget becomes a snippet. -/
theorem truncateText_of_exceeds {policy : TruncationPolicy} {text : Text}
    (exceeds : policy.budget < policy.cost text) :
    ∃ snippet, truncateText text policy = some snippet ∧ Shortens policy text snippet := by
  cases policy with
  | bytes limit =>
      obtain ⟨before, middle, after, pieces, same, short⟩ :=
        truncateWithByteEstimate_spec exceeds false
      exact ⟨_, same, before, middle, after, _, pieces, rfl, by
        rwa [TruncationPolicy.cost, len_append]⟩
  | tokens limit =>
      have exceeds : approxBytesForTokens limit < len text := approxBytesForTokens_lt exceeds
      obtain ⟨before, middle, after, pieces, same, short⟩ :=
        truncateWithByteEstimate_spec exceeds true
      rw [← truncateMiddleWithTokenBudget_of_exceeds exceeds] at same
      rw [← len_append] at short
      exact ⟨_, same, before, middle, after, _, pieces, rfl, approxTokensFromByteCount_le short⟩

/-! ## The loop -/

section Loop

variable {policy : TruncationPolicy}

theorem note_inputText_of_exceeds {state : Truncation} {text : Text}
    (some : state.remainingBudget ≠ 0) (exceeds : state.remainingBudget < policy.cost text) :
    ∃ snippet, Shortens (policy.limitedTo state.remainingBudget) text snippet ∧
      state.note policy (.inputText text) =
        .some ⟨state.out ++ [.inputText snippet], 0, state.omittedTextItems⟩ := by
  have beyond : (policy.limitedTo state.remainingBudget).budget <
      (policy.limitedTo state.remainingBudget).cost text := by
    rwa [TruncationPolicy.budget_limitedTo, TruncationPolicy.cost_limitedTo]
  obtain ⟨snippet, same, shortens⟩ := truncateText_of_exceeds beyond
  refine ⟨snippet, shortens, ?_⟩
  rw [Truncation.note, if_neg some, if_neg (Nat.not_le.mpr exceeds), same, Option.bind_eq_bind,
    Option.bind_some, if_neg shortens.ne_nil]
  rfl

/-- Without a budget the images stay and the texts are counted. -/
theorem foldlM_note_of_exhausted (items out : List FunctionCallOutputContentItem) (omitted : ℕ) :
    items.foldlM (Truncation.note policy) ⟨out, 0, omitted⟩ =
      some ⟨out ++ items.filter isImage, 0, omitted + items.countP isText⟩ := by
  induction items generalizing out omitted with
  | nil => simp
  | cons item items ih =>
      rw [List.foldlM_cons]
      cases item with
      | inputText text =>
          rw [Truncation.note, if_pos rfl, Option.bind_eq_bind, Option.bind_some, ih]
          simp [isText, isImage, List.countP_cons, Nat.add_assoc, Nat.add_comm 1]
      | inputImage imageUrl detail =>
          rw [Truncation.note, Option.bind_eq_bind, Option.bind_some, ih]
          simp [isText, isImage, List.filter_cons]

/-- What stands for the item that is not paid in full. -/
inductive Snippet (policy : TruncationPolicy) :
    Option (ℕ × FunctionCallOutputContentItem) → List FunctionCallOutputContentItem → Prop
  | none : Snippet policy none []
  | some {remaining : ℕ} {whole snippet : Text}
      (shortens : Shortens (policy.limitedTo remaining) whole snippet) :
      Snippet policy (some (remaining, .inputText whole)) [.inputText snippet]

/-- The loop pays for the items from what remains of the budget. -/
theorem foldlM_note (items out : List FunctionCallOutputContentItem) (remaining omitted : ℕ) :
    ∃ shortened remaining', Snippet policy (allot (cost policy) remaining items).cut shortened ∧
      items.foldlM (Truncation.note policy) ⟨out, remaining, omitted⟩ =
        some ⟨out ++ ((allot (cost policy) remaining items).kept ++
            (shortened ++ (allot (cost policy) remaining items).left.filter isImage)), remaining',
          omitted + (allot (cost policy) remaining items).left.countP isText⟩ := by
  induction items generalizing out remaining with
  | nil => exact ⟨[], remaining, Snippet.none, by simp [allot]⟩
  | cons item items ih =>
      by_cases exhausted : remaining = 0
      · subst exhausted
        rw [allot_zero, foldlM_note_of_exhausted]
        exact ⟨[], 0, Snippet.none, rfl⟩
      by_cases fits : item.cost policy ≤ remaining
      · -- The item is kept, whether it is a text that fits or an image.
        have noted : Truncation.note policy ⟨out, remaining, omitted⟩ item =
            some ⟨out ++ [item], remaining - item.cost policy, omitted⟩ := by
          cases item with
          | inputText text => exact (if_neg exhausted).trans (if_pos fits)
          | inputImage imageUrl detail => rfl
        obtain ⟨shortened, remaining', snippet, later⟩ :=
          ih (out ++ [item]) (remaining - item.cost policy)
        rw [allot_cons_of_fits exhausted fits, List.foldlM_cons, noted, Option.bind_eq_bind,
          Option.bind_some, later]
        exact ⟨shortened, remaining', snippet, by simp⟩
      · have exceeds := Nat.not_le.mp fits
        cases item with
        | inputImage imageUrl detail => exact absurd exceeds (Nat.not_lt_zero _)
        | inputText text =>
            obtain ⟨snippet, shortens, noted⟩ :=
              @note_inputText_of_exceeds policy ⟨out, remaining, omitted⟩ _ exhausted exceeds
            rw [allot_cons_of_exceeds exhausted exceeds, List.foldlM_cons, noted,
              Option.bind_eq_bind, Option.bind_some, foldlM_note_of_exhausted]
            exact ⟨[.inputText snippet], 0, Snippet.some shortens, by simp⟩

end Loop

/-! ## The whole output -/

/-- How the items of an output become the items that are sent: the first ones are kept, one text
behind them may be shortened, and of the rest only the images stay, with the number of the other
texts. -/
structure AccountsForItems (policy : TruncationPolicy)
    (items out kept cut shortened rest : List FunctionCallOutputContentItem) : Prop where
  pieces : items = kept ++ (cut ++ rest)
  out : out = kept ++ (shortened ++ rest.filter isImage) ++
    if 0 < rest.countP isText then
      [.inputText ("[omitted ".toList ++ Nat.toDigits 10 (rest.countP isText) ++
        " text items ...]".toList)]
    else []
  shortened : cut = [] ∧ shortened = [] ∧ (kept.map (cost policy)).sum ≤ policy.budget ∨
    ∃ before middle after count, cut = [.inputText (before ++ (middle ++ after))] ∧
      shortened = [.inputText (before ++ ("…".toList ++ Nat.toDigits 10 count ++
        (if policy.usesTokens then " tokens truncated…" else " chars truncated…").toList ++
          after))] ∧
      (kept.map (cost policy)).sum + policy.cost (before ++ after) ≤ policy.budget

theorem filter_isImage_omittedMarker (omittedTextItems : ℕ) :
    (omittedMarker omittedTextItems).filter isImage = [] := by
  rw [omittedMarker]
  split <;> rfl

/-- Every image is sent. -/
theorem AccountsForItems.images {policy : TruncationPolicy}
    {items out kept cut shortened rest : List FunctionCallOutputContentItem}
    (accounts : AccountsForItems policy items out kept cut shortened rest) :
    out.filter isImage = items.filter isImage := by
  have none : cut.filter isImage = [] ∧ shortened.filter isImage = [] := by
    obtain ⟨rfl, rfl, -⟩ | ⟨before, middle, after, count, rfl, rfl, -⟩ := accounts.shortened
    · exact ⟨rfl, rfl⟩
    · exact ⟨rfl, rfl⟩
  have whole : out = kept ++ (shortened ++ rest.filter isImage) ++
    omittedMarker (rest.countP isText) := accounts.out
  rw [whole, accounts.pieces]
  simp only [List.filter_append, none.1, none.2, filter_isImage_omittedMarker, List.nil_append,
    List.append_nil, List.filter_filter, Bool.and_self]

/-- Every output is truncated, keeps its images where they are, and accounts for its texts. -/
theorem truncateFunctionOutputItemsWithPolicy_accounts (items : List FunctionCallOutputContentItem)
    (policy : TruncationPolicy) :
    ∃ out kept cut shortened rest, truncateFunctionOutputItemsWithPolicy items policy = some out ∧
      AccountsForItems policy items out kept cut shortened rest ∧
      out.filter isImage = items.filter isImage := by
  obtain ⟨shortened, remaining', snippet, looped⟩ := foldlM_note items [] policy.budget 0
  have pieces := pieces (cost policy) policy.budget items
  have spent := spent_le (cost policy) policy.budget items
  generalize allot (cost policy) policy.budget items = allotment at snippet looped pieces spent
  obtain ⟨kept, cut, left⟩ := allotment
  have accounts : AccountsForItems policy items
      (kept ++ (shortened ++ left.filter isImage) ++ omittedMarker (left.countP isText))
      kept (Allotment.cutItem ⟨kept, cut, left⟩) shortened left := by
    refine ⟨pieces, rfl, ?_⟩
    cases snippet with
    | none => exact Or.inl ⟨rfl, rfl, spent⟩
    | some shortens =>
        obtain ⟨before, middle, after, count, rfl, rfl, short⟩ := shortens
        rw [TruncationPolicy.budget_limitedTo, TruncationPolicy.cost_limitedTo] at short
        refine Or.inr ⟨before, middle, after, count, rfl, ?_, ?_⟩
        · rw [TruncationPolicy.usesTokens_limitedTo, formatTruncationMarker_eq]
        · exact (Nat.add_le_add_left short _).trans spent
  refine ⟨_, _, _, _, _, ?_, accounts, accounts.images⟩
  rw [truncateFunctionOutputItemsWithPolicy, looped, Option.bind_eq_bind, Option.bind_some,
    List.nil_append, Nat.zero_add]
  rfl

/-! ## Compacted history -/

variable {Data : Type}

/-- `COMPACT_USER_MESSAGE_MAX_TOKENS`. -/
def compactUserMessageMaxTokens : ℕ := 20000

/-- The loop that fills `selected_messages`, over the messages from the newest one on; no result
stands for a cut inside of a character. -/
def selectMessages : ℕ → List Text → Option (List Text)
  | _, [] => some []
  | remaining, message :: messages =>
      if remaining = 0 then some []
      else
        let tokens := approxTokenCount message
        if tokens ≤ remaining then do
          let selected ← selectMessages (remaining - tokens) messages
          return message :: selected
        else do
          let truncated ← truncateText message (.tokens remaining)
          return [truncated]

/-- The messages of the user that are kept, from the oldest one on. -/
def selectedMessages (userMessages : List Text) (maxTokens : ℕ) : Option (List Text) :=
  if 0 < maxTokens then (selectMessages maxTokens userMessages.reverse).map List.reverse
  else some []

/-- A message of the user, whose other fields are `None`. -/
def userMessage (none : Data) (text : Text) : ResponseItem Data :=
  .message "user".toList [.inputText text] none

/-- The text of the last message. -/
def summaryOrDefault (summaryText : Text) : Text :=
  if summaryText = [] then "(no summary available)".toList else summaryText

/-- `build_compacted_history_with_limit`. -/
def buildCompactedHistoryWithLimit (none : Data) (history : List (ResponseItem Data))
    (userMessages : List Text) (summaryText : Text) (maxTokens : ℕ) :
    Option (List (ResponseItem Data)) := do
  let messages ← selectedMessages userMessages maxTokens
  return history ++ messages.map (userMessage none) ++
    [userMessage none (summaryOrDefault summaryText)]

/-- `build_compacted_history`. -/
def buildCompactedHistory (none : Data) (initialContext : List (ResponseItem Data))
    (userMessages : List Text) (summaryText : Text) : Option (List (ResponseItem Data)) :=
  buildCompactedHistoryWithLimit none initialContext userMessages summaryText
    compactUserMessageMaxTokens

/-- What stands for the message that does not fit. -/
inductive SnippetOfMessage : Option (ℕ × Text) → List Text → Prop
  | none : SnippetOfMessage none []
  | some {remaining : ℕ} {whole snippet : Text}
    (shortens : Shortens (.tokens remaining) whole snippet) :
      SnippetOfMessage (some (remaining, whole)) [snippet]

theorem SnippetOfMessage.reverse {cut : Option (ℕ × Text)} {shortened : List Text}
    (snippet : SnippetOfMessage cut shortened) : shortened.reverse = shortened := by
  cases snippet <;> rfl

/-- The messages are paid for from the newest one on. -/
theorem selectMessages_eq (messages : List Text) (remaining : ℕ) :
    ∃ shortened, SnippetOfMessage (allot approxTokenCount remaining messages).cut shortened ∧
      selectMessages remaining messages =
        some ((allot approxTokenCount remaining messages).kept ++ shortened) := by
  induction messages generalizing remaining with
  | nil => exact ⟨[], SnippetOfMessage.none, rfl⟩
  | cons message messages ih =>
      rw [selectMessages]
      by_cases exhausted : remaining = 0
      · rw [if_pos exhausted, exhausted, allot_zero]
        exact ⟨[], SnippetOfMessage.none, rfl⟩
      rw [if_neg exhausted]
      by_cases fits : approxTokenCount message ≤ remaining
      · obtain ⟨shortened, snippet, later⟩ := ih (remaining - approxTokenCount message)
        rw [if_pos fits, later, allot_cons_of_fits exhausted fits]
        exact ⟨shortened, snippet, rfl⟩
      · have exceeds := Nat.not_le.mp fits
        obtain ⟨snippet, same, shortens⟩ :=
          @truncateText_of_exceeds (.tokens remaining) _ exceeds
        rw [if_neg fits, same, allot_cons_of_exceeds exhausted exceeds]
        exact ⟨[snippet], SnippetOfMessage.some shortens, rfl⟩

/-- Which messages of the user stand in a compacted history: the last ones, where the first of these
may be shortened if it does not fit. -/
structure KeepsNewest (maxTokens : ℕ) (userMessages leftOut cut shortened kept : List Text) :
    Prop where
  pieces : userMessages = leftOut ++ (cut ++ kept)
  shortened : cut = [] ∧ shortened = [] ∧ (kept.map approxTokenCount).sum ≤ maxTokens ∨
    ∃ before middle after count, cut = [before ++ (middle ++ after)] ∧
      shortened = [before ++ (formatTruncationMarker true count ++ after)] ∧
      maxTokens < (kept.map approxTokenCount).sum + approxTokenCount (before ++ (middle ++ after)) ∧
      (kept.map approxTokenCount).sum + approxTokenCount (before ++ after) ≤ maxTokens
  leftOut : leftOut ≠ [] → maxTokens ≤ ((cut ++ kept).map approxTokenCount).sum

/-- In their order the selected messages are the one that may be shortened and those behind it. -/
theorem selectedMessages_eq (userMessages : List Text) (maxTokens : ℕ) :
    ∃ shortened,
      SnippetOfMessage (allot approxTokenCount maxTokens userMessages.reverse).cut shortened ∧
      selectedMessages userMessages maxTokens =
        some (shortened ++
          (allot approxTokenCount maxTokens userMessages.reverse).kept.reverse) := by
  rw [selectedMessages]
  split
  case isTrue positive =>
    obtain ⟨shortened, snippet, selected⟩ := selectMessages_eq userMessages.reverse maxTokens
    refine ⟨shortened, snippet, ?_⟩
    rw [selected, Option.map_some, List.reverse_append, snippet.reverse]
  case isFalse zero =>
    obtain rfl : maxTokens = 0 := Nat.eq_zero_of_not_pos zero
    rw [allot_zero]
    exact ⟨[], SnippetOfMessage.none, rfl⟩

theorem sum_map_reverse (messages : List Text) :
    (messages.reverse.map approxTokenCount).sum = (messages.map approxTokenCount).sum := by
  rw [List.map_reverse, List.sum_reverse]

/-- The messages that are selected are the newest ones. -/
theorem keepsNewest_of_allot {maxTokens : ℕ} {userMessages shortened : List Text}
    (snippet : SnippetOfMessage
      (allot approxTokenCount maxTokens userMessages.reverse).cut shortened) :
    ∃ leftOut cut, KeepsNewest maxTokens userMessages leftOut cut shortened
      (allot approxTokenCount maxTokens userMessages.reverse).kept.reverse := by
  have parts := pieces approxTokenCount maxTokens userMessages.reverse
  have spent := spent_le approxTokenCount maxTokens userMessages.reverse
  have exceeds (remaining : ℕ) (message : Text) :=
    @cut_spec _ approxTokenCount maxTokens userMessages.reverse remaining message
  have used := @le_of_left_ne_nil _ approxTokenCount maxTokens userMessages.reverse
  generalize allot approxTokenCount maxTokens userMessages.reverse = allotment at *
  obtain ⟨kept, cut, leftOut⟩ := allotment
  -- Read from the oldest message on, the parts stand the other way around.
  have order : userMessages =
      leftOut.reverse ++ ((Allotment.cutItem ⟨kept, cut, leftOut⟩).reverse ++ kept.reverse) := by
    have turned := congrArg List.reverse parts
    simpa using turned
  refine ⟨leftOut.reverse, (Allotment.cutItem ⟨kept, cut, leftOut⟩).reverse, order, ?_, ?_⟩
  · cases snippet with
    | none =>
        rw [sum_map_reverse]
        exact Or.inl ⟨rfl, rfl, spent⟩
    | some shortens =>
        obtain ⟨before, middle, after, count, rfl, rfl, short⟩ := shortens
        obtain ⟨whole, beyond⟩ := exceeds _ _ rfl
        refine Or.inr ⟨before, middle, after, count, rfl, rfl, ?_, ?_⟩
        · rw [sum_map_reverse, ← whole]
          exact Nat.add_lt_add_left beyond _
        · rw [sum_map_reverse]
          exact (Nat.add_le_add_left short _).trans spent
  · intro some
    rw [← List.reverse_append, sum_map_reverse]
    exact used (fun none => some (congrArg List.reverse none))

/-- Every compacted history is the initial context, the newest messages of the user and one
summary. -/
theorem buildCompactedHistoryWithLimit_keepsNewest (none : Data)
    (history : List (ResponseItem Data))
    (userMessages : List Text) (summaryText : Text) (maxTokens : ℕ) :
    ∃ leftOut cut shortened kept,
      buildCompactedHistoryWithLimit none history userMessages summaryText maxTokens =
        some (history ++ (shortened ++ kept).map (userMessage none) ++
          [userMessage none (summaryOrDefault summaryText)]) ∧
      KeepsNewest maxTokens userMessages leftOut cut shortened kept := by
  obtain ⟨shortened, snippet, selected⟩ := selectedMessages_eq userMessages maxTokens
  obtain ⟨leftOut, cut, keeps⟩ := keepsNewest_of_allot snippet
  refine ⟨leftOut, cut, shortened, _, ?_, keeps⟩
  rw [buildCompactedHistoryWithLimit, selected]
  rfl

end CodexPilot.ContextManager
