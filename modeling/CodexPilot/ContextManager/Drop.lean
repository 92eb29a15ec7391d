import CodexPilot.ContextManager.History
import CodexPilot.Library.Turns

/-!
# What is left when turns are dropped

Dropping the last turns of a history leaves what is before them, without the context that was
injected right before the cut.  Exactly that many boundaries are dropped, or all.
-/

namespace CodexPilot.ContextManager

variable {Data : Type} {readers : Readers}

/-- A message of injected context. -/
def isInjectedContext (readers : Readers) (item : ResponseItem Data) : Bool :=
  (trimmedContext readers item).isSome

theorem not_boundary_of_isInjectedContext (item : ResponseItem Data)
    (context : isInjectedContext readers item = true) : isUserTurnBoundary readers item = false :=
  isUserTurnBoundary_of_trimmedContext (Option.isSome_iff_exists.mp context).choose_spec

theorem countP_boundaries (items : List (ResponseItem Data)) :
    items.countP (isUserTurnBoundary readers) = (boundaries readers items).length :=
  List.countP_eq_length_filter

/-- A cut at the position of a turn leaves what is before it. -/
theorem take_position {start position count : ℕ} {items : List (ResponseItem Data)}
    (within : count ≤ items.countP (isUserTurnBoundary readers))
    (found : (userMessagePositionsFrom readers start items)[
      items.countP (isUserTurnBoundary readers) - count]? = some position) :
    start ≤ position ∧ position - start < items.length ∧
      items.take (position - start) =
        Turns.beforeLast (isUserTurnBoundary readers) count items := by
  induction items generalizing start with
  | nil => cases found
  | cons item items ih =>
      rw [userMessagePositionsFrom, List.zipIdx_cons, List.filterMap_cons] at found
      cases boundary : isUserTurnBoundary readers item with
      | false =>
          rw [List.countP_cons_of_neg (by simp [boundary])] at within found
          simp only [boundary, Bool.false_eq_true, if_false] at found
          obtain ⟨later, inside, same⟩ := ih within found
          have shift : position - start = position - (start + 1) + 1 := by omega
          refine ⟨by omega, by rw [shift, List.length_cons]; omega, ?_⟩
          rw [shift, List.take_succ_cons, same, Turns.beforeLast, if_neg (by simp [boundary])]
      | true =>
          rw [List.countP_cons_of_pos boundary] at within found
          simp only [boundary, if_true] at found
          obtain last | more := Nat.lt_or_ge (items.countP (isUserTurnBoundary readers)) count
          · rw [Nat.sub_eq_zero_of_le last] at found
            cases found
            refine ⟨le_rfl, by simp, ?_⟩
            rw [Nat.sub_self, List.take_zero, Turns.beforeLast, if_pos ⟨boundary, last⟩]
          · rw [Nat.succ_sub more] at found
            obtain ⟨later, inside, same⟩ := ih more found
            have shift : position - start = position - (start + 1) + 1 := by omega
            refine ⟨by omega, by rw [shift, List.length_cons]; omega, ?_⟩
            rw [shift, List.take_succ_cons, same, Turns.beforeLast,
              if_neg (fun less => less.2.not_ge more)]

/-- With a turn before the cut, trimming drops the context right before the cut. -/
theorem take_trim {snapshot : List (ResponseItem Data)} {first cutIdx : ℕ}
    (reference : Option (TurnContextItem Data)) (within : cutIdx ≤ snapshot.length)
    (noTurn : boundaries readers (snapshot.take first) = [])
    (turns : boundaries readers (snapshot.take cutIdx) ≠ []) :
    snapshot.take (trimPreTurnContextUpdates readers snapshot first cutIdx reference).1 =
      (snapshot.take cutIdx).rdropWhile (isInjectedContext readers) := by
  induction cutIdx generalizing reference with
  | zero => exact absurd rfl turns
  | succ cutIdx ih =>
      have behind : ¬ cutIdx + 1 ≤ first := by
        intro before
        refine turns (List.eq_nil_iff_forall_not_mem.mpr fun item member => ?_)
        have earlier := (List.take_sublist_take_left before).filter _ |>.subset member
        rw [boundaries] at noTurn
        rw [noTurn] at earlier
        cases earlier
      have inside : cutIdx < snapshot.length := within
      have last : snapshot.take (cutIdx + 1) = snapshot.take cutIdx ++ [snapshot[cutIdx]] :=
        List.take_succ_eq_append_getElem inside
      rw [trimPreTurnContextUpdates, if_neg behind, List.getElem?_eq_getElem inside,
        Option.bind_some]
      cases context : trimmedContext readers snapshot[cutIdx] with
      | some mixed =>
          have isContext : isInjectedContext readers snapshot[cutIdx] = true := by
            rw [isInjectedContext, context, Option.isSome_some]
          rw [last, List.rdropWhile_concat_pos _ _ _ isContext]
          refine ih _ inside.le ?_
          rwa [last, boundaries, List.filter_append, List.filter_cons_of_neg
            (Bool.eq_false_iff.mp (not_boundary_of_isInjectedContext _ isContext)),
            List.filter_nil, List.append_nil] at turns
      | none =>
          have noContext : ¬ isInjectedContext readers snapshot[cutIdx] = true := by
            rw [isInjectedContext, context, Option.isSome_none]
            exact Bool.false_ne_true
          rw [last, List.rdropWhile_concat_neg _ _ _ noContext]

theorem trim_at_first (snapshot : List (ResponseItem Data)) (first : ℕ)
    (reference : Option (TurnContextItem Data)) :
    (trimPreTurnContextUpdates readers snapshot first first reference).1 = first := by
  cases first with
  | zero => rfl
  | succ first => rw [trimPreTurnContextUpdates, if_pos le_rfl]

/-- Dropping turns is dropping the last turns of the list of items. -/
theorem dropLastNUserTurns_items (history : History Data) (numTurns : ℕ) :
    (history.dropLastNUserTurns readers numTurns).items =
      Turns.dropLast (isUserTurnBoundary readers) (isInjectedContext readers) numTurns
        history.items := by
  obtain rfl | some := Nat.eq_zero_or_pos numTurns
  · rw [Turns.dropLast_zero, History.dropLastNUserTurns, if_pos rfl]
  have count : (userMessagePositions readers history.items).length =
      history.items.countP (isUserTurnBoundary readers) := by
    rw [countP_boundaries]
    exact length_userMessagePositionsFrom 0 history.items
  have cutAt : ∀ {turns position}, turns ≤ history.items.countP (isUserTurnBoundary readers) →
      (userMessagePositions readers history.items)[
        history.items.countP (isUserTurnBoundary readers) - turns]? = Option.some position →
      position < history.items.length ∧ history.items.take position =
        Turns.beforeLast (isUserTurnBoundary readers) turns history.items :=
    fun within found => (take_position within found).2
  rw [History.dropLastNUserTurns, if_neg some.ne', Turns.dropLast]
  dsimp only
  split
  case h_1 noTurn =>
    have empty : userMessagePositions readers history.items = [] := List.head?_eq_none_iff.mp noTurn
    rw [empty, List.length_nil] at count
    rw [if_pos (.inr (count ▸ Nat.zero_le _)), Turns.beforeLast_of_countP_le (by omega), ← count,
      Turns.beforeLast_zero]
  case h_2 first isFirst =>
    obtain ⟨_, front⟩ := cutAt le_rfl (by rw [Nat.sub_self, ← List.head?_eq_getElem?, isFirst])
    split
    case isTrue all =>
      rw [count] at all
      rw [trim_at_first, front, if_pos (.inr all), Turns.beforeLast_of_countP_le all]
    case isFalse more =>
      rw [count] at more
      have found : (userMessagePositions readers history.items)[
          history.items.countP (isUserTurnBoundary readers) - numTurns]? =
            Option.some ((userMessagePositions readers history.items).getD
              ((userMessagePositions readers history.items).length - numTurns) 0) := by
        have inside : history.items.countP (isUserTurnBoundary readers) - numTurns <
            (userMessagePositions readers history.items).length := by omega
        rw [count, List.getD_eq_getElem?_getD, List.getElem?_eq_getElem inside, Option.getD_some]
      obtain ⟨within, behind⟩ := cutAt (by omega) found
      have noTurn : boundaries readers (history.items.take first) = [] := by
        rw [front, boundaries, Turns.filter_beforeLast, Nat.sub_self, List.take_zero]
      have turns : boundaries readers (history.items.take
          ((userMessagePositions readers history.items).getD
            ((userMessagePositions readers history.items).length - numTurns) 0)) ≠ [] := by
        rw [behind, boundaries, Turns.filter_beforeLast, ← List.length_pos_iff, List.length_take,
          ← List.countP_eq_length_filter]
        omega
      rw [take_trim _ within.le noTurn turns, behind, if_neg (by omega)]

/-- Dropping turns drops as many boundaries, or all. -/
theorem boundaries_dropLastNUserTurns (history : History Data) (numTurns : ℕ) :
    boundaries readers (history.dropLastNUserTurns readers numTurns).items =
      (boundaries readers history.items).take
        ((boundaries readers history.items).length - numTurns) := by
  rw [dropLastNUserTurns_items, ← countP_boundaries]
  exact Turns.filter_dropLast not_boundary_of_isInjectedContext numTurns history.items

/-- Dropping turns twice is dropping as many at once.  What is left is a prefix, with as many turns
fewer, and with what is before the first turn. -/
theorem dropLastNUserTurns_composes (history : History Data) (numTurns more : ℕ) :
    ((history.dropLastNUserTurns readers numTurns).dropLastNUserTurns readers more).items =
        (history.dropLastNUserTurns readers (numTurns + more)).items ∧
      (history.dropLastNUserTurns readers numTurns).items <+: history.items ∧
      (boundaries readers (history.dropLastNUserTurns readers numTurns).items).length =
        (boundaries readers history.items).length - numTurns ∧
      history.items.takeWhile (!isUserTurnBoundary readers ·) <+:
        (history.dropLastNUserTurns readers numTurns).items := by
  have other : ∀ item : ResponseItem Data, isInjectedContext readers item = true →
      isUserTurnBoundary readers item = false := not_boundary_of_isInjectedContext
  refine ⟨?_, ?_, ?_, ?_⟩
  · simp only [dropLastNUserTurns_items]
    exact Turns.dropLast_dropLast other numTurns more history.items
  · rw [dropLastNUserTurns_items]
    exact Turns.dropLast_prefix numTurns history.items
  · rw [boundaries_dropLastNUserTurns, List.length_take]
    omega
  · rw [dropLastNUserTurns_items]
    exact Turns.front_prefix_dropLast other numTurns history.items

end CodexPilot.ContextManager
