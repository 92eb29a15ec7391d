import Mathlib.Data.List.DropRight
import Mathlib.Data.List.Infix

/-!
# Dropping turns from the end of a list

Some elements of a list begin turns.  Dropping the last turns cuts the list before the first of
them, and drops the context right before the cut if there is an earlier turn.  What is before a turn
that stays is not touched.
-/

namespace Turns

variable {α β : Type*} {begins context : α → Bool} {count : ℕ} {xs ys front : List α} {turn : α}

/-- The elements before the last turns, or before all turns when there are no more. -/
def beforeLast (begins : α → Bool) (count : ℕ) : List α → List α
  | [] => []
  | x :: xs =>
      if begins x ∧ xs.countP begins < count then [] else x :: beforeLast begins count xs

theorem beforeLast_zero (xs : List α) : beforeLast begins 0 xs = xs := by
  induction xs with
  | nil => rfl
  | cons x xs ih => rw [beforeLast, if_neg (fun less => Nat.not_lt_zero _ less.2), ih]

/-- More turns than there are do not matter. -/
theorem beforeLast_of_countP_le (all : xs.countP begins ≤ count) :
    beforeLast begins count xs = beforeLast begins (xs.countP begins) xs := by
  induction xs with
  | nil => rfl
  | cons x xs ih =>
      rw [beforeLast, beforeLast]
      cases isTurn : begins x with
      | false =>
          rw [List.countP_cons_of_neg (by simp [isTurn])] at all ⊢
          rw [ih all, if_neg (by simp), if_neg (by simp)]
      | true =>
          rw [List.countP_cons_of_pos isTurn] at all ⊢
          rw [if_pos ⟨rfl, all⟩, if_pos ⟨rfl, Nat.lt_succ_self _⟩]

theorem beforeLast_shorter (count : ℕ) (xs : List α) : beforeLast begins count xs <+: xs := by
  induction xs with
  | nil => exact List.prefix_rfl
  | cons x xs ih =>
      rw [beforeLast]
      split_ifs
      · exact List.nil_prefix
      · exact List.cons_prefix_cons.mpr ⟨rfl, ih⟩

theorem beforeLast_append (stays : count ≤ ys.countP begins) :
    beforeLast begins count (xs ++ ys) = xs ++ beforeLast begins count ys := by
  induction xs with
  | nil => rfl
  | cons x xs ih =>
      have enough : ¬ (begins x ∧ (xs ++ ys).countP begins < count) := by
        rw [List.countP_append]
        omega
      rw [List.cons_append, beforeLast, if_neg enough, ih, List.cons_append]

/-- A turn that is dropped takes with it what comes after it. -/
theorem beforeLast_append_shorter (isTurn : begins turn = true)
    (dropped : ys.countP begins < count) : beforeLast begins count (xs ++ turn :: ys) <+: xs := by
  induction xs with
  | nil =>
      rw [List.nil_append, beforeLast, if_pos ⟨isTurn, dropped⟩]
  | cons x xs ih =>
      rw [List.cons_append, beforeLast]
      split_ifs
      · exact List.nil_prefix
      · exact List.cons_prefix_cons.mpr ⟨rfl, ih⟩

/-- The last turns begin with a given one, when it is the first of all or there are as many after
it as have to be dropped. -/
theorem beforeLast_append_turn (isTurn : begins turn = true) (dropped : ys.countP begins < count)
    (first : xs.countP begins = 0 ∨ ys.countP begins + 1 = count) :
    beforeLast begins count (xs ++ turn :: ys) = xs := by
  induction xs with
  | nil => rw [List.nil_append, beforeLast, if_pos ⟨isTurn, dropped⟩]
  | cons x xs ih =>
      have earlier : ¬ (begins x ∧ (xs ++ turn :: ys).countP begins < count) := by
        rintro ⟨begun, few⟩
        rw [List.countP_append, List.countP_cons_of_pos isTurn] at few
        rw [List.countP_cons_of_pos begun] at first
        omega
      have later : xs.countP begins = 0 ∨ ys.countP begins + 1 = count := by
        refine first.imp_left fun none => ?_
        have fewer : xs.countP begins ≤ (x :: xs).countP begins :=
          (List.sublist_cons_self x xs).countP_le
        omega
      rw [List.cons_append, beforeLast, if_neg earlier, ih later]

/-- The cut is before a turn. -/
theorem exists_beforeLast (positive : 0 < count) (some : 0 < xs.countP begins) :
    ∃ turn ys, begins turn = true ∧ xs = beforeLast begins count xs ++ turn :: ys := by
  induction xs with
  | nil => cases some
  | cons x xs ih =>
      rw [beforeLast]
      split_ifs with last
      · exact ⟨x, xs, last.1, rfl⟩
      · have later : 0 < xs.countP begins := by
          by_contra none
          have first : begins x = true := by
            by_contra noTurn
            rw [List.countP_cons_of_neg noTurn] at some
            exact none some
          exact last ⟨first, by omega⟩
        obtain ⟨turn, ys, isTurn, split⟩ := ih later
        exact ⟨turn, ys, isTurn, by rw [List.cons_append, ← split]⟩

theorem filter_beforeLast (count : ℕ) (xs : List α) :
    (beforeLast begins count xs).filter begins =
      (xs.filter begins).take (xs.countP begins - count) := by
  induction xs with
  | nil => rw [List.filter_nil, List.take_nil, beforeLast, List.filter_nil]
  | cons x xs ih =>
      rw [beforeLast]
      cases isTurn : begins x with
      | false => simpa [isTurn] using ih
      | true =>
          rw [List.countP_cons_of_pos isTurn, List.filter_cons_of_pos isTurn]
          split_ifs with last
          · rw [Nat.sub_eq_zero_of_le last.2, List.take_zero, List.filter_nil]
          · have shift : xs.countP begins + 1 - count = xs.countP begins - count + 1 := by
              simp only [true_and] at last
              omega
            rw [shift, List.take_succ_cons, List.filter_cons_of_pos isTurn, ih]

theorem beforeLast_map (f : β → α) (count : ℕ) (xs : List β) :
    beforeLast begins count (xs.map f) = (beforeLast (begins ∘ f) count xs).map f := by
  induction xs with
  | nil => rfl
  | cons x xs ih =>
      rw [List.map_cons, beforeLast, beforeLast, List.countP_map, ih]
      split_ifs <;> simp_all

/-- Drop the last turns, and the context before the cut. -/
def dropLast (begins context : α → Bool) (count : ℕ) (xs : List α) : List α :=
  if count = 0 ∨ xs.countP begins ≤ count then beforeLast begins count xs
  else (beforeLast begins count xs).rdropWhile context

theorem dropLast_zero (xs : List α) : dropLast begins context 0 xs = xs := by
  rw [dropLast, if_pos (.inl rfl), beforeLast_zero]

theorem dropLast_prefix_beforeLast (count : ℕ) (xs : List α) :
    dropLast begins context count xs <+: beforeLast begins count xs := by
  rw [dropLast]
  split_ifs
  · exact List.prefix_rfl
  · exact List.rdropWhile_prefix context _

theorem dropLast_prefix (count : ℕ) (xs : List α) : dropLast begins context count xs <+: xs :=
  (dropLast_prefix_beforeLast count xs).trans (beforeLast_shorter count xs)

/-- Up to an element that is no context, nothing is dropped. -/
theorem rdropWhile_append_cons (stays : ¬ context turn = true) (xs ys : List α) :
    (xs ++ turn :: ys).rdropWhile context = xs ++ turn :: ys.rdropWhile context := by
  induction ys using List.reverseRecOn with
  | nil => rw [List.rdropWhile_concat_neg _ _ _ stays, List.rdropWhile_nil]
  | append_singleton ys last ih =>
      rw [← List.cons_append, ← List.append_assoc]
      by_cases dropped : context last = true
      · rw [List.rdropWhile_concat_pos _ _ _ dropped, ih,
          List.rdropWhile_concat_pos _ _ _ dropped]
      · rw [List.rdropWhile_concat_neg _ _ _ dropped, List.rdropWhile_concat_neg _ _ _ dropped,
          List.append_assoc, List.cons_append]

/-- Context at the end is dropped. -/
theorem rdropWhile_append (all : ∀ y ∈ ys, context y = true) :
    (xs ++ ys).rdropWhile context = xs.rdropWhile context := by
  induction ys using List.reverseRecOn with
  | nil => rw [List.append_nil]
  | append_singleton ys last ih =>
      rw [← List.append_assoc, List.rdropWhile_concat_pos _ _ _ (all last (by simp))]
      exact ih fun y member => all y (List.mem_append_left _ member)

/-- The last turns are dropped with the context in front of them.  What was before is left as it
was, when it has a turn and ends in something other than context. -/
theorem dropLast_append_turn (isTurn : begins turn = true) (all : ∀ y ∈ front, context y = true)
    (dropped : ys.countP begins + 1 = count)
    (some : 0 < xs.countP begins) (last : ∀ x ∈ xs.getLast?, ¬ context x = true) :
    dropLast begins context count (xs ++ front ++ turn :: ys) = xs := by
  have more : ¬ (count = 0 ∨ (xs ++ front ++ turn :: ys).countP begins ≤ count) := by
    rw [List.countP_append, List.countP_append, List.countP_cons_of_pos isTurn]
    omega
  rw [dropLast, if_neg more, beforeLast_append_turn isTurn (by omega) (.inr dropped),
    rdropWhile_append all, List.rdropWhile_eq_self_iff]
  intro nonempty
  exact last _ (List.getLast?_eq_some_getLast nonempty)

/-- Where nothing before it begins a turn, everything from the first turn on is dropped. -/
theorem dropLast_append_first (isTurn : begins turn = true) (none : xs.countP begins = 0)
    (dropped : ys.countP begins < count) :
    dropLast begins context count (xs ++ turn :: ys) = xs := by
  have all : count = 0 ∨ (xs ++ turn :: ys).countP begins ≤ count := by
    rw [List.countP_append, List.countP_cons_of_pos isTurn]
    omega
  rw [dropLast, if_pos all, beforeLast_append_turn isTurn dropped (.inl none)]

/-- What is before a turn that stays is not touched. -/
theorem dropLast_append (isTurn : begins turn = true) (noContext : ¬ context turn = true)
    (stays : count ≤ ys.countP begins) :
    ∃ rest, ∀ xs, dropLast begins context count (xs ++ turn :: ys) = xs ++ turn :: rest := by
  obtain rfl | positive := Nat.eq_zero_or_pos count
  · exact ⟨ys, fun xs => dropLast_zero _⟩
  · refine ⟨(beforeLast begins count ys).rdropWhile context, fun xs => ?_⟩
    have more : ys.countP begins + 1 = (turn :: ys).countP begins :=
      (List.countP_cons_of_pos isTurn).symm
    have earlier : ¬ (count = 0 ∨ (xs ++ turn :: ys).countP begins ≤ count) := by
      rw [List.countP_append]
      omega
    have within : ¬ (begins turn ∧ ys.countP begins < count) := fun less => less.2.not_ge stays
    rw [dropLast, if_neg earlier, beforeLast_append (by omega), beforeLast, if_neg within,
      rdropWhile_append_cons noContext]

theorem dropLast_append_prefix (isTurn : begins turn = true) (dropped : ys.countP begins < count) :
    dropLast begins context count (xs ++ turn :: ys) <+: xs :=
  (dropLast_prefix_beforeLast count _).trans (beforeLast_append_shorter isTurn dropped)

/-- The context before the cut does not matter to what it has nothing of. -/
theorem filter_dropLast_eq {kind : α → Bool} (other : ∀ x, context x = true → kind x = false)
    (count : ℕ) (xs : List α) :
    (dropLast begins context count xs).filter kind = (beforeLast begins count xs).filter kind := by
  rw [dropLast]
  split_ifs
  · rfl
  · have split : (beforeLast begins count xs).rdropWhile context ++
        (beforeLast begins count xs).rtakeWhile context = beforeLast begins count xs :=
      List.rdropWhile_append_rtakeWhile
    have trimmed : ((beforeLast begins count xs).rtakeWhile context).filter kind = [] :=
      List.filter_eq_nil_iff.mpr fun x member =>
        Bool.eq_false_iff.mp (other x (List.mem_rtakeWhile_imp member))
    conv_rhs => rw [← split, List.filter_append, trimmed, List.append_nil]

/-- The turns that are left. -/
theorem filter_dropLast (other : ∀ x, context x = true → begins x = false) (count : ℕ)
    (xs : List α) :
    (dropLast begins context count xs).filter begins =
      (xs.filter begins).take (xs.countP begins - count) := by
  rw [filter_dropLast_eq other, filter_beforeLast]

/-- Turns are counted from the end, also when the end is cut off. -/
theorem beforeLast_append_countP (some : 0 < count) (within : count ≤ xs.countP begins) :
    beforeLast begins (ys.countP begins + count) (xs ++ ys) = beforeLast begins count xs := by
  induction xs with
  | nil =>
      rw [List.countP_nil] at within
      omega
  | cons x xs ih =>
      rw [List.cons_append, beforeLast, beforeLast, List.countP_append]
      have same : xs.countP begins + ys.countP begins < ys.countP begins + count ↔
          xs.countP begins < count := by omega
      simp only [same]
      split_ifs with last
      · rfl
      · rw [ih]
        cases isTurn : begins x with
        | false => rwa [List.countP_cons_of_neg (by simp [isTurn])] at within
        | true =>
            simp only [isTurn, true_and] at last
            omega

/-- Dropping turns twice is dropping as many at once. -/
theorem dropLast_dropLast (other : ∀ x, context x = true → begins x = false) (first second : ℕ)
    (xs : List α) :
    dropLast begins context second (dropLast begins context first xs) =
      dropLast begins context (first + second) xs := by
  obtain rfl | some := Nat.eq_zero_or_pos first
  · rw [dropLast_zero, Nat.zero_add]
  obtain rfl | more := Nat.eq_zero_or_pos second
  · rw [dropLast_zero, Nat.add_zero]
  have shorter : dropLast begins context first xs <+: xs := dropLast_prefix first xs
  obtain ⟨ys, split⟩ := shorter
  have left : (dropLast begins context first xs).countP begins = xs.countP begins - first := by
    rw [List.countP_eq_length_filter, filter_dropLast other, List.length_take,
      ← List.countP_eq_length_filter]
    omega
  have total := congrArg (List.countP begins) split
  rw [List.countP_append, left] at total
  obtain earlier | all := Nat.lt_or_ge first (xs.countP begins)
  · have cut (count : ℕ) (positive : 0 < count) (within : count ≤ xs.countP begins - first) :
        beforeLast begins count (dropLast begins context first xs) =
          beforeLast begins (first + count) xs := by
      have counted : beforeLast begins (ys.countP begins + count)
          (dropLast begins context first xs ++ ys) = _ :=
        beforeLast_append_countP positive (left ▸ within)
      have dropped : ys.countP begins = first := by omega
      rw [split, dropped] at counted
      exact counted.symm
    obtain fewer | rest := Nat.lt_or_ge second (xs.countP begins - first)
    · rw [dropLast, left, if_neg (by omega), cut second more fewer.le, dropLast,
        if_neg (by omega)]
    · have whole : beforeLast begins (first + second) xs =
          beforeLast begins (xs.countP begins) xs := beforeLast_of_countP_le (by omega)
      rw [dropLast, left, if_pos (.inr rest), beforeLast_of_countP_le (left ▸ rest), left,
        cut _ (by omega) le_rfl, dropLast, if_pos (.inr (by omega)), Nat.add_sub_cancel' earlier.le,
        whole]
  · have none : (dropLast begins context first xs).countP begins = 0 := by omega
    rw [dropLast, if_pos (.inr (none ▸ Nat.zero_le _)),
      beforeLast_of_countP_le (none ▸ Nat.zero_le _), none, beforeLast_zero, dropLast,
      if_pos (.inr all), dropLast, if_pos (.inr (all.trans (Nat.le_add_right _ _))),
      beforeLast_of_countP_le all, beforeLast_of_countP_le (all.trans (Nat.le_add_right _ _))]

theorem front_prefix_beforeLast (count : ℕ) (xs : List α) :
    xs.takeWhile (!begins ·) <+: beforeLast begins count xs := by
  induction xs with
  | nil => exact List.nil_prefix
  | cons x xs ih =>
      cases isTurn : begins x with
      | true =>
          rw [List.takeWhile_cons_of_neg (by simp [isTurn])]
          exact List.nil_prefix
      | false =>
          rw [List.takeWhile_cons_of_pos (by simp [isTurn]), beforeLast, if_neg (by simp [isTurn])]
          exact List.cons_prefix_cons.mpr ⟨rfl, ih⟩

/-- What is before the first turn is kept. -/
theorem front_prefix_dropLast (other : ∀ x, context x = true → begins x = false) (count : ℕ)
    (xs : List α) : xs.takeWhile (!begins ·) <+: dropLast begins context count xs := by
  have front : xs.takeWhile (!begins ·) <+: beforeLast begins count xs :=
    front_prefix_beforeLast count xs
  obtain ⟨tail, split⟩ := front
  rw [dropLast]
  split_ifs with all
  · exact ⟨tail, split⟩
  · have left : 0 < (beforeLast begins count xs).countP begins := by
      rw [List.countP_eq_length_filter, filter_beforeLast, List.length_take,
        ← List.countP_eq_length_filter]
      omega
    obtain ⟨turn, member, isTurn⟩ := List.countP_pos_iff.mp left
    have inTail : turn ∈ tail := by
      rw [← split] at member
      refine (List.mem_append.mp member).resolve_left fun inFront => ?_
      simpa [isTurn] using List.mem_takeWhile_imp inFront
    obtain ⟨before, behind, rfl⟩ := List.append_of_mem inTail
    have noContext : ¬context turn = true := fun isContext => by
      rw [other turn isContext] at isTurn
      cases isTurn
    rw [← split, ← List.append_assoc, rdropWhile_append_cons noContext, List.append_assoc]
    exact List.prefix_append _ _

theorem dropLast_map (f : β → α) (count : ℕ) (xs : List β) :
    dropLast begins context count (xs.map f) =
      (dropLast (begins ∘ f) (context ∘ f) count xs).map f := by
  rw [dropLast, dropLast, List.countP_map, beforeLast_map]
  split_ifs
  · rfl
  · rw [List.rdropWhile, List.rdropWhile, ← List.map_reverse, List.dropWhile_map, List.map_reverse]

end Turns
