import Mathlib.Algebra.Order.BigOperators.Group.List
import Mathlib.Algebra.Order.Group.Nat
import Mathlib.Algebra.Ring.Nat

/-!
# Budgets

Items are paid for in order until the budget is used up.  The first item that costs more than what
is left is singled out, with what is left for it, and the items behind it get nothing.

Where items are taken in the order of their keys as long as their number and their weight are within
two budgets, an item is taken exactly when it and all items before it are within them, which can be
told of every item on its own.
-/

namespace Allotments

variable {α : Type*} {cost : α → ℕ} {budget : ℕ} {items : List α}

/-- The items that are paid in full, the one that is not together with what is left for it, and the
items that get nothing. -/
structure Allotment (α : Type*) where
  kept : List α
  cut : Option (ℕ × α)
  left : List α

/-- Spend the budget on the items in order. -/
def allot (cost : α → ℕ) : ℕ → List α → Allotment α
  | _, [] => ⟨[], none, []⟩
  | budget, item :: items =>
      if budget = 0 then ⟨[], none, item :: items⟩
      else if cost item ≤ budget then
        let later := allot cost (budget - cost item) items
        { later with kept := item :: later.kept }
      else ⟨[], some (budget, item), items⟩

/-- Without a budget nothing is kept. -/
theorem allot_zero (items : List α) : allot cost 0 items = ⟨[], none, items⟩ := by
  cases items with
  | nil => rfl
  | cons item items => exact if_pos rfl

theorem allot_cons_of_fits {item : α} (some : budget ≠ 0) (fits : cost item ≤ budget) :
    allot cost budget (item :: items) =
      { allot cost (budget - cost item) items with
        kept := item :: (allot cost (budget - cost item) items).kept } := by
  rw [allot, if_neg some, if_pos fits]

theorem allot_cons_of_exceeds {item : α} (some : budget ≠ 0) (exceeds : budget < cost item) :
    allot cost budget (item :: items) = ⟨[], .some (budget, item), items⟩ := by
  rw [allot, if_neg some, if_neg (Nat.not_le.mpr exceeds)]

/-- The item that is not paid in full. -/
def Allotment.cutItem (allotment : Allotment α) : List α := (allotment.cut.map Prod.snd).toList

/-- What is left for the item that is not paid in full. -/
def Allotment.rest (allotment : Allotment α) : ℕ := (allotment.cut.map Prod.fst).getD 0

/-- The items are in one of the three parts, in their order. -/
theorem pieces (cost : α → ℕ) (budget : ℕ) (items : List α) :
    items = (allot cost budget items).kept ++
      ((allot cost budget items).cutItem ++ (allot cost budget items).left) := by
  induction items generalizing budget with
  | nil => rfl
  | cons item items ih =>
      rw [allot]
      split
      · rfl
      · split
        · exact congrArg (item :: ·) (ih (budget - cost item))
        · rfl

/-- The budget is kept to. -/
theorem spent_le (cost : α → ℕ) (budget : ℕ) (items : List α) :
    ((allot cost budget items).kept.map cost).sum + (allot cost budget items).rest ≤ budget := by
  induction items generalizing budget with
  | nil => exact Nat.zero_le budget
  | cons item items ih =>
      rw [allot]
      split
      · exact Nat.zero_le budget
      · split
        case isTrue fits =>
          have later := ih (budget - cost item)
          simp only [Allotment.rest] at later ⊢
          rw [List.map_cons, List.sum_cons]
          omega
        case isFalse => simp [Allotment.rest]

/-- An item that is not paid in full gets what the items before it leave, and costs more than
that. -/
theorem cut_spec {remaining : ℕ} {item : α}
    (cut : (allot cost budget items).cut = some (remaining, item)) :
    ((allot cost budget items).kept.map cost).sum + remaining = budget ∧ remaining < cost item := by
  induction items generalizing budget with
  | nil => cases cut
  | cons first items ih =>
      rw [allot] at cut ⊢
      split at cut
      · cases cut
      case isFalse some =>
        rw [if_neg some]
        split at cut
        case isTrue fits =>
          have later := ih cut
          rw [if_pos fits]
          simp only [List.map_cons, List.sum_cons]
          omega
        case isFalse exceeds =>
          cases cut
          rw [if_neg exceeds]
          exact ⟨Nat.zero_add _, Nat.not_le.mp exceeds⟩

/-- Items get nothing only where those before them cost as much as there is. -/
theorem le_of_left_ne_nil (left : (allot cost budget items).left ≠ []) :
    budget ≤ (((allot cost budget items).kept ++ (allot cost budget items).cutItem).map
      cost).sum := by
  induction items generalizing budget with
  | nil => exact absurd rfl left
  | cons item items ih =>
      rw [allot] at left ⊢
      split
      case isTrue none => exact none ▸ Nat.zero_le _
      case isFalse some =>
        rw [if_neg some] at left
        split
        case isTrue fits =>
          rw [if_pos fits] at left
          have later := ih left
          simp only [Allotment.cutItem, List.cons_append, List.map_cons, List.sum_cons] at later ⊢
          omega
        case isFalse exceeds =>
          simp only [Allotment.cutItem, Option.map_some, Option.toList_some, List.nil_append,
            List.map_singleton, List.sum_singleton]
          omega

end Allotments

namespace Budgets

variable {ι κ : Type*} [LinearOrder κ] {key : ι → κ} {weight : ι → ℕ} {items weights : ℕ}
  {window others order run : List ι} {item : ι}

/-- A list is within a budget for its number of items and one for their weight. -/
structure Within (weight : ι → ℕ) (items weights : ℕ) (run : List ι) : Prop where
  length_le : run.length ≤ items
  weight_le : (run.map weight).sum ≤ weights

instance (run : List ι) : Decidable (Within weight items weights run) :=
  decidable_of_iff (run.length ≤ items ∧ (run.map weight).sum ≤ weights)
    ⟨fun ⟨few, light⟩ => ⟨few, light⟩, fun within => ⟨within.length_le, within.weight_le⟩⟩

theorem Within.sublist (within : Within weight items weights window) (fewer : run.Sublist window) :
    Within weight items weights run where
  length_le := fewer.length_le.trans within.length_le
  weight_le := (List.Sublist.sum_le_sum (fewer.map weight) fun _ _ => Nat.zero_le _).trans
    within.weight_le

theorem Within.perm (within : Within weight items weights window) (same : run.Perm window) :
    Within weight items weights run where
  length_le := same.length_eq ▸ within.length_le
  weight_le := (same.map weight).sum_eq ▸ within.weight_le

/-- The items of a window up to an item. -/
def upTo (key : ι → κ) (window : List ι) (item : ι) : List ι :=
  window.filter fun other => key other ≤ key item

/-- The items that are within the budgets together with all items before them. -/
def taken (key : ι → κ) (weight : ι → ℕ) (items weights : ℕ) (window : List ι) : List ι :=
  window.filter fun item => Within weight items weights (upTo key window item)

/-- The longest front of an order within the budgets. -/
structure IsLongestRun (weight : ι → ℕ) (items weights : ℕ) (order run : List ι) : Prop where
  front : run <+: order
  within : Within weight items weights run
  longest : ∀ longer, longer <+: order → Within weight items weights longer → longer <+: run

/-- Within the budgets, all items are taken. -/
theorem taken_of_within (within : Within weight items weights window) :
    taken key weight items weights window = window :=
  List.filter_eq_self.mpr fun _ _ => decide_eq_true (within.sublist List.filter_sublist)

theorem taken_sublist : (taken key weight items weights window).Sublist window :=
  List.filter_sublist

/-- What is taken does not depend on how the items are listed. -/
theorem taken_perm (same : window.Perm others) :
    (taken key weight items weights window).Perm (taken key weight items weights others) := by
  have fits (item : ι) : Within weight items weights (upTo key window item) ↔
      Within weight items weights (upTo key others item) :=
    ⟨fun within => within.perm (same.symm.filter _), fun within => within.perm (same.filter _)⟩
  unfold taken
  simp only [fits]
  exact same.filter _

/-- What holds of an item only if it holds of those before it holds of a front. -/
theorem filter_front {holds : ι → Bool}
    (downward : order.Pairwise fun earlier later => holds later = true → holds earlier = true) :
    order.filter holds <+: order := by
  induction order with
  | nil => exact List.prefix_rfl
  | cons item order ih =>
      obtain ⟨first, rest⟩ := List.pairwise_cons.mp downward
      obtain here | gone := Decidable.em (holds item = true)
      · rw [List.filter_cons_of_pos here]
        exact List.cons_prefix_cons.mpr ⟨rfl, ih rest⟩
      · have none : (item :: order).filter holds = [] := by
          refine List.filter_eq_nil_iff.mpr fun other member => ?_
          obtain rfl | later := List.mem_cons.mp member
          · exact gone
          · exact fun kept => gone (first other later kept)
        rw [none]
        exact List.nil_prefix

section Ordered

variable (ordered : order.Pairwise fun earlier later => key earlier < key later)

include ordered

/-- Up to an item of a front, an order has only items of the front. -/
theorem upTo_sublist_front (front : run <+: order) (member : item ∈ run) :
    (upTo key order item).Sublist run := by
  obtain ⟨rest, rfl⟩ := front
  have later := (List.pairwise_append.mp ordered).2.2 item member
  have none : upTo key rest item = [] := by
    refine List.filter_eq_nil_iff.mpr fun other inside => ?_
    rw [decide_eq_true_eq, not_le]
    exact later other inside
  have split : upTo key (run ++ rest) item = upTo key run item ++ upTo key rest item :=
    List.filter_append run rest
  rw [split, none, List.append_nil]
  exact List.filter_sublist

/-- What is taken of an order is its longest front within the budgets. -/
theorem isLongestRun_taken :
    IsLongestRun weight items weights order (taken key weight items weights order) where
  front := by
    refine filter_front (ordered.imp fun {earlier later} before kept => ?_)
    have within := of_decide_eq_true kept
    refine decide_eq_true (within.sublist (List.monotone_filter_right order fun other up => ?_))
    rw [decide_eq_true_eq] at up ⊢
    exact up.trans before.le
  within := by
    generalize same : taken key weight items weights order = run
    obtain rfl | ⟨front, last, rfl⟩ := List.eq_nil_or_concat' run
    · exact ⟨Nat.zero_le _, Nat.zero_le _⟩
    · have member : last ∈ taken key weight items weights order := by
        rw [same]
        exact List.mem_append_right _ List.mem_cons_self
      have within := of_decide_eq_true (List.mem_filter.mp member).2
      have fewer : (front ++ [last]).Sublist order := same ▸ taken_sublist
      have before := (List.pairwise_append.mp (ordered.sublist fewer)).2.2
      have upward : (front ++ [last]).filter (fun other => key other ≤ key last) =
          front ++ [last] := by
        refine List.filter_eq_self.mpr fun other inside => decide_eq_true ?_
        obtain earlier | same := List.mem_append.mp inside
        · exact (before other earlier last List.mem_cons_self).le
        · exact (congrArg key (List.mem_singleton.mp same)).le
      refine within.sublist ?_
      rw [← upward]
      exact fewer.filter _
  longest longer front within := by
    have all : longer.filter
        (fun item => Within weight items weights (upTo key order item)) = longer := by
      refine List.filter_eq_self.mpr fun item member => decide_eq_true ?_
      exact within.sublist (upTo_sublist_front ordered front member)
    rw [← all]
    exact front.filter _

end Ordered

end Budgets
