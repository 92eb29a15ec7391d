import Mathlib.Algebra.BigOperators.Group.List.Basic
import Mathlib.Algebra.Order.Group.Nat
import Mathlib.Algebra.Ring.Nat
import Mathlib.Data.List.Infix

/-!
# Offsets into sequences of sized items

Every item of a sequence takes up a number of units, and a place is an offset in units.  Only some
offsets lie between two items; a sequence is cut there, and nowhere else.

Of a log whose items are numbered in increasing order, old items are evicted from the front while
the items take up too much, and a reader takes a front part of what is behind its cursor, and moves
the cursor.
-/

namespace Offsets

variable {α : Type*} (size : α → ℕ)

/-- The units that the items take up. -/
def extent (items : List α) : ℕ := (items.map size).sum

/-- The items that fit in front of an offset. -/
def front : List α → ℕ → List α
  | [], _ => []
  | item :: items, offset =>
      if size item ≤ offset then item :: front items (offset - size item) else []

/-- The items behind those that fit in front of an offset. -/
def back : List α → ℕ → List α
  | [], _ => []
  | item :: items, offset =>
      if size item ≤ offset then back items (offset - size item) else item :: items

/-- The offset lies between two items, or at an end. -/
def IsBoundary (items : List α) (offset : ℕ) : Prop :=
  ∃ before after, items = before ++ after ∧ extent size before = offset

variable {size} {items before middle after : List α} {offset start stop : ℕ}

@[simp]
theorem extent_nil : extent size [] = 0 := rfl

@[simp]
theorem extent_cons (item : α) : extent size (item :: items) = size item + extent size items := by
  simp [extent]

@[simp]
theorem extent_append : extent size (before ++ after) = extent size before + extent size after := by
  simp [extent]

theorem front_append_back (items : List α) (offset : ℕ) :
    front size items offset ++ back size items offset = items := by
  induction items generalizing offset with
  | nil => rfl
  | cons item items ih =>
      rw [front, back]
      split
      · exact congrArg (item :: ·) (ih (offset - size item))
      · rfl

theorem extent_front_le (items : List α) (offset : ℕ) :
    extent size (front size items offset) ≤ offset := by
  induction items generalizing offset with
  | nil => exact Nat.zero_le offset
  | cons item items ih =>
      rw [front]
      split
      case isTrue fits =>
        have rest := ih (offset - size item)
        rw [extent_cons]
        omega
      case isFalse => exact Nat.zero_le offset

/-- The first item that does not fit goes past the offset. -/
theorem lt_extent_front_add {item : α} {later : List α}
    (next : back size items offset = item :: later) :
    offset < extent size (front size items offset) + size item := by
  induction items generalizing offset with
  | nil => cases next
  | cons first items ih =>
      rw [back] at next
      rw [front]
      split at next
      case isTrue fits =>
        have past := ih next
        rw [if_pos fits, extent_cons]
        omega
      case isFalse beyond =>
        cases next
        rw [if_neg beyond, extent_nil]
        omega

theorem extent_le_of_isBoundary (boundary : IsBoundary size items offset) :
    offset ≤ extent size items := by
  obtain ⟨before, after, rfl, rfl⟩ := boundary
  rw [extent_append]
  exact Nat.le_add_right _ _

theorem isBoundary_extent (before after : List α) :
    IsBoundary size (before ++ after) (extent size before) :=
  ⟨before, after, rfl, rfl⟩

theorem isBoundary_zero (items : List α) : IsBoundary size items 0 := ⟨[], items, rfl, rfl⟩

theorem isBoundary_end (items : List α) : IsBoundary size items (extent size items) :=
  ⟨items, [], (List.append_nil items).symm, rfl⟩

section Positive

variable (positive : ∀ item, 0 < size item)

include positive

theorem eq_nil_of_extent_eq_zero (none : extent size items = 0) : items = [] := by
  cases items with
  | nil => rfl
  | cons item items =>
      have first := positive item
      rw [extent_cons] at none
      omega

theorem front_append (before after : List α) :
    front size (before ++ after) (extent size before) = before := by
  induction before with
  | nil =>
      cases after with
      | nil => rfl
      | cons item after => exact if_neg (Nat.not_le_of_gt (positive item))
  | cons item before ih =>
      rw [List.cons_append, extent_cons, front, if_pos (Nat.le_add_right _ _),
        Nat.add_sub_cancel_left, ih]

theorem back_append (before after : List α) :
    back size (before ++ after) (extent size before) = after := by
  have whole : front size (before ++ after) (extent size before) ++
      back size (before ++ after) (extent size before) = before ++ after :=
    front_append_back (before ++ after) (extent size before)
  rw [front_append positive] at whole
  exact List.append_cancel_left whole

/-- An offset is a boundary when the items that fit in front of it reach it. -/
theorem isBoundary_iff :
    IsBoundary size items offset ↔ extent size (front size items offset) = offset := by
  constructor
  · rintro ⟨before, after, rfl, rfl⟩
    rw [front_append positive]
  · intro reaches
    exact ⟨_, _, (front_append_back items offset).symm, reaches⟩

/-- Two boundaries cut a sequence into three. -/
theorem exists_between (first : IsBoundary size items start) (second : IsBoundary size items stop)
    (ordered : start ≤ stop) :
    ∃ before middle after, items = before ++ (middle ++ after) ∧ extent size before = start ∧
      extent size before + extent size middle = stop := by
  obtain ⟨before, rest, rfl, rfl⟩ := first
  obtain ⟨longer, after, whole, rfl⟩ := second
  obtain ⟨middle, rfl, rfl⟩ | ⟨middle, rfl, rfl⟩ := List.append_eq_append_iff.mp whole
  · exact ⟨before, middle, after, rfl, rfl, extent_append.symm⟩
  · rw [extent_append] at ordered ⊢
    have none : middle = [] := eq_nil_of_extent_eq_zero positive (by omega)
    subst none
    exact ⟨longer, [], rest, by simp, by simp, by simp⟩

/-- Behind a boundary, the boundaries are those of the rest. -/
theorem isBoundary_append_iff :
    IsBoundary size (before ++ after) (extent size before + offset) ↔
      IsBoundary size after offset := by
  constructor
  · intro boundary
    obtain ⟨first, middle, last, whole, reaches, further⟩ :=
      exists_between positive (isBoundary_extent before after) boundary (Nat.le_add_right _ _)
    have same : first = before := by
      rw [← front_append positive before after, whole, ← reaches, front_append positive]
    subst same
    exact ⟨middle, last, List.append_cancel_left whole, Nat.add_left_cancel further⟩
  · rintro ⟨middle, last, rfl, rfl⟩
    exact ⟨before ++ middle, last, (List.append_assoc _ _ _).symm, extent_append⟩

/-- Items that are put in between two others move the boundaries behind them. -/
theorem isBoundary_insert (inserted : List α)
    (boundary : IsBoundary size (before ++ after) offset) :
    IsBoundary size (before ++ (inserted ++ after))
      (if extent size before ≤ offset then offset + extent size inserted else offset) := by
  split
  case isTrue behind =>
    obtain ⟨further, rfl⟩ := Nat.exists_eq_add_of_le behind
    obtain ⟨middle, last, rfl, rfl⟩ := (isBoundary_append_iff positive).mp boundary
    refine ⟨before ++ (inserted ++ middle), last, by simp, ?_⟩
    simp only [extent_append]
    omega
  case isFalse ahead =>
    obtain ⟨first, middle, last, whole, reaches, further⟩ :=
      exists_between positive boundary (isBoundary_extent before after) (by omega)
    have same : first ++ middle = before := by
      rw [← front_append positive before after, whole, ← further, ← extent_append,
        ← List.append_assoc, front_append positive]
    rw [← same]
    exact ⟨first, middle ++ (inserted ++ after), List.append_assoc _ _ _, reaches⟩

end Positive

end Offsets

namespace Cursors

open Offsets

variable {α : Type*} {size number : α → ℕ} {items front : List α} {item : α}
variable {cap total next cursor : ℕ}

/-! ## Evicting -/

/-- Take items from the front while the total is above the cap: what is evicted, the total that is
left, and what is kept. -/
def evict (size : α → ℕ) (cap : ℕ) : ℕ → List α → List α × ℕ × List α
  | total, [] => ([], total, [])
  | total, item :: items =>
      if cap < total then
        let (evicted, left, kept) := evict size cap (total - size item) items
        (item :: evicted, left, kept)
      else ([], total, item :: items)

theorem evict_append (total : ℕ) (items : List α) :
    (evict size cap total items).1 ++ (evict size cap total items).2.2 = items := by
  induction items generalizing total with
  | nil => rfl
  | cons item items ih =>
      rw [evict]
      split
      · exact congrArg (item :: ·) (ih (total - size item))
      · rfl

/-- A total that is right stays right, and is within the cap. -/
theorem evict_total (exact : total = extent size items) :
    (evict size cap total items).2.1 = extent size (evict size cap total items).2.2 ∧
      (evict size cap total items).2.1 ≤ cap := by
  induction items generalizing total with
  | nil =>
      subst exact
      exact ⟨rfl, Nat.zero_le cap⟩
  | cons item items ih =>
      rw [evict]
      split
      case isTrue =>
        refine ih ?_
        rw [exact, extent_cons, Nat.add_sub_cancel_left]
      case isFalse within => exact ⟨exact, Nat.not_lt.mp within⟩

/-! ## Reading -/

/-- Take items until they reach the limit, the first one in any case: what has been taken, and the
number behind it. -/
def read (size number : α → ℕ) (limit : ℕ) : List α → ℕ → ℕ → List α → List α × ℕ
  | taken, _, next, [] => (taken, next)
  | taken, total, next, item :: items =>
      if taken ≠ [] ∧ limit < total + size item then (taken, next)
      else if limit ≤ total + size item then (taken ++ [item], number item + 1)
      else
        read size number limit (taken ++ [item]) (total + size item) (number item + 1) items

/-- The number behind the last of some items, or else another one. -/
def nextOf (number : α → ℕ) (next : ℕ) (items : List α) : ℕ :=
  (items.getLast?.map fun last => number last + 1).getD next

/-- What is read is a front part of the items, not empty unless there are no items. -/
theorem read_front (size number : α → ℕ) (limit next total : ℕ) (taken items : List α) :
    ∃ front rest, items = front ++ rest ∧
      read size number limit taken total (nextOf number next taken) items =
        (taken ++ front, nextOf number next (taken ++ front)) ∧
      (taken = [] → front = [] → items = []) := by
  induction items generalizing taken total with
  | nil => exact ⟨[], [], rfl, by simp [read], fun _ _ => rfl⟩
  | cons item items ih =>
      have behind : number item + 1 = nextOf number next (taken ++ [item]) := by simp [nextOf]
      rw [read]
      split
      case isTrue full =>
        refine ⟨[], item :: items, rfl, by rw [List.append_nil], ?_⟩
        exact fun none => absurd none full.1
      case isFalse =>
        split
        case isTrue => exact ⟨[item], items, rfl, by rw [behind], by simp⟩
        case isFalse =>
          obtain ⟨front, rest, rfl, reads, -⟩ := ih (total + size item) (taken ++ [item])
          refine ⟨item :: front, rest, rfl, ?_, by simp⟩
          rw [behind, reads, List.append_assoc]
          rfl

/-- Of items in order, those of a front part are the ones in front of the number behind it. -/
theorem mem_front_iff {rest : List α}
    (sorted : (front ++ rest).Pairwise fun one two => number one < number two)
    (nonempty : front ≠ []) (member : item ∈ front ++ rest) :
    item ∈ front ↔ number item < nextOf number next front := by
  have last : nextOf number next front = number (front.getLast nonempty) + 1 := by
    rw [nextOf, List.getLast?_eq_some_getLast nonempty]
    rfl
  obtain ⟨ordered, -, across⟩ := List.pairwise_append.mp sorted
  rw [last, Nat.lt_succ_iff]
  constructor
  · intro here
    rw [← List.dropLast_append_getLast nonempty] at here ordered
    obtain before | final := List.mem_append.mp here
    · exact ((List.pairwise_append.mp ordered).2.2 item before _ (List.mem_singleton_self _)).le
    · rw [List.mem_singleton.mp final]
  · intro before
    obtain here | later := List.mem_append.mp member
    · exact here
    · exact absurd (across _ (List.getLast_mem nonempty) item later) (Nat.not_lt.mpr before)

/-- The cursor rule: a read takes, in order, the items between the cursor and the number that it
goes on from, and does not go back. -/
theorem read_behind (size : α → ℕ) (limit : ℕ)
    (sorted : items.Pairwise fun one two => number one < number two)
    (fresh : ∀ item ∈ items, number item < next) (behind : cursor < next) :
    let result :=
      read size number limit [] 0 next (items.filter fun item => cursor < number item)
    result.1.Pairwise (fun one two => number one < number two) ∧
      cursor < result.2 ∧ result.2 ≤ next ∧
      ∀ item, item ∈ result.1 ↔
        item ∈ items ∧ cursor < number item ∧ number item < result.2 := by
  obtain ⟨front, rest, wanted, reads, all⟩ := read_front size number limit next 0 []
    (items.filter fun item => cursor < number item)
  have sorted' := sorted.filter fun item => cursor < number item
  have mem_wanted (item : α) : item ∈ front ++ rest ↔ item ∈ items ∧ cursor < number item := by
    rw [← wanted, List.mem_filter, decide_eq_true_iff]
  rw [wanted] at sorted'
  have result : read size number limit [] 0 next
      (items.filter fun item => cursor < number item) = (front, nextOf number next front) := reads
  rw [result]
  by_cases nonempty : front = []
  · have none : front ++ rest = [] := wanted.symm.trans (all rfl nonempty)
    refine ⟨(List.pairwise_append.mp sorted').1, ?_⟩
    subst nonempty
    refine ⟨behind, le_rfl, fun item => ⟨fun member => (by cases member), ?_⟩⟩
    rintro ⟨member, after, -⟩
    have here := (mem_wanted item).mpr ⟨member, after⟩
    rwa [none] at here
  · have last : nextOf number next front = number (front.getLast nonempty) + 1 := by
      rw [nextOf, List.getLast?_eq_some_getLast nonempty]
      rfl
    obtain ⟨member, after⟩ :=
      (mem_wanted _).mp (List.mem_append_left rest (List.getLast_mem nonempty))
    refine ⟨(List.pairwise_append.mp sorted').1, ?_, ?_, fun item => ⟨fun here => ?_, ?_⟩⟩
    · exact last ▸ Nat.lt_succ_of_lt after
    · exact last ▸ fresh _ member
    · have among := List.mem_append_left rest here
      obtain ⟨member', after'⟩ := (mem_wanted item).mp among
      exact ⟨member', after', (mem_front_iff sorted' nonempty among).mp here⟩
    · rintro ⟨member', after', before⟩
      have among := (mem_wanted item).mpr ⟨member', after'⟩
      exact (mem_front_iff sorted' nonempty among).mpr before

end Cursors
