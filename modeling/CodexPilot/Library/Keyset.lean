import Mathlib.Data.List.Infix
import Mathlib.Order.Lattice

/-!
# Paging by keys

Rows are listed by decreasing keys, a page at a time.  A cursor is the key of the last row of a
page, and the next page starts below it.  When every page is a piece of what is left, and only the
last one has no cursor, the pages together are all rows.
-/

namespace Keyset

variable {α κ : Type*} [LinearOrder κ] {key : α → κ} {rows : List α}

/-- The rows that come after a cursor. -/
def after (key : α → κ) (rows : List α) : Option κ → List α
  | none => rows
  | some cursor => rows.filter fun row => key row < cursor

theorem after_append (rows later : List α) (cursor : Option κ) :
    after key (rows ++ later) cursor = after key rows cursor ++ after key later cursor := by
  cases cursor with
  | none => rfl
  | some cursor => exact List.filter_append _ _

theorem after_sublist (rows : List α) (cursor : Option κ) :
    (after key rows cursor).Sublist rows := by
  cases cursor with
  | none => exact .refl rows
  | some cursor => exact List.filter_sublist

/-- Rows that are made of others with the same keys. -/
theorem after_filterMap {β : Type*} {key' : β → κ} {make : α → Option β}
    (same : ∀ row ∈ rows, ∀ made, make row = some made → key' made = key row) (cursor : Option κ) :
    after key' (rows.filterMap make) cursor = (after key rows cursor).filterMap make := by
  cases cursor with
  | none => rfl
  | some cursor =>
      rw [after, after, List.filter_filterMap, List.filterMap_filter]
      refine List.filterMap_congr fun row member => ?_
      cases made : make row with
      | none => rw [Option.filter_none, ite_self]
      | some row' => rw [Option.filter_some, same row member row' made]

/-- Rows, and the key to go on from. -/
structure Page (α κ : Type*) where
  items : List α
  next : Option κ

/-- A page starts after its cursor, and it names its last row unless nothing is left. -/
structure IsPage (key : α → κ) (rows : List α) (size : ℕ) (cursor : Option κ) (page : Page α κ) :
    Prop where
  starts : page.items <+: after key rows cursor
  bounded : page.items.length ≤ size
  ends : page.next = none → page.items = after key rows cursor
  resumes : ∀ next, page.next = some next →
    ∃ last, page.items.getLast? = some last ∧ key last = next

/-- Follow the cursors for a number of rounds; `none` when there is a cursor left. -/
def follow (page : Option κ → Page α κ) : ℕ → Option κ → Option (List (List α))
  | 0, _ => none
  | rounds + 1, cursor =>
      match (page cursor).next with
      | none => some [(page cursor).items]
      | some next => (follow page rounds (some next)).map ((page cursor).items :: ·)

variable {page : Option κ → Page α κ} {size : ℕ} {cursor : Option κ}

omit [LinearOrder κ] in
/-- More rounds do not change the pages. -/
theorem follow_unique {rounds others : ℕ} {pages pages' : List (List α)}
    (followed : follow page rounds cursor = some pages)
    (followed' : follow page others cursor = some pages') : pages = pages' := by
  induction rounds generalizing cursor others pages pages' with
  | zero => cases followed
  | succ rounds ih =>
      cases others with
      | zero => cases followed'
      | succ others =>
          simp only [follow] at followed followed'
          cases next : (page cursor).next with
          | none =>
              simp only [next] at followed followed'
              exact Option.some.inj (followed.symm.trans followed')
          | some next' =>
              simp only [next] at followed followed'
              obtain ⟨rest, continued, rfl⟩ := Option.map_eq_some_iff.mp followed
              obtain ⟨rest', continued', rfl⟩ := Option.map_eq_some_iff.mp followed'
              rw [ih continued continued']

/-- A row is among the first ones exactly when few rows are above it. -/
theorem mem_take_iff (sorted : rows.Pairwise fun row later => key later < key row) {row : α}
    (member : row ∈ rows) (count : ℕ) :
    row ∈ rows.take count ↔ (rows.filter fun other => key row < key other).length < count := by
  obtain ⟨before, rest, rfl⟩ := List.append_of_mem member
  obtain ⟨_, later, earlier⟩ := List.pairwise_append.mp sorted
  have above : (before ++ row :: rest).filter (fun other => key row < key other) = before := by
    rw [List.filter_append, List.filter_eq_self.mpr, List.filter_eq_nil_iff.mpr, List.append_nil]
    · intro other isRest
      obtain rfl | isRest := List.mem_cons.mp isRest
      · simp
      · simpa using (List.rel_of_pairwise_cons later isRest).le
    · exact fun other isBefore => decide_eq_true (earlier other isBefore row List.mem_cons_self)
  rw [above]
  constructor
  · intro taken
    by_contra few
    rw [List.take_append_of_le_length (not_lt.mp few)] at taken
    exact lt_irrefl _ (earlier row (List.mem_of_mem_take taken) row List.mem_cons_self)
  · intro few
    rw [List.take_append, List.mem_append]
    refine .inr ?_
    rw [List.take_cons (Nat.sub_pos_of_lt few)]
    exact List.mem_cons_self

theorem after_sorted (sorted : rows.Pairwise fun row later => key later < key row)
    (cursor : Option κ) :
    (after key rows cursor).Pairwise fun row later => key later < key row := by
  cases cursor with
  | none => exact sorted
  | some cursor => exact sorted.filter _

/-- Below the last row of a page is what follows the page. -/
theorem after_last (sorted : rows.Pairwise fun row later => key later < key row)
    {items rest : List α} {last : α} (split : after key rows cursor = items ++ rest)
    (isLast : items.getLast? = some last) : after key rows (some (key last)) = rest := by
  obtain ⟨front, rfl⟩ := List.getLast?_eq_some_iff.mp isLast
  have ordered := split ▸ after_sorted sorted cursor
  obtain ⟨itemsOrdered, _, apart⟩ := List.pairwise_append.mp ordered
  -- The rows below the last one are among those after the cursor.
  have below : after key rows (some (key last)) =
      (after key rows cursor).filter fun row => key row < key last := by
    cases cursor with
    | none => rfl
    | some cursor =>
        have member : last ∈ after key rows (some cursor) := by simp [split]
        have passed : key last < cursor := by simpa using (List.mem_filter.mp member).2
        simp only [after, List.filter_filter]
        refine List.filter_congr fun row _ => ?_
        rw [← Bool.decide_and]
        exact decide_eq_decide.mpr ⟨fun lower => ⟨lower, lower.trans passed⟩, And.left⟩
  have noItem : (front ++ [last]).filter (fun row => key row < key last) = [] := by
    rw [List.filter_eq_nil_iff]
    intro row member lower
    obtain earlier | same := List.mem_append.mp member
    · have higher := (List.pairwise_append.mp itemsOrdered).2.2 row earlier last
        (List.mem_singleton_self last)
      exact absurd (of_decide_eq_true lower) higher.le.not_gt
    · rw [List.mem_singleton.mp same] at lower
      exact absurd (of_decide_eq_true lower) (lt_irrefl _)
  have allRest : rest.filter (fun row => key row < key last) = rest := by
    refine List.filter_eq_self.mpr fun row member => decide_eq_true ?_
    exact apart last (List.mem_append_right _ (List.mem_singleton_self last)) row member
  rw [below, split, List.filter_append, noItem, allRest, List.nil_append]

/-- Following the cursors ends, with all rows in order and no page too long. -/
theorem exists_follow (sorted : rows.Pairwise fun row later => key later < key row)
    (isPage : ∀ cursor, IsPage key rows size cursor (page cursor)) (cursor : Option κ) :
    ∃ rounds pages, follow page rounds cursor = some pages ∧
      pages.flatten = after key rows cursor ∧ ∀ items ∈ pages, items.length ≤ size := by
  generalize left : (after key rows cursor).length = length
  induction length using Nat.strong_induction_on generalizing cursor with
  | _ length ih =>
      cases next : (page cursor).next with
      | none =>
          refine ⟨1, [(page cursor).items], by simp only [follow, next], ?_, ?_⟩
          · simpa using (isPage cursor).ends next
          · simpa using (isPage cursor).bounded
      | some next' =>
          obtain ⟨last, isLast, rfl⟩ := (isPage cursor).resumes next' next
          obtain ⟨rest, split⟩ := (isPage cursor).starts
          have below := after_last sorted split.symm isLast
          have nonempty : 0 < (page cursor).items.length :=
            List.length_pos_of_mem (List.mem_of_getLast? isLast)
          have shorter : (after key rows (some (key last))).length < length := by
            rw [below, ← left, ← split, List.length_append]
            omega
          obtain ⟨rounds, pages, followed, listed, bounded⟩ := ih _ shorter _ rfl
          refine ⟨rounds + 1, (page cursor).items :: pages, ?_, ?_, ?_⟩
          · simp only [follow, next, followed, Option.map_some]
          · rw [List.flatten_cons, listed, below, split]
          · exact List.forall_mem_cons.mpr ⟨(isPage cursor).bounded, bounded⟩

end Keyset
