import Mathlib.Data.List.DropRight

/-!
# The ends of a stream

Of a stream that may be long only a first part and a last part are kept.  The last part can be kept
up to date without the items between them: what comes next is put behind it, and it is cut again.
-/

namespace Ends

variable {α : Type*} {items later : List α} {count head tail : ℕ}

theorem length_rtake (items : List α) (count : ℕ) :
    (items.rtake count).length = min items.length count := by
  rw [List.rtake, List.length_drop]
  omega

/-- The last items of a sequence are among the last part when that is long enough. -/
theorem rtake_append_of_le_length (enough : count ≤ later.length) :
    (items ++ later).rtake count = later.rtake count := by
  have place : items.length + later.length - count = items.length + (later.length - count) := by
    omega
  rw [List.rtake, List.rtake, List.length_append, place, List.drop_append]
  simp

/-- Items that were cut off in front do not come back. -/
theorem rtake_rtake_append (items later : List α) (count : ℕ) :
    (items.rtake count ++ later).rtake count = (items ++ later).rtake count := by
  have whole : items.take (items.length - count) ++ (items.rtake count ++ later) =
      items ++ later := by
    rw [← List.append_assoc, List.rtake, List.take_append_drop]
  rw [← whole]
  obtain enough | short := Nat.le_total count items.length
  · refine (rtake_append_of_le_length ?_).symm
    rw [List.length_append, length_rtake]
    omega
  · rw [Nat.sub_eq_zero_of_le short, List.take_zero, List.nil_append]

/-- The first items and the last items behind them. -/
def keep (head tail : ℕ) (items : List α) : List α :=
  items.take head ++ (items.drop head).rtake tail

/-- In terms of how many items are kept at either end. -/
theorem keep_eq (head tail : ℕ) (items : List α) :
    keep head tail items = items.take (min items.length head) ++
      items.drop (items.length - min (items.length - min items.length head) tail) := by
  obtain few | many := Nat.le_total items.length head
  · have none : items.drop head = [] := List.drop_of_length_le few
    rw [keep, none, List.rtake_nil, Nat.min_eq_left few, Nat.sub_self, Nat.zero_min, Nat.sub_zero,
      List.drop_length, List.take_length, List.take_of_length_le few]
  · have place : head + (items.length - head - tail) =
        items.length - min (items.length - head) tail := by omega
    rw [keep, List.rtake, List.length_drop, List.drop_drop, place, Nat.min_eq_right many]

/-- As long as there is room in front, new items go there. -/
theorem take_append_of_le (fits : items.length + later.length ≤ head) :
    (items ++ later).take head = items ++ later :=
  List.take_of_length_le (by rwa [List.length_append])

end Ends
