import Mathlib.Order.MinMax

/-!
# Overlapping intervals

Intervals over a linear order touch when each begins before the other one ends.  Absorbing every
interval that an interval touches, one after the other, gives the interval from the first place to
the last place of what it touched, when nothing else touches that.
-/

namespace Overlaps

variable {β : Type*} [LinearOrder β]

/-- An interval, without its last place. -/
structure Interval (β : Type*) where
  start : β
  stop : β
  deriving DecidableEq

namespace Interval

/-- Each interval begins before the other one ends. -/
def Touches (interval range : Interval β) : Prop :=
  interval.start < range.stop ∧ range.start < interval.stop

instance (interval range : Interval β) : Decidable (interval.Touches range) :=
  inferInstanceAs (Decidable (_ ∧ _))

/-- The interval lies in the other one. -/
def Within (interval range : Interval β) : Prop :=
  range.start ≤ interval.start ∧ interval.stop ≤ range.stop

/-- The smallest interval around two. -/
def join (range interval : Interval β) : Interval β where
  start := min range.start interval.start
  stop := max range.stop interval.stop

/-- The interval, with the other one when that touches it. -/
def absorb (range interval : Interval β) : Interval β :=
  if interval.Touches range then range.join interval else range

/-- The interval with everything that it touches. -/
def widened (intervals : List (Interval β)) (range : Interval β) : Interval β :=
  (intervals.filter fun interval => interval.Touches range).foldr
    (fun interval range => range.join interval) range

end Interval

open Overlaps.Interval

variable {intervals : List (Interval β)} {interval inner range wider target : Interval β}

theorem Interval.Within.refl (range : Interval β) : range.Within range := ⟨le_rfl, le_rfl⟩

theorem Interval.Within.trans (first : inner.Within range) (second : range.Within wider) :
    inner.Within wider :=
  ⟨second.1.trans first.1, first.2.trans second.2⟩

theorem Interval.Touches.mono (touches : interval.Touches range) (within : range.Within wider) :
    interval.Touches wider :=
  ⟨touches.1.trans_le within.2, within.1.trans_lt touches.2⟩

theorem within_join_left (range interval : Interval β) : range.Within (range.join interval) :=
  ⟨min_le_left _ _, le_max_left _ _⟩

theorem within_join_right (range interval : Interval β) : interval.Within (range.join interval) :=
  ⟨min_le_right _ _, le_max_right _ _⟩

theorem join_within (left : range.Within wider) (right : interval.Within wider) :
    (range.join interval).Within wider :=
  ⟨le_min left.1 right.1, max_le left.2 right.2⟩

theorem within_absorb (range interval : Interval β) : range.Within (range.absorb interval) := by
  rw [absorb]
  split
  · exact within_join_left range interval
  · exact .refl range

theorem eq_of_within (there : range.Within wider) (back : wider.Within range) : range = wider := by
  cases range
  cases wider
  cases le_antisymm back.1 there.1
  cases le_antisymm there.2 back.2
  rfl

/-- The target holds whatever touches it. -/
def Closed (intervals : List (Interval β)) (target : Interval β) : Prop :=
  ∀ interval ∈ intervals, interval.Touches target → interval.Within target

/-- What an interval is widened to: around it, closed, and reaching no further than what the
interval touches. -/
structure IsWidened (intervals : List (Interval β)) (range target : Interval β) : Prop where
  around : range.Within target
  closed : Closed intervals target
  start : target.start = range.start ∨
    ∃ interval ∈ intervals, interval.Touches range ∧ interval.start = target.start
  stop : target.stop = range.stop ∨
    ∃ interval ∈ intervals, interval.Touches range ∧ interval.stop = target.stop

/-- What lies in the widened interval and holds what the interval touches is the widened
interval. -/
theorem eq_of_isWidened (isWidened : IsWidened intervals range target)
    (around : range.Within wider) (within : wider.Within target)
    (holds : ∀ interval ∈ intervals, interval.Touches range → interval.Within wider) :
    wider = target := by
  refine eq_of_within within ⟨?_, ?_⟩
  · obtain same | ⟨interval, member, touches, same⟩ := isWidened.start
    · exact around.1.trans_eq same.symm
    · exact (holds interval member touches).1.trans_eq same
  · obtain same | ⟨interval, member, touches, same⟩ := isWidened.stop
    · exact same.trans_le around.2
    · exact same.symm.trans_le (holds interval member touches).2

theorem within_foldl_absorb (intervals : List (Interval β)) (range : Interval β) :
    range.Within (intervals.foldl absorb range) := by
  induction intervals generalizing range with
  | nil => exact .refl range
  | cons interval intervals ih =>
      exact (within_absorb range interval).trans (ih _)

/-- A loop over the intervals stays within what is closed. -/
theorem foldl_absorb_within (closed : Closed intervals target) (within : range.Within target) :
    (intervals.foldl absorb range).Within target := by
  induction intervals generalizing range with
  | nil => exact within
  | cons interval intervals ih =>
      obtain ⟨own, later⟩ := List.forall_mem_cons.mp closed
      refine ih later ?_
      rw [absorb]
      split
      case isTrue touches => exact join_within within (own (touches.mono within))
      case isFalse => exact within

/-- A loop over the intervals takes in what the interval touched from the start. -/
theorem within_foldl_absorb_of_touches (member : interval ∈ intervals)
    (touches : interval.Touches range) : interval.Within (intervals.foldl absorb range) := by
  induction intervals generalizing range with
  | nil => cases member
  | cons first intervals ih =>
      obtain rfl | later := List.mem_cons.mp member
      · have absorbed : interval.Within (range.absorb interval) := by
          rw [absorb, if_pos touches]
          exact within_join_right range interval
        exact absorbed.trans (within_foldl_absorb intervals _)
      · exact ih later (touches.mono (within_absorb range first))

/-- One loop over the intervals widens the interval. -/
theorem foldl_absorb_eq (isWidened : IsWidened intervals range target) :
    intervals.foldl absorb range = target :=
  eq_of_isWidened isWidened (within_foldl_absorb intervals range)
    (foldl_absorb_within isWidened.closed isWidened.around)
    fun _ member touches => within_foldl_absorb_of_touches member touches

theorem widened_eq (isWidened : IsWidened intervals range target) :
    widened intervals range = target := by
  have whole : ∀ touched : List (Interval β),
      (∀ interval ∈ touched, interval ∈ intervals ∧ interval.Touches range) →
        range.Within (touched.foldr (fun interval range => range.join interval) range) ∧
        (touched.foldr (fun interval range => range.join interval) range).Within target ∧
        ∀ interval ∈ touched, interval.Within
          (touched.foldr (fun interval range => range.join interval) range) := by
    intro touched chosen
    induction touched with
    | nil => exact ⟨.refl range, isWidened.around, List.forall_mem_nil _⟩
    | cons interval touched ih =>
        obtain ⟨⟨member, touches⟩, rest⟩ := List.forall_mem_cons.mp chosen
        obtain ⟨around, within, holds⟩ := ih rest
        refine ⟨around.trans (within_join_left _ _), join_within within ?_,
          List.forall_mem_cons.mpr ⟨within_join_right _ _, fun other later => ?_⟩⟩
        · exact isWidened.closed interval member (touches.mono isWidened.around)
        · exact (holds other later).trans (within_join_left _ _)
  obtain ⟨around, within, holds⟩ := whole
    (intervals.filter fun interval => interval.Touches range) (by simp)
  exact eq_of_isWidened isWidened around within
    fun interval member touches => holds interval (by simp [member, touches])

end Overlaps
