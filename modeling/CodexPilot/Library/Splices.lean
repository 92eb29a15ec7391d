import Mathlib.Data.List.Basic
import Mathlib.Order.Defs.PartialOrder

/-!
# Edits that are made at once

An edit puts new items in the place of some items of a list.  Edits that stay clear of each other
can be made one after the other, the last one first, and give what cutting the list at all of them
at once gives.
-/

namespace Splices

/-- New items for `len` items from `start` on. -/
structure Edit (α : Type*) where
  start : ℕ
  len : ℕ
  new : List α

variable {α : Type*}

namespace Edit

/-- The place behind the items that an edit takes. -/
def stop (edit : Edit α) : ℕ := edit.start + edit.len

/-- Make an edit. -/
def apply (edit : Edit α) (items : List α) : List α :=
  items.take edit.start ++ edit.new ++ items.drop edit.stop

theorem apply_append {edit : Edit α} {kept old rest : List α} (start : kept.length = edit.start)
    (len : old.length = edit.len) :
    edit.apply (kept ++ old ++ rest) = kept ++ edit.new ++ rest := by
  have stop : (kept ++ old).length = edit.stop := by rw [List.length_append, start, len, stop]
  rw [apply, ← stop, List.drop_left, List.append_assoc kept old, ← start, List.take_left]

end Edit

/-- Make the edits, the last one first. -/
def applyAll (edits : List (Edit α)) (items : List α) : List α := edits.foldr Edit.apply items

/-- Behind so many items, the list is cut at all edits at once: what no edit takes is kept, and the
new items of an edit stand in the place of the old ones. -/
inductive IsSplice : ℕ → List α → List (Edit α) → List α → Prop
  | nil (position : ℕ) (items : List α) : IsSplice position items [] items
  | cons {position : ℕ} {edit : Edit α} {edits : List (Edit α)} {kept old rest result : List α}
      (start : position + kept.length = edit.start) (len : old.length = edit.len)
      (later : IsSplice edit.stop rest edits result) :
      IsSplice position (kept ++ old ++ rest) (edit :: edits) (kept ++ edit.new ++ result)

/-- The edits are in order, take items of the list only, and no two take one item or put new ones
between the items that the other one takes. -/
structure Clear (length : ℕ) (edits : List (Edit α)) : Prop where
  inBounds : ∀ edit ∈ edits, edit.stop ≤ length
  apart : edits.Pairwise fun earlier later => earlier.stop ≤ later.start

variable {position : ℕ} {items result : List α} {edits : List (Edit α)}

/-- Edits at which a list can be cut at once are clear. -/
theorem IsSplice.clear (splice : IsSplice position items edits result) :
    (∀ edit ∈ edits, position ≤ edit.start) ∧ Clear (position + items.length) edits := by
  induction splice with
  | nil => exact ⟨by simp, by simp, .nil⟩
  | @cons position edit edits kept old rest result start len later ih =>
      obtain ⟨behind, inBounds, apart⟩ := ih
      have whole : position + (kept ++ old ++ rest).length = edit.stop + rest.length := by
        rw [List.length_append, List.length_append, Edit.stop]
        omega
      rw [whole]
      refine ⟨?_, ?_, List.pairwise_cons.mpr ⟨behind, apart⟩⟩
      · refine List.forall_mem_cons.mpr ⟨by omega, fun other member => ?_⟩
        have later := behind other member
        rw [Edit.stop] at later
        omega
      · exact List.forall_mem_cons.mpr ⟨Nat.le_add_right _ _, inBounds⟩

/-- Edits leave the items in front of them. -/
theorem le_length_applyAll (inside : position ≤ items.length)
    (behind : ∀ edit ∈ edits, position ≤ edit.start) :
    position ≤ (applyAll edits items).length := by
  induction edits with
  | nil => exact inside
  | cons edit edits ih =>
      obtain ⟨first, later⟩ := List.forall_mem_cons.mp behind
      have rest := ih later
      rw [applyAll, List.foldr_cons, Edit.apply, List.length_append, List.length_append,
        List.length_take]
      rw [applyAll] at rest
      omega

/-- The items that an edit behind some others takes, and those on both sides of them. -/
theorem exists_cut {edit : Edit α} (behind : position ≤ edit.start)
    (inBounds : edit.stop ≤ position + items.length) :
    ∃ kept old rest, items = kept ++ old ++ rest ∧ position + kept.length = edit.start ∧
      old.length = edit.len := by
  rw [Edit.stop] at inBounds
  refine ⟨items.take (edit.start - position), (items.drop (edit.start - position)).take edit.len,
    (items.drop (edit.start - position)).drop edit.len, ?_, ?_, ?_⟩
  · rw [List.append_assoc, List.take_append_drop, List.take_append_drop]
  · rw [List.length_take]
    omega
  · rw [List.length_take, List.length_drop]
    omega

/-- Clear edits behind some items are made at once. -/
theorem isSplice_applyAll {front : List α} (behind : ∀ edit ∈ edits, front.length ≤ edit.start)
    (clear : Clear (front.length + items.length) edits) :
    ∃ result, applyAll edits (front ++ items) = front ++ result ∧
      IsSplice front.length items edits result := by
  induction edits generalizing front items with
  | nil => exact ⟨items, rfl, .nil _ _⟩
  | cons edit edits ih =>
      obtain ⟨first, later⟩ := List.pairwise_cons.mp clear.apart
      have starts := behind edit List.mem_cons_self
      have stops := clear.inBounds edit List.mem_cons_self
      obtain ⟨kept, old, rest, rfl, start, len⟩ := exists_cut starts stops
      have front_length : (front ++ kept ++ old).length = edit.stop := by
        rw [List.length_append, List.length_append, start, len, Edit.stop]
      have whole : front ++ (kept ++ old ++ rest) = front ++ kept ++ old ++ rest := by
        simp only [List.append_assoc]
      have inside : Clear ((front ++ kept ++ old).length + rest.length) edits := by
        refine ⟨fun other member => ?_, later⟩
        have stops := clear.inBounds other (List.mem_cons_of_mem edit member)
        rwa [← List.length_append, whole, List.length_append] at stops
      obtain ⟨result, applied, splice⟩ := ih (front_length ▸ first) inside
      rw [front_length] at splice
      refine ⟨kept ++ edit.new ++ result, ?_, .cons start len splice⟩
      rw [applyAll, List.foldr_cons, whole]
      have keptLength : (front ++ kept).length = edit.start := by rw [List.length_append, start]
      refine (congrArg edit.apply applied).trans ?_
      rw [Edit.apply_append keptLength len]
      simp only [List.append_assoc]

/-- Making the edits one after the other is making them at once exactly when they are clear. -/
theorem isSplice_applyAll_iff :
    IsSplice 0 items edits (applyAll edits items) ↔ Clear items.length edits := by
  constructor
  · intro splice
    have clear := splice.clear.2
    rwa [Nat.zero_add] at clear
  · intro clear
    have inside : Clear (([] : List α).length + items.length) edits := by
      rwa [List.length_nil, Nat.zero_add]
    obtain ⟨result, whole, splice⟩ := isSplice_applyAll (fun _ _ => Nat.zero_le _) inside
    rw [List.nil_append, List.nil_append] at whole
    rwa [whole]

end Splices
