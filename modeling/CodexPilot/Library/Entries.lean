import Mathlib.Data.List.Basic

/-!
# Entries in the order of insertion

An association list keeps its entries in the order in which their keys were first set.
-/

namespace Entries

variable {κ ν : Type*} [BEq κ] {key name : κ} {value : ν} {entries : List (κ × ν)}

/-- Set the value of a key: in place, or behind the other entries. -/
def set (key : κ) (value : ν) : List (κ × ν) → List (κ × ν)
  | [] => [(key, value)]
  | entry :: entries =>
      if entry.1 == key then (key, value) :: entries else entry :: set key value entries

/-- Remove the entry of a key. -/
def erase (key : κ) (entries : List (κ × ν)) : List (κ × ν) :=
  entries.filter fun entry => !(entry.1 == key)

variable [LawfulBEq κ]

theorem lookup_cons_self (entry : κ × ν) : (entry :: entries).lookup entry.1 = some entry.2 := by
  rw [List.lookup_cons, beq_self_eq_true]

theorem lookup_cons_of_ne {entry : κ × ν} (apart : name ≠ entry.1) :
    (entry :: entries).lookup name = entries.lookup name := by
  rw [List.lookup_cons, beq_eq_false_iff_ne.mpr apart]

@[simp]
theorem lookup_set_self : (set key value entries).lookup key = some value := by
  induction entries with
  | nil => exact lookup_cons_self (key, value)
  | cons entry entries ih =>
      rw [set]
      split
      case isTrue => exact lookup_cons_self (key, value)
      case isFalse apart =>
        have differ : key ≠ entry.1 := fun same => apart (by simp [same])
        rw [lookup_cons_of_ne differ, ih]

theorem lookup_set_of_ne (apart : name ≠ key) :
    (set key value entries).lookup name = entries.lookup name := by
  induction entries with
  | nil => exact lookup_cons_of_ne apart
  | cons entry entries ih =>
      rw [set]
      split
      case isTrue same =>
        have same' : entry.1 = key := eq_of_beq same
        rw [lookup_cons_of_ne apart, lookup_cons_of_ne (same' ▸ apart)]
      case isFalse =>
        by_cases own : name = entry.1
        · subst own
          rw [lookup_cons_self, lookup_cons_self]
        · rw [lookup_cons_of_ne own, lookup_cons_of_ne own, ih]

@[simp]
theorem lookup_erase_self : (erase key entries).lookup key = none := by
  rw [List.lookup_eq_none_iff]
  intro entry member
  have kept := (List.mem_filter.mp member).2
  rw [Bool.not_eq_true', beq_eq_false_iff_ne] at kept
  exact bne_iff_ne.mpr kept.symm

theorem lookup_erase_of_ne (apart : name ≠ key) :
    (erase key entries).lookup name = entries.lookup name := by
  induction entries with
  | nil => rfl
  | cons entry entries ih =>
      rw [erase, List.filter_cons]
      by_cases own : name = entry.1
      · subst own
        rw [if_pos (by simp [apart]), lookup_cons_self, lookup_cons_self]
      · rw [lookup_cons_of_ne own, ← ih]
        split
        case isTrue => exact lookup_cons_of_ne own
        case isFalse => rfl

/-- A key that has no entry gets one behind the others. -/
theorem set_of_notMem (fresh : key ∉ entries.map Prod.fst) :
    set key value entries = entries ++ [(key, value)] := by
  induction entries with
  | nil => rfl
  | cons entry entries ih =>
      obtain ⟨apart, rest⟩ := not_or.mp (List.mem_cons.not.mp fresh)
      rw [set, if_neg fun same => apart (eq_of_beq same).symm, ih rest]
      rfl

end Entries
