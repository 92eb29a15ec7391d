import Mathlib.Data.List.Count
import Mathlib.Data.List.Induction
import Mathlib.Data.List.Nodup

/-!
# Items that come first

Out of a list of items, those that are not known already are taken over, each of them once, in the
order in which they first occur.  When items are put into an index under their keys, a key that is
taken stays with the item that took it: the index finds every item exactly when no two items have
one key, and then it does not depend on the order of the items.
-/

namespace FirstOccurrences

variable {κ : Type*} [DecidableEq κ] {known other items : List κ} {item : κ}

/-- The items that are not known, each at its first occurrence. -/
def fresh (known : List κ) : List κ → List κ
  | [] => []
  | item :: items =>
      if item ∈ known then fresh known items else item :: fresh (known ++ [item]) items

theorem mem_fresh : item ∈ fresh known items ↔ item ∈ items ∧ item ∉ known := by
  induction items generalizing known with
  | nil => simp [fresh]
  | cons first items ih =>
      rw [fresh]
      split
      case isTrue seen =>
        rw [ih, List.mem_cons]
        refine ⟨fun ⟨member, unknown⟩ => ⟨.inr member, unknown⟩, ?_⟩
        rintro ⟨rfl | member, unknown⟩
        · exact absurd seen unknown
        · exact ⟨member, unknown⟩
      case isFalse unseen =>
        rw [List.mem_cons, ih, List.mem_cons, List.mem_append, List.mem_singleton]
        by_cases same : item = first
        · subst same
          simp [unseen]
        · simp [same]

theorem nodup_fresh : (fresh known items).Nodup := by
  induction items generalizing known with
  | nil => exact List.nodup_nil
  | cons first items ih =>
      rw [fresh]
      split
      case isTrue => exact ih
      case isFalse =>
        refine List.nodup_cons.mpr ⟨fun member => ?_, ih⟩
        exact (mem_fresh.mp member).2 (List.mem_append_right known (List.mem_singleton_self first))

/-- Each unknown item is taken over once. -/
theorem count_fresh [BEq κ] [LawfulBEq κ] (member : item ∈ items) :
    (fresh known items).count item = if item ∈ known then 0 else 1 := by
  split
  case isTrue seen => exact List.count_eq_zero.mpr fun taken => (mem_fresh.mp taken).2 seen
  case isFalse unseen => exact List.count_eq_one_of_mem nodup_fresh (mem_fresh.mpr ⟨member, unseen⟩)

end FirstOccurrences

namespace FirstCome

variable {ι κ : Type*} [DecidableEq κ] (key : ι → κ) {items other : List ι} {item : ι} {name : κ}

/-- Put an item under its key, unless the key is taken. -/
def register (index : κ → Option ι) (item : ι) : κ → Option ι :=
  if index (key item) = none then Function.update index (key item) (some item) else index

/-- The index of a list of items. -/
def index (items : List ι) : κ → Option ι := items.foldl (register key) fun _ => none

theorem register_apply (index : κ → Option ι) :
    register key index item name = (index name).or
      (if key item = name then some item else none) := by
  unfold register
  by_cases same : key item = name
  · subst same
    cases taken : index (key item) <;> simp [taken]
  · split
    · simp [Function.update_of_ne (Ne.symm same)]
    · simp

theorem index_eq_find? : index key items name = items.find? fun item => key item = name := by
  induction items using List.reverseRecOn with
  | nil => rfl
  | append_singleton items item ih =>
      have last : index key (items ++ [item]) = register key (index key items) item := by
        simp [index]
      rw [last, register_apply, ih, List.find?_append]
      congr 1
      by_cases same : key item = name <;> simp [same]

theorem of_index_eq_some (found : index key items name = some item) :
    item ∈ items ∧ key item = name := by
  rw [index_eq_find?] at found
  exact ⟨List.mem_of_find?_eq_some found, by simpa using List.find?_some found⟩

/-- With different keys, the index finds exactly the items. -/
theorem index_eq_some_iff (different : items.Pairwise fun left right => key left ≠ key right) :
    index key items name = some item ↔ item ∈ items ∧ key item = name := by
  refine ⟨of_index_eq_some key, ?_⟩
  rintro ⟨member, rfl⟩
  rw [index_eq_find?]
  induction items with
  | nil => cases member
  | cons first items ih =>
      obtain ⟨apart, different⟩ := List.pairwise_cons.mp different
      obtain rfl | later := List.mem_cons.mp member
      · simp
      · rw [List.find?_cons_of_neg (by simpa using apart item later)]
        exact ih different later

/-- With different keys, the index does not depend on the order. -/
theorem index_eq_of_perm (different : items.Pairwise fun left right => key left ≠ key right)
    (perm : other.Perm items) : index key other = index key items := by
  have otherDifferent := (perm.pairwise_iff fun apart => Ne.symm apart).mpr different
  funext name
  refine Option.ext fun item => ?_
  rw [index_eq_some_iff key otherDifferent, index_eq_some_iff key different, perm.mem_iff]

/-- The index finds every item exactly when no two items have one key. -/
theorem forall_index_iff (nodup : items.Nodup) :
    (∀ item ∈ items, ∃ name, index key items name = some item) ↔
      items.Pairwise fun left right => key left ≠ key right := by
  constructor
  · intro found
    have own : ∀ item ∈ items, index key items (key item) = some item := by
      intro item member
      obtain ⟨name, there⟩ := found item member
      exact (of_index_eq_some key there).2 ▸ there
    refine nodup.pairwise_of_forall_ne fun left leftMember right rightMember apart same => ?_
    have here := own left leftMember
    rw [same, own right rightMember] at here
    exact apart (Option.some.inj here).symm
  · intro different item member
    exact ⟨key item, (index_eq_some_iff key different).mpr ⟨member, rfl⟩⟩

end FirstCome
