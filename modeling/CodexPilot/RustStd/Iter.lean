import CodexPilot.RustStd.Text
import Mathlib.Data.Char
import Mathlib.Data.List.Lex
import Mathlib.Data.List.MinMax
import Mathlib.Data.List.Sort

/-!
# Iterator and slice operations

`max_by_key` returns the last of several greatest elements, `min_by_key` the first of several least
ones, and `sort_by_key` is stable.
-/

namespace RustStd

variable {ι κ : Type*} [LinearOrder κ]

/-- `Iterator::max_by_key`. -/
def maxByKey (key : ι → κ) (items : List ι) : Option ι := items.reverse.argmax key

/-- `Iterator::min_by_key`. -/
def minByKey (key : ι → κ) (items : List ι) : Option ι := items.argmin key

/-- `slice::sort_by_key`. -/
def sortByKey (key : ι → κ) (items : List ι) : List ι :=
  items.insertionSort fun left right => key left ≤ key right

theorem trans_text : IsTrans Text (· ≤ ·) := inferInstance

theorem antisymm_text : Std.Antisymm (fun left right : Text => left ≤ right) := inferInstance

theorem total_text : Std.Total (fun left right : Text => left ≤ right) := inferInstance

theorem maxByKey_eq_none_iff {key : ι → κ} {items : List ι} :
    maxByKey key items = none ↔ items = [] := by
  simp [maxByKey]

theorem maxByKey_spec {key : ι → κ} {items : List ι} {item : ι}
    (greatest : maxByKey key items = some item) :
    item ∈ items ∧ ∀ other ∈ items, key other ≤ key item := by
  constructor
  · simpa using List.argmax_mem greatest
  · intro other member
    exact List.le_of_mem_argmax (List.mem_reverse.mpr member) greatest

theorem minByKey_eq_none_iff {key : ι → κ} {items : List ι} :
    minByKey key items = none ↔ items = [] :=
  List.argmin_eq_none

theorem minByKey_spec {key : ι → κ} {items : List ι} {item : ι}
    (least : minByKey key items = some item) :
    item ∈ items ∧ ∀ other ∈ items, key item ≤ key other :=
  ⟨List.argmin_mem least, fun _ member => List.le_of_mem_argmin member least⟩

theorem perm_sortByKey (key : ι → κ) (items : List ι) : (sortByKey key items).Perm items :=
  List.perm_insertionSort _ items

theorem pairwise_sortByKey (key : ι → κ) (items : List ι) :
    (sortByKey key items).Pairwise fun left right => key left ≤ key right :=
  List.pairwise_insertionSort _ items

@[simp]
theorem mem_sortByKey {key : ι → κ} {items : List ι} {item : ι} :
    item ∈ sortByKey key items ↔ item ∈ items :=
  List.mem_insertionSort _

theorem pairwise_orderedInsert_iff {key : ι → κ} {R : ι → ι → Prop} {a : ι} {items : List ι}
    (sorted : items.Pairwise fun left right => key left ≤ key right) :
    (items.orderedInsert (fun left right => key left ≤ key right) a).Pairwise R ↔
      (∀ b ∈ items, (key a ≤ key b → R a b) ∧ (key b < key a → R b a)) ∧ items.Pairwise R := by
  induction items with
  | nil => simp
  | cons b items ih =>
      obtain ⟨least, later⟩ := List.pairwise_cons.mp sorted
      rw [List.orderedInsert_cons]
      split
      case isTrue first =>
        have above : ∀ c ∈ b :: items, key a ≤ key c :=
          List.forall_mem_cons.mpr ⟨first, fun c member => first.trans (least c member)⟩
        rw [List.pairwise_cons]
        refine and_congr_left fun _ => forall₂_congr fun c member => ?_
        exact ⟨fun related => ⟨fun _ => related, fun below => absurd below (above c member).not_gt⟩,
          fun related => related.1 (above c member)⟩
      case isFalse first =>
        have below := lt_of_not_ge first
        rw [List.pairwise_cons, ih later, List.pairwise_cons, List.forall_mem_cons]
        simp only [List.mem_orderedInsert, forall_eq_or_imp, first, below, false_implies, true_and,
          true_implies]
        exact ⟨fun ⟨⟨one, others⟩, all, apart⟩ => ⟨⟨one, all⟩, others, apart⟩,
          fun ⟨⟨one, all⟩, others, apart⟩ => ⟨⟨one, others⟩, all, apart⟩⟩

/-- A relation holds between the sorted items when it holds between the items, in the order in which
sorting puts them. -/
theorem pairwise_sortByKey_iff {key : ι → κ} {R : ι → ι → Prop} {items : List ι} :
    (sortByKey key items).Pairwise R ↔
      items.Pairwise fun a b => (key a ≤ key b → R a b) ∧ (key b < key a → R b a) := by
  induction items with
  | nil => simp [sortByKey]
  | cons a items ih =>
      have inserted : sortByKey key (a :: items) =
          (sortByKey key items).orderedInsert (fun left right => key left ≤ key right) a := rfl
      rw [inserted, pairwise_orderedInsert_iff (pairwise_sortByKey key items), ih,
        List.pairwise_cons]
      simp only [mem_sortByKey]

/-- Two loops over the enumerated items keep a relation that every round of both keeps. -/
theorem foldl_enumerate_rel {α σ τ : Type*} (related : ℕ → σ → τ → Prop)
    {left : σ → α × ℕ → σ} {right : τ → α × ℕ → τ} {items : List α} {start : ℕ}
    (round : ∀ item idx, (item, idx) ∈ items.zipIdx start → ∀ s t, related idx s t →
      related (idx + 1) (left s (item, idx)) (right t (item, idx)))
    {s : σ} {t : τ} (initial : related start s t) :
    related (start + items.length) ((items.zipIdx start).foldl left s)
      ((items.zipIdx start).foldl right t) := by
  induction items generalizing start s t with
  | nil => exact initial
  | cons item items ih =>
      rw [List.zipIdx_cons, List.foldl_cons, List.foldl_cons, List.length_cons, Nat.add_comm _ 1,
        ← Nat.add_assoc]
      refine ih (fun item idx member => ?_) (round item start ?_ s t initial)
      · exact round item idx (List.mem_cons_of_mem _ member)
      · exact List.mem_cons_self

end RustStd
