import CodexPilot.RustStd.Iter
import Mathlib.Data.Prod.Lex

/-!
# Which entry decides a place

Entries have a place in a tree, given by the steps that lead to it from the root, and a value in a
linear order.  A point of the tree is decided by the deepest entry on the way to it and, among
entries of one place, by the greatest value.  Where layers are put on top of each other instead, the
last layer whose place lies on the way to the point decides; one without a place covers nothing.
-/

namespace Specificity

open RustStd

variable {ι α β : Type*} [LinearOrder β] {place : ι → List α} {value : ι → β}

/-- The entry `item` decides `point` among `items`. -/
structure Decides (place : ι → List α) (value : ι → β) (items : List ι) (point : List α)
    (item : ι) : Prop where
  member : item ∈ items
  covers : place item <+: point
  deepest : ∀ other ∈ items, place other <+: point → place other <+: place item
  greatest : ∀ other ∈ items, place other = place item → value other ≤ value item

namespace Decides

variable {items : List ι} {point : List α} {item other : ι}

theorem place_eq (decides : Decides place value items point item)
    (others : Decides place value items point other) : place other = place item := by
  have shorter := decides.deepest other others.member others.covers
  have longer := others.deepest item decides.member decides.covers
  exact shorter.eq_of_length_le longer.length_le

theorem value_eq (decides : Decides place value items point item)
    (others : Decides place value items point other) : value other = value item := by
  have same := decides.place_eq others
  exact le_antisymm (decides.greatest other others.member same)
    (others.greatest item decides.member same.symm)

/-- The deciding entry decides every point between its own place and the point. -/
theorem between (decides : Decides place value items point item) {middle : List α}
    (below : place item <+: middle) (above : middle <+: point) :
    Decides place value items middle item where
  member := decides.member
  covers := below
  deepest := fun other member covers => decides.deepest other member (covers.trans above)
  greatest := decides.greatest

theorem at_place (decides : Decides place value items point item) :
    Decides place value items (place item) item :=
  decides.between List.prefix_rfl decides.covers

/-- An entry that wins among more entries wins among the fewer it belongs to. -/
theorem of_subset {fewer : List ι} (decides : Decides place value items point item)
    (within : fewer ⊆ items) (member : item ∈ fewer) : Decides place value fewer point item where
  member := member
  covers := decides.covers
  deepest := fun other inFewer => decides.deepest other (within inFewer)
  greatest := fun other inFewer => decides.greatest other (within inFewer)

/-- One more entry either leaves the decision as it was or decides itself, and then nothing decided
the point or what decided it decided the new entry's place as well. -/
theorem append_cases {extra : ι} (decides : Decides place value (items ++ [extra]) point item) :
    Decides place value items point item ∨
      item = extra ∧ ∀ former, Decides place value items point former →
        Decides place value items (place extra) former := by
  rcases List.mem_append.mp decides.member with old | new
  · exact Or.inl (decides.of_subset (List.subset_append_left items [extra]) old)
  · cases List.mem_singleton.mp new
    refine Or.inr ⟨rfl, fun former others => ?_⟩
    have inside := List.mem_append_left [item] others.member
    exact others.between (decides.deepest former inside others.covers) decides.covers

end Decides

/-- Taking the greatest pair of depth and value among the covering entries decides the point. -/
theorem decides_of_maxByKey [BEq α] [LawfulBEq α] {key : ι → ℕ ×ₗ β} (offset : ℕ)
    {items : List ι} {point : List α} {item : ι}
    (keyed : ∀ entry, key entry = toLex ((place entry).length + offset, value entry))
    (found : maxByKey key (items.filter fun entry => (place entry).isPrefixOf point) = some item) :
    Decides place value items point item := by
  obtain ⟨member, greatest⟩ := maxByKey_spec found
  simp only [List.mem_filter, List.isPrefixOf_iff_prefix, and_imp, keyed] at member greatest
  refine ⟨member.1, member.2, ?_, ?_⟩
  · intro other inItems covers
    have ordered := Prod.Lex.le_iff.mp (greatest other inItems covers)
    apply List.prefix_of_prefix_length_le covers member.2
    rcases ordered with less | ⟨same, _⟩
    · simp at less
      omega
    · simp at same
      omega
  · intro other inItems same
    have ordered := Prod.Lex.le_iff.mp (greatest other inItems (by rw [same]; exact member.2))
    rcases ordered with less | ⟨_, smaller⟩
    · simp [same] at less
    · exact smaller

/-- Where some entry covers the point, some entry decides it. -/
theorem exists_decides {items : List ι} {point : List α}
    (covered : ∃ item ∈ items, place item <+: point) :
    ∃ item, Decides place value items point item := by
  classical
  let key : ι → ℕ ×ₗ β := fun entry => toLex ((place entry).length + 0, value entry)
  cases found : maxByKey key (items.filter fun entry => (place entry).isPrefixOf point) with
  | some item => exact ⟨item, decides_of_maxByKey 0 (fun _ => rfl) found⟩
  | none =>
      obtain ⟨item, member, covers⟩ := covered
      have empty := maxByKey_eq_none_iff.mp found
      have inside : item ∈ items.filter fun entry => (place entry).isPrefixOf point :=
        List.mem_filter.mpr ⟨member, List.isPrefixOf_iff_prefix.mpr covers⟩
      rw [empty] at inside
      cases inside

end Specificity

namespace Layers

variable {ι κ α : Type*} [BEq α] {place : ι → Option (List α)}

/-- The layer is put at a place on the way to the point. -/
def Covers (place : ι → Option (List α)) (layer : ι) (point : List α) : Prop :=
  ∃ target, place layer = some target ∧ target <+: point

/-- The last covering layer. -/
def top (place : ι → Option (List α)) (layers : List ι) (point : List α) : Option ι :=
  (layers.filter fun layer => (place layer).any (·.isPrefixOf point)).getLast?

variable {layers lower upper : List ι} {point : List α} {layer : ι}

theorem top_append :
    top place (lower ++ upper) point = (top place upper point).or (top place lower point) := by
  simp [top, List.getLast?_append]

variable [LawfulBEq α]

theorem any_isPrefixOf_iff :
    (place layer).any (·.isPrefixOf point) = true ↔ Covers place layer point := by
  cases target : place layer <;> simp [Covers, target]

theorem top_eq_none_iff :
    top place layers point = none ↔ ∀ layer ∈ layers, ¬ Covers place layer point := by
  simp only [top, List.getLast?_eq_none_iff, List.filter_eq_nil_iff, any_isPrefixOf_iff]

theorem of_top_eq_some (found : top place layers point = some layer) :
    layer ∈ layers ∧ Covers place layer point := by
  have member := List.mem_of_getLast? found
  simpa only [List.mem_filter, any_isPrefixOf_iff] using member

theorem exists_top (member : layer ∈ layers) (covers : Covers place layer point) :
    ∃ found, top place layers point = some found := by
  cases found : top place layers point with
  | some other => exact ⟨other, rfl⟩
  | none => exact absurd covers (top_eq_none_iff.mp found layer member)

/-- Covering layers on top hide everything below. -/
theorem top_append_of_covers (member : layer ∈ upper) (covers : Covers place layer point) :
    top place (lower ++ upper) point = top place upper point := by
  obtain ⟨found, same⟩ := exists_top member covers
  rw [top_append, same, Option.some_or]

/-- Among blocks of layers, the last block with a covering layer decides. -/
theorem top_flatMap {block : κ → List ι} {blocks : List κ}
    (found : top place (blocks.flatMap block) point = some layer) :
    ∃ before last after, blocks = before ++ last :: after ∧
      top place (block last) point = some layer ∧
      ∀ other ∈ after, top place (block other) point = none := by
  induction blocks with
  | nil => cases found
  | cons first blocks ih =>
      rw [List.flatMap_cons, top_append] at found
      cases later : top place (blocks.flatMap block) point with
      | some other =>
          rw [later, Option.some_or] at found
          cases found
          obtain ⟨before, last, after, rfl, same, nothing⟩ := ih later
          exact ⟨first :: before, last, after, rfl, same, nothing⟩
      | none =>
          rw [later, Option.none_or] at found
          refine ⟨[], first, blocks, rfl, found, ?_⟩
          intro other member
          rw [top_eq_none_iff]
          intro inner inBlock
          exact top_eq_none_iff.mp later inner (List.mem_flatMap.mpr ⟨other, member, inBlock⟩)

end Layers
