import Mathlib.Data.List.AList
import Mathlib.Data.Multiset.AddSub

/-!
# Tables with a primary key

A table is an association list with different keys.  Statements change the row of one key, and a
count over the table is the count without that row and the row itself.
-/

namespace Tables

variable {κ ρ : Type*}

/-- A table: at most one row under each key. -/
abbrev Table (κ ρ : Type*) := AList fun _ : κ => ρ

variable {table : Table κ ρ} {key : κ} {row : ρ}

/-- The number of rows that meet a condition. -/
def count (table : Table κ ρ) (condition : κ → ρ → Bool) : ℕ :=
  table.entries.countP fun entry => condition entry.1 entry.2

/-- The rows, without their order. -/
def rows (table : Table κ ρ) : Multiset ρ := ↑(table.entries.map Sigma.snd)

theorem count_mono {condition weaker : κ → ρ → Bool}
    (implies : ∀ key row, condition key row = true → weaker key row = true) :
    count table condition ≤ count table weaker :=
  List.countP_mono_left fun entry _ => implies entry.1 entry.2

/-- Change every row. -/
def mapRows (table : Table κ ρ) (change : ρ → ρ) : Table κ ρ where
  entries := table.entries.map fun entry => ⟨entry.1, change entry.2⟩
  nodupKeys := by
    have sameKeys : (table.entries.map fun entry => (⟨entry.1, change entry.2⟩ : Σ _ : κ, ρ)).keys =
        table.entries.keys := by
      simp [List.keys]
    exact (congrArg List.Nodup sameKeys).mpr table.keys_nodup

section Keys

variable [DecidableEq κ]

/-- Change the row of a key where it meets a condition; `none` when no row is affected. -/
def updateWhere (table : Table κ ρ) (key : κ) (condition : ρ → Bool) (change : ρ → ρ) :
    Option (Table κ ρ) :=
  ((table.lookup key).filter condition).map fun row => table.insert key (change row)

theorem updateWhere_eq_some_iff {condition : ρ → Bool} {change : ρ → ρ} {after : Table κ ρ} :
    updateWhere table key condition change = some after ↔
      ∃ row, table.lookup key = some row ∧ condition row = true ∧
        after = table.insert key (change row) := by
  simp only [updateWhere, Option.map_eq_some_iff, Option.filter_eq_some_iff]
  constructor
  · rintro ⟨row, ⟨found, met⟩, rfl⟩
    exact ⟨row, found, met, rfl⟩
  · rintro ⟨row, found, met, rfl⟩
    exact ⟨row, ⟨found, met⟩, rfl⟩

theorem updateWhere_eq_none_iff {condition : ρ → Bool} {change : ρ → ρ} :
    updateWhere table key condition change = none ↔
      ∀ row, table.lookup key = some row → condition row = false := by
  simp only [updateWhere, Option.map_eq_none_iff, Option.filter_eq_none_iff, Bool.not_eq_true]

theorem lookup_mapRows (change : ρ → ρ) :
    (mapRows table change).lookup key = (table.lookup key).map change := by
  obtain ⟨rows, nodup⟩ := table
  change List.dlookup key (rows.map fun entry => (⟨entry.1, change entry.2⟩ : Σ _ : κ, ρ)) =
    (List.dlookup key rows).map change
  clear nodup
  induction rows with
  | nil => rfl
  | cons entry rows ih =>
      obtain ⟨first, row⟩ := entry
      obtain rfl | apart := eq_or_ne key first
      · simp
      · have apart' : key ≠ (⟨first, change row⟩ : Σ _ : κ, ρ).1 := apart
        rw [List.map_cons, List.dlookup_cons_ne _ _ apart', ih]
        exact congrArg _ (List.dlookup_cons_ne rows ⟨first, row⟩ apart).symm

theorem countP_kerase {condition : (Σ _ : κ, ρ) → Bool} {rows : List (Σ _ : κ, ρ)}
    (nodup : rows.NodupKeys) :
    (rows.kerase key).countP condition =
      rows.countP fun entry => condition entry && decide (entry.1 ≠ key) := by
  induction rows with
  | nil => rfl
  | cons entry rows ih =>
      obtain ⟨absent, nodup⟩ := List.nodupKeys_cons.mp nodup
      obtain rfl | apart := eq_or_ne key entry.1
      · have unchanged : ∀ other ∈ rows, other.1 ≠ entry.1 := by
          rintro other member same
          exact absent (same ▸ List.mem_keys_of_mem member)
        rw [List.kerase_cons_eq rfl, List.countP_cons_of_neg (by simp)]
        refine List.countP_congr fun other member => ?_
        simp [unchanged other member]
      · rw [List.kerase_cons_ne apart, List.countP_cons, List.countP_cons, ih nodup]
        simp [apart.symm]

/-- Counting after the row of a key is written. -/
theorem count_insert (condition : κ → ρ → Bool) :
    count (table.insert key row) condition =
      count table (fun other row => condition other row && decide (other ≠ key)) +
        if condition key row then 1 else 0 := by
  unfold count
  rw [AList.entries_insert, List.countP_cons, countP_kerase table.nodupKeys]

/-- Counting without the row of a key. -/
theorem count_erase (condition : κ → ρ → Bool) :
    count (table.erase key) condition =
      count table fun other row => condition other row && decide (other ≠ key) :=
  countP_kerase table.nodupKeys

/-- The row of a key does not matter where it does not count. -/
theorem count_others_of_uncounted (condition : κ → ρ → Bool)
    (uncounted : ∀ row, table.lookup key = some row → condition key row = false) :
    count table (fun other row => condition other row && decide (other ≠ key)) =
      count table condition := by
  refine List.countP_congr fun entry member => ?_
  obtain same | apart := eq_or_ne entry.1 key
  · have found : table.lookup key = some entry.2 := same ▸ AList.mem_lookup_iff.mpr member
    rw [same]
    simp [uncounted entry.2 found]
  · simp [apart]

/-- The entries before and after that of a key are what remains without it. -/
theorem exists_entries_eq_append (found : table.lookup key = some row) :
    ∃ before after, table.entries = before ++ ⟨key, row⟩ :: after ∧
      (table.erase key).entries = before ++ after := by
  have member := AList.mem_lookup_iff.mp found
  obtain ⟨other, before, after, _, entries, erased⟩ :=
    List.exists_of_kerase (List.mem_keys_of_mem member)
  have stored : ⟨key, other⟩ ∈ table.entries := by simp [entries]
  cases (AList.mem_lookup_iff.mpr stored).symm.trans found
  exact ⟨before, after, entries, erased⟩

/-- The row of a key and the other rows. -/
theorem count_eq_others_add (condition : κ → ρ → Bool) (found : table.lookup key = some row) :
    count table condition =
      count table (fun other row => condition other row && decide (other ≠ key)) +
        if condition key row then 1 else 0 := by
  obtain ⟨before, after, entries, without⟩ := exists_entries_eq_append found
  rw [← count_erase, count, count, without, entries, List.countP_append, List.countP_append,
    List.countP_cons]
  dsimp only
  omega

theorem rows_insert_of_absent (absent : table.lookup key = none) :
    rows (table.insert key row) = row ::ₘ rows table := by
  rw [rows, AList.entries_insert_of_notMem (AList.lookup_eq_none.mp absent)]
  rfl

theorem rows_eq_cons_erase (found : table.lookup key = some row) :
    rows table = row ::ₘ rows (table.erase key) := by
  obtain ⟨before, after, entries, without⟩ := exists_entries_eq_append found
  have moved : table.entries.Perm (⟨key, row⟩ :: (table.erase key).entries) := by
    rw [entries, without]
    exact List.perm_middle
  exact Multiset.coe_eq_coe.mpr (moved.map Sigma.snd)

/-- Writing a row that does not count cannot raise the count. -/
theorem count_insert_le {condition : κ → ρ → Bool} (uncounted : condition key row = false) :
    count (table.insert key row) condition ≤ count table condition := by
  rw [count_insert, uncounted, if_neg Bool.false_ne_true, Nat.add_zero]
  exact count_mono fun other row counted => (Bool.and_eq_true_iff.mp counted).1

end Keys

end Tables
