import CodexPilot.Library.Overlays
import CodexPilot.RustStd.Text
import Mathlib.Data.Char
import Mathlib.Data.Finset.Sort
import Mathlib.Data.List.Lex

/-!
# Merging TOML values

A value is a scalar, an array or a table.  Merging one value over another merges tables entry by
entry, and replaces everything else.  At a path, a value that is merged over another shows what it
has there itself, and hides what it replaces.
-/

namespace CodexPilot.Config

open RustStd

/-- `toml::Value`, over what its scalars are: nothing here looks into one. -/
inductive TomlValue (α : Type*)
  | scalar (value : α)
  | array (length : ℕ) (items : Fin length → TomlValue α)
  | table (keys : Finset Text) (entries : { key // key ∈ keys } → TomlValue α)

/-- `toml::Table`. -/
structure Table (ν : Type*) where
  keys : Finset Text
  entries : { key // key ∈ keys } → ν

namespace Table

variable {ν : Type*} {table : Table ν} {key name : Text} {value : ν}

/-- `Table::new`. -/
def empty : Table ν where
  keys := ∅
  entries key := absurd key.2 (Finset.notMem_empty key.1)

/-- `Table::get`. -/
def get (table : Table ν) (key : Text) : Option ν :=
  if present : key ∈ table.keys then some (table.entries ⟨key, present⟩) else none

/-- `Table::insert`. -/
def insert (table : Table ν) (key : Text) (value : ν) : Table ν where
  keys := Insert.insert key table.keys
  entries other :=
    if same : other.1 = key then value
    else table.entries ⟨other.1, Finset.mem_of_mem_insert_of_ne other.2 same⟩

/-- `Table::keys`: a table is iterated in the order of its keys. -/
def sortedKeys (keys : Finset Text) : List { key // key ∈ keys } :=
  keys.sort.attach.map fun key => ⟨key.1, (Finset.mem_sort _).mp key.2⟩

theorem mem_sortedKeys {keys : Finset Text} (key : { key // key ∈ keys }) : key ∈ sortedKeys keys :=
  List.mem_map.mpr ⟨⟨key.1, (Finset.mem_sort _).mpr key.2⟩, List.mem_attach _ _, rfl⟩

theorem nodup_sortedKeys (keys : Finset Text) : ((sortedKeys keys).map Subtype.val).Nodup := by
  rw [sortedKeys, List.map_map]
  exact (List.attach_map_subtype_val _).symm ▸ keys.sort_nodup _

/-- Change the value of a key in place, or insert one. -/
def upsert (table : Table ν) (key : Text) (change : ν → ν) (value : ν) : Table ν :=
  match table.get key with
  | some existing => table.insert key (change existing)
  | none => table.insert key value

theorem get_insert :
    (table.insert key value).get name = if name = key then some value else table.get name := by
  by_cases same : name = key
  · subst same
    simp [get, insert]
  · simp [get, insert, same]

theorem get_upsert (change : ν → ν) :
    (table.upsert key change value).get name =
      if name = key then some ((table.get key).elim value change) else table.get name := by
  unfold upsert
  cases table.get key with
  | none | some existing => exact get_insert

theorem get_eq_some_iff :
    table.get key = some value ↔ ∃ present, table.entries ⟨key, present⟩ = value := by
  simp [get]

section Fold

variable {κ : Type*} {keys : List κ} {label : κ → Text} {change : κ → ν → ν} {given : κ → ν}

/-- What is not among the keys of a loop is as it was. -/
theorem get_foldl_upsert_of_notMem (absent : ∀ key ∈ keys, label key ≠ name) :
    (keys.foldl (fun table key => table.upsert (label key) (change key) (given key))
      table).get name = table.get name := by
  induction keys generalizing table with
  | nil => rfl
  | cons key keys ih =>
      obtain ⟨own, rest⟩ := List.forall_mem_cons.mp absent
      rw [List.foldl_cons, ih rest, get_upsert, if_neg own.symm]

/-- What is among the keys of a loop is changed once. -/
theorem get_foldl_upsert_of_mem (key : κ) (distinct : (keys.map label).Nodup)
    (member : key ∈ keys) :
    (keys.foldl (fun table key => table.upsert (label key) (change key) (given key)) table).get
        (label key) =
      some ((table.get (label key)).elim (given key) (change key)) := by
  induction keys generalizing table with
  | nil => cases member
  | cons first keys ih =>
      obtain ⟨fresh, rest⟩ := List.nodup_cons.mp distinct
      rw [List.foldl_cons]
      obtain rfl | later := List.mem_cons.mp member
      · have absent : ∀ other ∈ keys, label other ≠ label key :=
          fun other member same => fresh (List.mem_map.mpr ⟨other, member, same⟩)
        rw [get_foldl_upsert_of_notMem absent, get_upsert, if_pos rfl]
      · have apart : label key ≠ label first :=
          fun same => fresh (List.mem_map.mpr ⟨key, later, same⟩)
        rw [ih rest later, get_upsert, if_neg apart]

end Fold

end Table

/-! ## Merging -/

variable {α β : Type*}

namespace TomlValue

/-- `merge_toml_values`: the overlay has precedence. -/
def mergeTomlValues : TomlValue α → TomlValue α → TomlValue α
  | .table baseKeys baseEntries, .table overlayKeys overlayEntries =>
      let merged := (Table.sortedKeys overlayKeys).foldl
        (fun (table : Table (TomlValue α)) key =>
          table.upsert key.1
            (fun existing => mergeTomlValues existing (overlayEntries key)) (overlayEntries key))
        ⟨baseKeys, baseEntries⟩
      .table merged.keys merged.entries
  | _, overlay => overlay
termination_by structural _ overlay => overlay

/-- The value is a table. -/
def IsTable : TomlValue α → Prop
  | .table _ _ => True
  | _ => False

/-- The name of an item of an array on a path. -/
def indexName (index : ℕ) : Text := Nat.toDigits 10 index

/-- The item or the entry of a name. -/
def child : TomlValue α → Text → Option (TomlValue α)
  | .scalar _, _ => none
  | .array length items, name =>
      Option.map items <|
        (List.finRange length).find? fun (index : Fin length) => indexName index.val = name
  | .table keys entries, name => Table.get ⟨keys, entries⟩ name

/-- The scalar at a path. -/
def leaf? : TomlValue α → List Text → Option α
  | .scalar value, [] => some value
  | _, [] => none
  | value, name :: path => (value.child name).bind fun child => child.leaf? path

/-- The overlay replaces what the base has at the path. -/
def Hides (overlay base : TomlValue α) : List Text → Prop
  | [] => True
  | name :: path => overlay.IsTable → base.IsTable →
      ∃ upper under, overlay.child name = some upper ∧ base.child name = some under ∧
        upper.Hides under path

/-- Apply a function to every scalar. -/
def map (f : α → β) : TomlValue α → TomlValue β
  | .scalar value => .scalar (f value)
  | .array length items => .array length fun index => (items index).map f
  | .table keys entries => .table keys fun key => (entries key).map f

section Lemmas

variable {value base overlay upper : TomlValue α} {name : Text} {path : List Text} {found : α}

theorem indexName_injective {left right : ℕ} (same : indexName left = indexName right) :
    left = right := by
  have value := congrArg (fun digits => Nat.ofDigitChars 10 digits 0) same
  simpa [indexName, Nat.ofDigitChars_ten_toDigits] using value

theorem child_array {length : ℕ} {items : Fin length → TomlValue α} (index : Fin length) :
    (TomlValue.array length items).child (indexName index) = some (items index) := by
  have found : ((List.finRange length).find? fun (other : Fin length) =>
      indexName other.val = indexName index.val) = some index := by
    cases search : (List.finRange length).find? fun (other : Fin length) =>
        indexName other.val = indexName index.val with
    | none =>
        have missed := List.find?_eq_none.mp search index (List.mem_finRange index)
        simp at missed
    | some other =>
        have same := List.find?_some search
        exact congrArg some (Fin.ext (indexName_injective (by simpa using same)))
  simp only [child, found, Option.map_some]

theorem child_array_eq_some_iff {length : ℕ} {items : Fin length → TomlValue α} :
    (TomlValue.array length items).child name = some value ↔
      ∃ index : Fin length, indexName index = name ∧ items index = value := by
  constructor
  · intro found
    obtain ⟨index, search, rfl⟩ := Option.map_eq_some_iff.mp found
    exact ⟨index, by simpa using List.find?_some search, rfl⟩
  · rintro ⟨index, rfl, rfl⟩
    exact child_array index

theorem exists_of_isTable (table : value.IsTable) : ∃ keys entries,
    value = .table keys entries := by
  cases value with
  | table keys entries => exact ⟨keys, entries, rfl⟩
  | scalar value | array length items => exact table.elim

theorem leaf_cons : value.leaf? (name :: path) =
    (value.child name).bind fun child => child.leaf? path := by
  cases value <;> rfl

theorem leaf_nil_of_isTable (table : value.IsTable) : value.leaf? [] = none := by
  obtain ⟨keys, entries, rfl⟩ := exists_of_isTable table
  rfl

theorem merge_of_not_tables (different : ¬(base.IsTable ∧ overlay.IsTable)) :
    mergeTomlValues base overlay = overlay := by
  cases base <;> cases overlay <;> first | rfl | exact absurd ⟨trivial, trivial⟩ different

theorem isTable_merge (tables : base.IsTable ∧ overlay.IsTable) :
    (mergeTomlValues base overlay).IsTable := by
  obtain ⟨baseKeys, baseEntries, rfl⟩ := exists_of_isTable tables.1
  obtain ⟨overlayKeys, overlayEntries, rfl⟩ := exists_of_isTable tables.2
  exact trivial

/-- Merging tables is merging their entries. -/
theorem child_merge (name : Text) (tables : base.IsTable ∧ overlay.IsTable) :
    (mergeTomlValues base overlay).child name =
      match overlay.child name with
      | none => base.child name
      | some upper => some ((base.child name).elim upper fun under =>
          mergeTomlValues under upper) := by
  obtain ⟨baseKeys, baseEntries, rfl⟩ := exists_of_isTable tables.1
  obtain ⟨overlayKeys, overlayEntries, rfl⟩ := exists_of_isTable tables.2
  cases found : (TomlValue.table overlayKeys overlayEntries).child name with
  | none =>
      refine Table.get_foldl_upsert_of_notMem fun key _ same => ?_
      have present : name ∈ overlayKeys := same ▸ key.2
      have there : Table.get ⟨overlayKeys, overlayEntries⟩ name =
          some (overlayEntries ⟨name, present⟩) := Table.get_eq_some_iff.mpr ⟨present, rfl⟩
      cases there.symm.trans found
  | some upper =>
      obtain ⟨present, rfl⟩ := Table.get_eq_some_iff.mp found
      exact Table.get_foldl_upsert_of_mem ⟨name, present⟩ (Table.nodup_sortedKeys overlayKeys)
        (Table.mem_sortedKeys _)

/-- The overlay shows its own scalars. -/
theorem leaf_merge_of_own (own : overlay.leaf? path = some found) :
    (mergeTomlValues base overlay).leaf? path = some found := by
  induction path generalizing base overlay with
  | nil =>
      rw [merge_of_not_tables]
      · exact own
      · rintro ⟨-, table⟩
        obtain ⟨keys, entries, rfl⟩ := exists_of_isTable table
        cases own
  | cons name path ih =>
      by_cases tables : base.IsTable ∧ overlay.IsTable
      · rw [leaf_cons] at own ⊢
        obtain ⟨upper, there, own⟩ := Option.bind_eq_some_iff.mp own
        rw [child_merge name tables, there]
        cases base.child name with
        | none => exact own
        | some under => exact ih own
      · rw [merge_of_not_tables tables]
        exact own

/-- Where the overlay shows nothing, it hides what it replaces. -/
theorem leaf_merge_of_hides (silent : overlay.leaf? path = none) (hides : overlay.Hides base path) :
    (mergeTomlValues base overlay).leaf? path = none := by
  induction path generalizing base overlay with
  | nil =>
      by_cases tables : base.IsTable ∧ overlay.IsTable
      · exact leaf_nil_of_isTable (isTable_merge tables)
      · rw [merge_of_not_tables tables]
        exact silent
  | cons name path ih =>
      by_cases tables : base.IsTable ∧ overlay.IsTable
      · obtain ⟨upper, under, overThere, underThere, hides⟩ := hides tables.2 tables.1
        rw [leaf_cons, overThere, Option.bind_some] at silent
        rw [leaf_cons, child_merge name tables, overThere, underThere]
        exact ih silent hides
      · rw [merge_of_not_tables tables]
        exact silent

/-- Where the overlay hides nothing, the base shows through. -/
theorem leaf_merge_of_not_hides (silent : overlay.leaf? path = none)
    (clear : ¬overlay.Hides base path) :
    (mergeTomlValues base overlay).leaf? path = base.leaf? path := by
  induction path generalizing base overlay with
  | nil => exact absurd trivial clear
  | cons name path ih =>
      simp only [Hides, Classical.not_imp] at clear
      obtain ⟨overTable, baseTable, clear⟩ := clear
      rw [leaf_cons] at silent
      rw [leaf_cons, leaf_cons, child_merge name ⟨baseTable, overTable⟩]
      cases overThere : overlay.child name with
      | none => rfl
      | some upper =>
          rw [overThere, Option.bind_some] at silent
          cases underThere : base.child name with
          | none => exact silent
          | some under =>
              exact ih silent fun hides => clear ⟨upper, under, overThere, underThere, hides⟩

/-- Below the same name of two tables, the same is hidden. -/
theorem hides_cons_congr {above base' under under' : TomlValue α} (table : base.IsTable)
    (table' : base'.IsTable) (there : base.child name = some under)
    (there' : base'.child name = some under')
    (same : ∀ upper : TomlValue α, upper.Hides under path ↔ upper.Hides under' path) :
    above.Hides base (name :: path) ↔ above.Hides base' (name :: path) := by
  simp only [Hides, table, table', there, there', true_imp_iff, Option.some.injEq]
  refine imp_congr_right fun _ => exists_congr fun upper => ?_
  constructor
  · rintro ⟨_, overThere, rfl, hides⟩
    exact ⟨under', overThere, rfl, (same upper).mp hides⟩
  · rintro ⟨_, overThere, rfl, hides⟩
    exact ⟨under, overThere, rfl, (same upper).mpr hides⟩

/-- What is hidden of a merged value, where the overlay shows a scalar, is what is hidden of the
overlay. -/
theorem hides_merge_of_own {above : TomlValue α} (own : overlay.leaf? path ≠ none) :
    above.Hides (mergeTomlValues base overlay) path ↔ above.Hides overlay path := by
  induction path generalizing base overlay above with
  | nil => exact Iff.rfl
  | cons name path ih =>
      by_cases tables : base.IsTable ∧ overlay.IsTable
      · obtain ⟨found, own⟩ := Option.ne_none_iff_exists'.mp own
        rw [leaf_cons] at own
        obtain ⟨upper, there, own⟩ := Option.bind_eq_some_iff.mp own
        have merged := child_merge name tables
        rw [there] at merged
        refine hides_cons_congr (isTable_merge tables) tables.2 merged there fun above' => ?_
        cases base.child name with
        | none => exact Iff.rfl
        | some under => exact ih (by simp [own])
      · rw [merge_of_not_tables tables]

/-- What is hidden of a merged value, where the overlay hides nothing, is what is hidden of the
base. -/
theorem hides_merge_of_not_hides {above : TomlValue α} (shown : base.leaf? path ≠ none)
    (clear : ¬overlay.Hides base path) :
    above.Hides (mergeTomlValues base overlay) path ↔ above.Hides base path := by
  induction path generalizing base overlay above with
  | nil => exact Iff.rfl
  | cons name path ih =>
      simp only [Hides, Classical.not_imp] at clear
      obtain ⟨overTable, baseTable, clear⟩ := clear
      obtain ⟨found, shown⟩ := Option.ne_none_iff_exists'.mp shown
      rw [leaf_cons] at shown
      obtain ⟨under, there, shown⟩ := Option.bind_eq_some_iff.mp shown
      have merged := child_merge name ⟨baseTable, overTable⟩
      cases overThere : overlay.child name with
      | none =>
          rw [overThere] at merged
          exact hides_cons_congr (isTable_merge ⟨baseTable, overTable⟩) baseTable
            (merged.trans there) there fun _ => Iff.rfl
      | some upper =>
          rw [overThere, there] at merged
          refine hides_cons_congr (isTable_merge ⟨baseTable, overTable⟩) baseTable merged there
            fun above' => ih (by simp [shown]) fun hides => ?_
          exact clear ⟨upper, under, overThere, there, hides⟩

/-! Applying a function to the scalars changes no path. -/

theorem child_map (f : α → β) : (value.map f).child name = (value.child name).map (map f) := by
  cases value with
  | scalar value => rfl
  | array length items => simp [map, child, Function.comp_def]
  | table keys entries =>
      by_cases present : name ∈ keys <;> simp [map, child, Table.get, present]

theorem leaf_map (f : α → β) : (value.map f).leaf? path = (value.leaf? path).map f := by
  induction path generalizing value with
  | nil => cases value <;> rfl
  | cons name path ih =>
      rw [leaf_cons, leaf_cons, child_map]
      cases value.child name with
      | none => rfl
      | some child => exact ih

end Lemmas

/-- Merging, as an overlay of the scalars at paths. -/
def overlay : Overlays.Overlay (TomlValue α) (List Text) α where
  merge := mergeTomlValues
  shown := leaf?
  hides := Hides
  shown_of_own := leaf_merge_of_own
  shown_of_hides := leaf_merge_of_hides
  shown_of_not_hides := leaf_merge_of_not_hides
  hides_of_own := hides_merge_of_own
  hides_of_not_hides shown clear _ := hides_merge_of_not_hides shown clear

end TomlValue

end CodexPilot.Config
