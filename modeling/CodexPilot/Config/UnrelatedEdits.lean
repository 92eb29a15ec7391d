import CodexPilot.Config.Documents

/-!
# Edits at unrelated key paths

An insertion and a removal decide what is at their own key path, and leave every path that is
neither above nor below it.  Two edits at such paths can be exchanged: the documents behind them
differ in the order of keys only.
-/

namespace CodexPilot.Config

open RustStd

variable {α : Type*}

namespace TomlItem

/-- Tables and inline tables. -/
def IsTable : TomlItem α → Prop
  | .table _ | .inlineTable _ => True
  | .value _ | .arrayOfTables _ => False

/-- Items that differ in the order of the keys of their tables only. -/
inductive SameUpToOrder : TomlItem α → TomlItem α → Prop
  | refl (item : TomlItem α) : SameUpToOrder item item
  | table {entries entries' : Document α}
      (keys : ∀ key, (entries.lookup key).isSome = (entries'.lookup key).isSome)
      (items : ∀ key item item', entries.lookup key = some item →
        entries'.lookup key = some item' → SameUpToOrder item item') :
      SameUpToOrder (.table entries) (.table entries')

end TomlItem

namespace Document

open Entries TomlItem

variable {document : Document α} {path other : List Text} {key name next : Text}
  {value value' : Option (TomlItem α)}

/-- Neither path leads through the other one. -/
def Apart (path other : List Text) : Prop := ¬path <+: other ∧ ¬other <+: path

/-- The existing proper prefixes of a path are all tables or inline tables. -/
def ThroughTables (document : Document α) (path : List Text) : Prop :=
  ∀ front item, front <+: path → front ≠ path → document.get front = some item → item.IsTable

/-- Insert a value at a key path, or remove what is there. -/
def edit (value : Option (TomlItem α)) (path : List Text) (document : Document α) : Document α :=
  match value with
  | some value => (document.insert value path).2
  | none => (document.remove path).2

/-- The table below a key, which is empty where there is none. -/
def below (document : Document α) (key : Text) : Document α :=
  ((document.lookup key).bind TomlItem.ensureTableForRead).getD []

/-! ## One level -/

theorem get_below :
    document.get (key :: next :: path) = (document.below key).get (next :: path) := by
  rw [get, below]
  cases (document.lookup key).bind TomlItem.ensureTableForRead with
  | none => exact get_nil.symm
  | some inner => rfl

@[simp]
theorem below_set_self {inner : Document α} :
    below (set key (.table inner) document) key = inner := by
  rw [below, lookup_set_self]
  rfl

theorem below_of_lookup_eq_none (absent : document.lookup key = none) :
    document.below key = [] := by
  rw [below, absent]
  rfl

theorem remove_nil : (remove ([] : Document α) path).2 = [] := by
  cases path with
  | nil => rfl
  | cons key path => cases path <;> rfl

/-- The first key of a path leads to a table, and the others lead through tables behind it. -/
theorem ThroughTables.of_cons (through : document.ThroughTables (key :: next :: path)) :
    (∀ item, document.lookup key = some item → item.IsTable) ∧
      (document.below key).ThroughTables (next :: path) := by
  constructor
  · intro item found
    apply through [key] item
    · exact List.cons_prefix_cons.mpr ⟨rfl, List.nil_prefix⟩
    · simp
    · exact found
  · intro front item short differ found
    cases front with
    | nil => cases found
    | cons first front =>
        apply through (key :: first :: front) item
        · exact List.cons_prefix_cons.mpr ⟨rfl, short⟩
        · exact fun same => differ (List.cons.inj same).2
        · rw [get_below]
          exact found

theorem enter_eq_below (table : ∀ item, document.lookup key = some item → item.IsTable) :
    document.enter key = some (document.below key) := by
  rw [enter, below]
  cases found : document.lookup key with
  | none => rfl
  | some item =>
      have entered := table item found
      cases item with
      | table entries | inlineTable entries => rfl
      | value value | arrayOfTables tables => cases entered

theorem readable_eq_below (table : ∀ item, document.lookup key = some item → item.IsTable)
    (present : (document.lookup key).isSome = true) :
    (document.lookup key).bind TomlItem.ensureTableForRead = some (document.below key) := by
  rw [below]
  obtain ⟨item, found⟩ := Option.isSome_iff_exists.mp present
  have entered := table item found
  rw [found]
  cases item with
  | table entries | inlineTable entries => rfl
  | value value | arrayOfTables tables => cases entered

/-- An edit below a key makes a table of what is there, except where it finds nothing to remove. -/
theorem edit_cons (table : ∀ item, document.lookup key = some item → item.IsTable) :
    document.edit value (key :: next :: path) =
      if value.isSome || (document.lookup key).isSome then
        set key (.table ((document.below key).edit value (next :: path))) document
      else document := by
  cases value with
  | some value =>
      rw [edit, insert_of_enter (enter_eq_below table)]
      rfl
  | none =>
      rw [edit, remove]
      cases present : (document.lookup key).isSome with
      | false =>
          rw [Option.isSome_eq_false_iff, Option.isNone_iff_eq_none] at present
          rw [present]
          rfl
      | true =>
          rw [readable_eq_below table present]
          rfl

theorem lookup_edit (table : ∀ item, document.lookup key = some item → item.IsTable) :
    (document.edit value (key :: next :: path)).lookup key =
      if value.isSome || (document.lookup key).isSome then
        some (.table ((document.below key).edit value (next :: path)))
      else none := by
  rw [edit_cons table]
  split
  case isTrue => exact lookup_set_self
  case isFalse untouched =>
    rw [Bool.or_eq_true, not_or, Bool.not_eq_true, Bool.not_eq_true] at untouched
    exact Option.isNone_iff_eq_none.mp (Option.isSome_eq_false_iff.mp untouched.2)

theorem below_edit (table : ∀ item, document.lookup key = some item → item.IsTable) :
    (document.edit value (key :: next :: path)).below key =
      (document.below key).edit value (next :: path) := by
  rw [edit_cons table]
  split
  case isTrue => exact below_set_self
  case isFalse untouched =>
    rw [Bool.or_eq_true, not_or, Bool.not_eq_true, Bool.not_eq_true] at untouched
    obtain ⟨removal, absent⟩ := untouched
    cases value with
    | some value => cases removal
    | none =>
        rw [below_of_lookup_eq_none
          (Option.isNone_iff_eq_none.mp (Option.isSome_eq_false_iff.mp absent))]
        exact remove_nil.symm

/-- After an edit below a key there is a table or nothing. -/
theorem isTable_of_lookup_edit (table : ∀ item, document.lookup key = some item → item.IsTable)
    (item : TomlItem α)
    (found : (document.edit value (key :: next :: path)).lookup key = some item) :
    item.IsTable := by
  rw [lookup_edit table] at found
  split at found
  case isTrue =>
    cases found
    trivial
  case isFalse => cases found

theorem lookup_remove_of_ne (differ : name ≠ key) :
    (document.remove (key :: path)).2.lookup name = document.lookup name := by
  cases path with
  | nil => exact lookup_erase_of_ne differ
  | cons next path =>
      rw [remove]
      split
      case h_1 => rfl
      case h_2 => exact lookup_set_of_ne differ

/-- An edit leaves the other keys of a table. -/
theorem lookup_edit_of_ne (differ : name ≠ key) :
    (document.edit value (key :: path)).lookup name = document.lookup name := by
  cases value with
  | some value => exact lookup_insert_of_ne differ
  | none => exact lookup_remove_of_ne differ

/-- What an edit leaves at a key depends on what was there, and on nothing else. -/
theorem lookup_edit_congr {document' : Document α}
    (same : document.lookup key = document'.lookup key) :
    (document.edit value (key :: path)).lookup key =
      (document'.edit value (key :: path)).lookup key := by
  cases value with
  | some value =>
      rw [edit, edit]
      cases path with
      | nil => exact lookup_set_self.trans lookup_set_self.symm
      | cons next path =>
          have entered : document.enter key = document'.enter key := by rw [enter, enter, same]
          rw [insert, insert, entered]
          cases document'.enter key with
          | none => exact same
          | some inner => exact lookup_set_self.trans lookup_set_self.symm
  | none =>
      rw [edit, edit]
      cases path with
      | nil => exact lookup_erase_self.trans lookup_erase_self.symm
      | cons next path =>
          rw [remove, remove, same]
          cases (document'.lookup key).bind TomlItem.ensureTableForRead with
          | none => exact same
          | some inner => exact lookup_set_self.trans lookup_set_self.symm

/-! ## Whole paths -/

theorem opens_of_throughTables (nonempty : path ≠ []) (through : document.ThroughTables path) :
    document.opens path = true := by
  induction path generalizing document with
  | nil => exact absurd rfl nonempty
  | cons key path ih =>
      cases path with
      | nil => rfl
      | cons next path =>
          obtain ⟨table, further⟩ := through.of_cons
          rw [opens_of_enter (enter_eq_below table)]
          exact ih (List.cons_ne_nil _ _) further

/-- Where a value has been removed there is nothing. -/
theorem get_remove_self : get (document.remove path).2 path = none := by
  induction path generalizing document with
  | nil => rfl
  | cons key path ih =>
      cases path with
      | nil => exact lookup_erase_self
      | cons next path =>
          rw [remove]
          cases readable : (document.lookup key).bind TomlItem.ensureTableForRead with
          | none =>
              change document.get _ = none
              rw [get, readable]
              rfl
          | some inner =>
              change get (set key (.table (inner.remove (next :: path)).2) document) _ = none
              rw [get_below, below_set_self]
              exact ih

/-- An edit leaves the value at every path that is neither above nor below its own. -/
theorem get_edit_of_apart (apart : Apart path other) :
    (document.edit value path).get other = document.get other := by
  cases value with
  | some value => exact (insert_of_apart apart.1 apart.2).1
  | none =>
      rw [edit]
      induction path generalizing document other with
      | nil => exact absurd List.nil_prefix apart.1
      | cons key path ih =>
          cases other with
          | nil => exact absurd List.nil_prefix apart.2
          | cons key' other =>
              obtain differ | ⟨rfl, further⟩ := apart_cases apart.1 apart.2
              · have same : (document.remove (key :: path)).2.lookup key' = document.lookup key' :=
                  lookup_remove_of_ne differ.symm
                cases other with
                | nil => exact same
                | cons next other => rw [get, get, same]
              · cases path with
                | nil => exact absurd List.nil_prefix further.1
                | cons next path =>
                    cases other with
                    | nil => exact absurd List.nil_prefix further.2
                    | cons next' other =>
                        rw [remove]
                        cases readable :
                            (document.lookup key).bind TomlItem.ensureTableForRead with
                        | none => rfl
                        | some inner =>
                            change get (set key (.table (inner.remove (next :: path)).2) document)
                              _ = _
                            rw [get_below, below_set_self, ih further, get, readable]
                            rfl

theorem sameUpToOrder_of_lookup {document' : Document α}
    (same : ∀ key, document.lookup key = document'.lookup key) :
    SameUpToOrder (.table document) (.table document') := by
  refine .table (fun key => by rw [same key]) fun key item item' found found' => ?_
  rw [same key, found'] at found
  cases found
  exact .refl item

/-- Edits at paths that are apart can be exchanged. -/
theorem edit_edit_of_apart (through : document.ThroughTables path)
    (through' : document.ThroughTables other) (apart : Apart path other) :
    SameUpToOrder (.table ((document.edit value path).edit value' other))
      (.table ((document.edit value' other).edit value path)) := by
  induction path generalizing document other with
  | nil => exact absurd List.nil_prefix apart.1
  | cons key path ih =>
      cases other with
      | nil => exact absurd List.nil_prefix apart.2
      | cons key' other =>
          obtain differ | ⟨rfl, further⟩ := apart_cases apart.1 apart.2
          · -- each edit decides its own key, from what the other one leaves there
            refine sameUpToOrder_of_lookup fun name => ?_
            by_cases own : name = key
            · subst own
              rw [lookup_edit_of_ne differ]
              exact lookup_edit_congr (lookup_edit_of_ne differ).symm
            · rw [lookup_edit_of_ne own]
              by_cases own' : name = key'
              · subst own'
                exact lookup_edit_congr (lookup_edit_of_ne own)
              · rw [lookup_edit_of_ne own', lookup_edit_of_ne own, lookup_edit_of_ne own']
          · cases path with
            | nil => exact absurd List.nil_prefix further.1
            | cons next path =>
                cases other with
                | nil => exact absurd List.nil_prefix further.2
                | cons next' other =>
                    obtain ⟨table, inside⟩ := through.of_cons
                    obtain ⟨-, inside'⟩ := through'.of_cons
                    have below := ih inside inside' further
                    refine .table (fun name => ?_) fun name item item' found found' => ?_
                    · by_cases own : name = key
                      · subst own
                        rw [lookup_edit (isTable_of_lookup_edit table),
                          lookup_edit (isTable_of_lookup_edit table), lookup_edit table,
                          lookup_edit table]
                        cases value <;> cases value' <;> cases document.lookup name <;> rfl
                      · rw [lookup_edit_of_ne own, lookup_edit_of_ne own, lookup_edit_of_ne own,
                          lookup_edit_of_ne own]
                    · by_cases own : name = key
                      · subst own
                        rw [lookup_edit (isTable_of_lookup_edit table), below_edit table] at found
                        rw [lookup_edit (isTable_of_lookup_edit table), below_edit table] at found'
                        split at found
                        case isFalse => cases found
                        split at found'
                        case isFalse => cases found'
                        cases found
                        cases found'
                        exact below
                      · rw [lookup_edit_of_ne own, lookup_edit_of_ne own] at found
                        rw [lookup_edit_of_ne own, lookup_edit_of_ne own, found] at found'
                        cases found'
                        exact .refl item

/-- Edits at a path decide what is there and keep to it. -/
structure KeepsEditsApart (document : Document α) (path : List Text) : Prop where
  inserted : ∀ value, document.insert value path = (true, document.edit (some value) path) ∧
    (document.edit (some value) path).get path = some value
  removed : (document.edit none path).get path = none
  unrelated : ∀ other, Apart path other → ∀ value,
    (document.edit value path).get other = document.get other
  exchanged : ∀ other, Apart path other → document.ThroughTables other → ∀ value value',
    SameUpToOrder (.table ((document.edit value path).edit value' other))
      (.table ((document.edit value' other).edit value path))

/-- Edits touch only their own key. -/
theorem keepsEditsApart (nonempty : path ≠ []) (through : document.ThroughTables path) :
    document.KeepsEditsApart path where
  inserted value := by
    have opened := opens_of_throughTables nonempty through
    exact ⟨Prod.ext (insert_fst.trans opened) rfl, get_insert_self opened⟩
  removed := get_remove_self
  unrelated _ apart _ := get_edit_of_apart apart
  exchanged _ apart through' _ _ := edit_edit_of_apart through through' apart

/-- An inline table beside a value. -/
def shellConfig : Document ℕ :=
  [("shell".toList, .inlineTable [("timeout".toList, .value 10)]), ("model".toList, .value 5)]

theorem throughTables_shellConfig :
    shellConfig.ThroughTables ["shell".toList, "policy".toList] := by
  intro front item short differ found
  obtain rfl | ⟨rest, rfl, short'⟩ := List.prefix_cons_iff.mp short
  · cases found
  · obtain rfl | ⟨rest', rfl, short''⟩ := List.prefix_cons_iff.mp short'
    · cases found
      trivial
    · rw [List.prefix_nil.mp short''] at differ
      exact absurd rfl differ

theorem keepsEditsApart_shellConfig :
    shellConfig.KeepsEditsApart ["shell".toList, "policy".toList] :=
  keepsEditsApart (by decide) throughTables_shellConfig

/-- The order of keys is that of the edits. -/
example :
    (shellConfig.edit (some (.value 1)) [['a']]).edit (some (.value 2)) [['b']] ≠
      (shellConfig.edit (some (.value 2)) [['b']]).edit (some (.value 1)) [['a']] := by
  intro same
  have keys := congrArg (List.map Prod.fst) same
  revert keys
  decide

end Document

end CodexPilot.Config
