import CodexPilot.Library.Entries
import CodexPilot.RustStd.Text

/-!
# Editable TOML documents

A document is a tree of tables.  An insertion goes down a key path, makes tables of what is none on
its way, and stops at an array of tables.  It leaves the value at every path that is neither above
nor below its own.
-/

namespace CodexPilot.Config

open RustStd

/-- `toml_edit::Item` up to formatting: a scalar or an array, an inline table, a table, or an array
of tables. -/
inductive TomlItem (α : Type*) where
  | value (value : α)
  | inlineTable (entries : List (Text × TomlItem α))
  | table (entries : List (Text × TomlItem α))
  | arrayOfTables (tables : List (List (Text × TomlItem α)))

/-- The root table of a `DocumentMut`. -/
abbrev Document (α : Type*) := List (Text × TomlItem α)

namespace TomlItem

variable {α : Type*}

/-- `new_implicit_table`. -/
def newImplicitTable : TomlItem α := .table []

/-- `ensure_table_for_write`: the entries of the table that the item is, or is made to be; none for
an array of tables. -/
def ensureTableForWrite : TomlItem α → Option (Document α)
  | .table entries => some entries
  | .inlineTable entries => some entries
  | .value _ => some []
  | .arrayOfTables _ => none

/-- `ensure_table_for_read`. -/
def ensureTableForRead : TomlItem α → Option (Document α)
  | .table entries => some entries
  | .inlineTable entries => some entries
  | .value _ | .arrayOfTables _ => none

end TomlItem

namespace Document

open Entries

variable {α : Type*} {document : Document α} {path other : List Text} {value : TomlItem α}

/-- What a document has at a key path; nothing at the empty one. -/
def get (document : Document α) : List Text → Option (TomlItem α)
  | [] => none
  | [key] => document.lookup key
  | key :: next :: path =>
      ((document.lookup key).bind TomlItem.ensureTableForRead).bind fun inner =>
        get inner (next :: path)

/-- The table that is written below a key, which is made where there is none. -/
def enter (document : Document α) (key : Text) : Option (Document α) :=
  ((document.lookup key).getD .newImplicitTable).ensureTableForWrite

/-- `insert` with `descend`: whether the value has been set, and the document behind it. -/
def insert (document : Document α) (value : TomlItem α) : List Text → Bool × Document α
  | [] => (false, document)
  | [key] => (true, set key value document)
  | key :: next :: path =>
      match document.enter key with
      | none => (false, document)
      | some inner =>
          let (inserted, inner) := insert inner value (next :: path)
          (inserted, set key (.table inner) document)

/-- `remove` with `descend`. -/
def remove (document : Document α) : List Text → Bool × Document α
  | [] => (false, document)
  | [key] => ((document.lookup key).isSome, erase key document)
  | key :: next :: path =>
      match (document.lookup key).bind TomlItem.ensureTableForRead with
      | none => (false, document)
      | some inner =>
          let (removed, inner) := remove inner (next :: path)
          (removed, set key (.table inner) document)

/-- A key path can be written: it is not empty, and leads through no array of tables. -/
def opens (document : Document α) : List Text → Bool
  | [] => false
  | [_] => true
  | key :: next :: path =>
      match document.enter key with
      | none => false
      | some inner => opens inner (next :: path)

@[simp]
theorem enter_set_self {inner : Document α} {key : Text} :
    enter (set key (.table inner) document) key = some inner := by
  simp [enter, TomlItem.ensureTableForWrite]

theorem get_nil : get ([] : Document α) path = none := by
  cases path with
  | nil => rfl
  | cons key path => cases path <;> rfl

/-- What is read below a key is read in the table that is written there. -/
theorem get_of_enter {inner : Document α} {key next : Text}
    (enters : document.enter key = some inner) :
    document.get (key :: next :: path) = inner.get (next :: path) := by
  rw [get]
  rw [enter] at enters
  cases found : document.lookup key with
  | none =>
      rw [found] at enters
      cases enters
      exact get_nil.symm
  | some item =>
      rw [found, Option.getD_some] at enters
      cases item with
      | table entries | inlineTable entries =>
          cases enters
          rfl
      | value value =>
          cases enters
          exact get_nil.symm
      | arrayOfTables tables => cases enters

theorem opens_of_enter {inner : Document α} {key next : Text}
    (enters : document.enter key = some inner) :
    document.opens (key :: next :: path) = inner.opens (next :: path) := by
  rw [opens, enters]

theorem insert_of_enter {inner : Document α} {key next : Text}
    (enters : document.enter key = some inner) :
    document.insert value (key :: next :: path) =
      ((inner.insert value (next :: path)).1,
        set key (.table (inner.insert value (next :: path)).2) document) := by
  rw [insert, enters]

theorem insert_of_enter_eq_none {key next : Text} (enters : document.enter key = none) :
    document.insert value (key :: next :: path) = (false, document) := by
  rw [insert, enters]

/-- An insertion succeeds at the paths that can be written. -/
theorem insert_fst : (document.insert value path).1 = document.opens path := by
  induction path generalizing document with
  | nil => rfl
  | cons key path ih =>
      cases path with
      | nil => rfl
      | cons next path =>
          cases enters : document.enter key with
          | none => rw [insert_of_enter_eq_none enters, opens, enters]
          | some inner =>
              rw [insert_of_enter enters, opens_of_enter enters]
              exact ih

/-- A value that is set can be read. -/
theorem get_insert_self (opened : document.opens path = true) :
    get (document.insert value path).2 path = some value := by
  induction path generalizing document with
  | nil => cases opened
  | cons key path ih =>
      cases path with
      | nil => exact lookup_set_self
      | cons next path =>
          cases enters : document.enter key with
          | none =>
              rw [opens, enters] at opened
              cases opened
          | some inner =>
              rw [opens_of_enter enters] at opened
              rw [insert_of_enter enters, get_of_enter enter_set_self]
              exact ih opened

/-- An insertion leaves it whether its own path can be written. -/
theorem opens_insert_self : opens (document.insert value path).2 path = document.opens path := by
  induction path generalizing document with
  | nil => rfl
  | cons key path ih =>
      cases path with
      | nil => rfl
      | cons next path =>
          cases enters : document.enter key with
          | none => rw [insert_of_enter_eq_none enters]
          | some inner =>
              rw [insert_of_enter enters, opens_of_enter enter_set_self, opens_of_enter enters]
              exact ih

/-- At a path that cannot be written there is nothing to read. -/
theorem get_eq_none_of_not_opens (closed : document.opens path = false) :
    document.get path = none := by
  induction path generalizing document with
  | nil => rfl
  | cons key path ih =>
      cases path with
      | nil => cases closed
      | cons next path =>
          cases enters : document.enter key with
          | none =>
              rw [get]
              rw [enter] at enters
              cases found : document.lookup key with
              | none => rfl
              | some item =>
                  rw [found] at enters
                  cases item with
                  | table entries | inlineTable entries | value value => cases enters
                  | arrayOfTables tables => rfl
          | some inner =>
              rw [opens_of_enter enters] at closed
              rw [get_of_enter enters]
              exact ih closed

/-- Paths that diverge do so at their first keys, or behind a common one. -/
theorem apart_cases {key key' : Text} {path other : List Text}
    (apart : ¬key :: path <+: key' :: other) (apart' : ¬key' :: other <+: key :: path) :
    key ≠ key' ∨ key = key' ∧ (¬path <+: other ∧ ¬other <+: path) := by
  obtain rfl | differ := eq_or_ne key key'
  · refine .inr ⟨rfl, fun shorter => apart ?_, fun shorter => apart' ?_⟩
    all_goals exact List.cons_prefix_cons.mpr ⟨rfl, shorter⟩
  · exact .inl differ

/-- An insertion leaves the other keys of a table. -/
theorem lookup_insert_of_ne {key name : Text} (differ : name ≠ key) :
    (document.insert value (key :: path)).2.lookup name = document.lookup name := by
  cases path with
  | nil => exact lookup_set_of_ne differ
  | cons next path =>
      rw [insert]
      split
      case h_1 => rfl
      case h_2 => exact lookup_set_of_ne differ

/-- An insertion leaves what a document has at a path that is neither above nor below its own, and
whether that can be written. -/
theorem insert_of_apart (apart : ¬path <+: other) (apart' : ¬other <+: path) :
    get (document.insert value path).2 other = document.get other ∧
      opens (document.insert value path).2 other = document.opens other := by
  induction path generalizing document other with
  | nil => exact absurd (List.nil_prefix) apart
  | cons key path ih =>
      cases other with
      | nil => exact absurd (List.nil_prefix) apart'
      | cons key' other =>
          obtain differ | ⟨rfl, below, below'⟩ := apart_cases apart apart'
          · have same : (document.insert value (key :: path)).2.lookup key' =
                document.lookup key' := lookup_insert_of_ne differ.symm
            cases other with
            | nil => exact ⟨same, rfl⟩
            | cons next other =>
                have entered : enter (document.insert value (key :: path)).2 key' =
                    document.enter key' := by rw [enter, enter, same]
                exact ⟨by rw [get, get, same], by rw [opens, opens, entered]⟩
          · cases path with
            | nil => exact absurd List.nil_prefix below
            | cons next path =>
                cases other with
                | nil => exact absurd List.nil_prefix below'
                | cons next' other =>
                    cases enters : document.enter key with
                    | none =>
                        rw [insert_of_enter_eq_none enters]
                        exact ⟨rfl, rfl⟩
                    | some inner =>
                        rw [insert_of_enter enters, get_of_enter enter_set_self,
                          get_of_enter enters, opens_of_enter enter_set_self,
                          opens_of_enter enters]
                        exact ih below below'

end Document

end CodexPilot.Config
