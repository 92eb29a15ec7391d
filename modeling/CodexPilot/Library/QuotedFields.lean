import Mathlib.Data.List.Basic

/-!
# Records of quoted fields

Records are lines of fields with a separator between them.  A field that holds one of the marks is
written in quotes, with its own quotes doubled.  A strict reader takes the symbols one by one; it
gets back every list of records that was written, whatever the fields hold.
-/

namespace QuotedFields

variable {α : Type*}

/-- The four different marks. -/
structure Marks (α : Type*) where
  comma : α
  quote : α
  newline : α
  carriage : α
  nodup : [comma, quote, newline, carriage].Nodup

namespace Marks

variable (marks : Marks α)

/-- A symbol that a bare field cannot hold. -/
def IsMark (symbol : α) : Prop := symbol ∈ [marks.comma, marks.quote, marks.newline, marks.carriage]

variable {marks}

theorem isMark_iff {symbol : α} : marks.IsMark symbol ↔ symbol = marks.comma ∨
    symbol = marks.quote ∨ symbol = marks.newline ∨ symbol = marks.carriage := by
  simp [IsMark]

theorem comma_ne_quote : marks.comma ≠ marks.quote := by
  have nodup := marks.nodup
  simp_all

theorem newline_ne_quote : marks.newline ≠ marks.quote := by
  have nodup := marks.nodup
  simp_all [eq_comm]

theorem newline_ne_comma : marks.newline ≠ marks.comma := by
  have nodup := marks.nodup
  simp_all [eq_comm]

end Marks

/-- Where in a field the reader is. -/
inductive Mode where
  | start
  | bare
  | quoted
  | closed
  deriving DecidableEq

/-- What has been read: the symbols of the field, the fields of the record, and the records. -/
structure Reader (α : Type*) where
  mode : Mode
  field : List α
  record : List (List α)
  records : List (List (List α))

namespace Reader

def push (reader : Reader α) (mode : Mode) (symbol : α) : Reader α :=
  { reader with mode, field := reader.field ++ [symbol] }

def endField (reader : Reader α) : Reader α :=
  { reader with mode := .start, field := [], record := reader.record ++ [reader.field] }

def endRecord (reader : Reader α) : Reader α where
  mode := .start
  field := []
  record := []
  records := reader.records ++ [reader.record ++ [reader.field]]

end Reader

namespace Marks

variable [DecidableEq α] (marks : Marks α)

instance : DecidablePred marks.IsMark := fun symbol =>
  inferInstanceAs (Decidable (symbol ∈ [marks.comma, marks.quote, marks.newline, marks.carriage]))

/-- A symbol outside of quotes, once a field may have ended. -/
def boundary (reader : Reader α) (symbol : α) : Option (Reader α) :=
  if symbol = marks.comma then some reader.endField
  else if symbol = marks.newline then some reader.endRecord
  else none

/-- One symbol.  Marks stand in quotes only, and nothing but a mark follows the closing quote. -/
def step (reader : Reader α) (symbol : α) : Option (Reader α) :=
  match reader.mode with
  | .start =>
      if symbol = marks.quote then some { reader with mode := .quoted }
      else if marks.IsMark symbol then marks.boundary reader symbol
      else some (reader.push .bare symbol)
  | .bare =>
      if marks.IsMark symbol then marks.boundary reader symbol
      else some (reader.push .bare symbol)
  | .quoted =>
      if symbol = marks.quote then some { reader with mode := .closed }
      else some (reader.push .quoted symbol)
  | .closed =>
      if symbol = marks.quote then some (reader.push .quoted symbol)
      else marks.boundary reader symbol

/-- Read a text whose records are all ended by a newline. -/
def parse (text : List α) : Option (List (List (List α))) := do
  let reader ← text.foldlM marks.step ⟨.start, [], [], []⟩
  if reader.mode = .start ∧ reader.record = [] then some reader.records else none

/-- A field with its quotes doubled. -/
def doubled (field : List α) : List α :=
  field.flatMap fun symbol => if symbol = marks.quote then [symbol, symbol] else [symbol]

/-- A field as it is written. -/
def escape (field : List α) : List α :=
  if field.any (marks.IsMark ·) then [marks.quote] ++ marks.doubled field ++ [marks.quote]
  else field

/-- The fields, with commas between. -/
def writeRecord (record : List (List α)) : List α :=
  [marks.comma].intercalate (record.map marks.escape) ++ [marks.newline]

/-- All records, one after the other. -/
def write (records : List (List (List α))) : List α := records.flatMap marks.writeRecord

variable {marks}

/-! ## Reading one field -/

theorem step_comma {reader : Reader α} (complete : reader.mode ≠ .quoted) :
    marks.step reader marks.comma = some reader.endField := by
  have mark : marks.IsMark marks.comma := isMark_iff.mpr (.inl rfl)
  have bounds : marks.boundary reader marks.comma = some reader.endField := if_pos rfl
  rw [step]
  cases mode : reader.mode with
  | start => simp [mark, bounds, comma_ne_quote]
  | bare => simp [mark, bounds]
  | quoted => exact absurd mode complete
  | closed => simp [bounds, comma_ne_quote]

theorem step_newline {reader : Reader α} (complete : reader.mode ≠ .quoted) :
    marks.step reader marks.newline = some reader.endRecord := by
  have mark : marks.IsMark marks.newline := isMark_iff.mpr (by simp)
  have bounds : marks.boundary reader marks.newline = some reader.endRecord := by
    rw [boundary, if_neg newline_ne_comma, if_pos rfl]
  rw [step]
  cases mode : reader.mode with
  | start => simp [mark, bounds, newline_ne_quote]
  | bare => simp [mark, bounds]
  | quoted => exact absurd mode complete
  | closed => simp [bounds, newline_ne_quote]

/-- A field without marks is read as it stands. -/
theorem foldlM_bare {field : List α} (plain : ∀ symbol ∈ field, ¬marks.IsMark symbol)
    {reader : Reader α} (outside : reader.mode = .start ∨ reader.mode = .bare) :
    ∃ mode, (mode = .start ∨ mode = .bare) ∧ field.foldlM marks.step reader =
      some { reader with mode, field := reader.field ++ field } := by
  induction field generalizing reader with
  | nil => exact ⟨reader.mode, outside, by simp⟩
  | cons symbol field ih =>
      have unmarked := plain symbol List.mem_cons_self
      have unquoted : symbol ≠ marks.quote := by
        rintro rfl
        exact unmarked (isMark_iff.mpr (by simp))
      have stepped : marks.step reader symbol = some (reader.push .bare symbol) := by
        obtain mode | mode := outside <;> simp [step, mode, unmarked, unquoted]
      have bare : (reader.push .bare symbol).mode = .start ∨
          (reader.push .bare symbol).mode = .bare := .inr rfl
      obtain ⟨mode, ended, rest⟩ := ih
        (fun symbol member => plain symbol (List.mem_cons_of_mem _ member)) bare
      refine ⟨mode, ended, ?_⟩
      rw [List.foldlM_cons, stepped, Option.bind_eq_bind, Option.bind_some, rest]
      simp [Reader.push]

/-- In quotes, a quote is read off its two. -/
theorem foldlM_doubled (field : List α) {reader : Reader α} (inside : reader.mode = .quoted) :
    (marks.doubled field).foldlM marks.step reader =
      some { reader with field := reader.field ++ field } := by
  induction field generalizing reader with
  | nil => simp [doubled]
  | cons symbol field ih =>
      have pushed : (if symbol = marks.quote then [symbol, symbol] else [symbol]).foldlM marks.step
          reader = some (reader.push .quoted symbol) := by
        split
        case isTrue quote => simp [step, inside, quote, Reader.push]
        case isFalse other => simp [step, inside, other]
      rw [doubled, List.flatMap_cons, List.foldlM_append, pushed, Option.bind_eq_bind,
        Option.bind_some, ← doubled, ih rfl]
      simp [Reader.push, inside]

/-- A written field is read back. -/
theorem foldlM_escape (field : List α) {reader : Reader α} (ready : reader.mode = .start)
    (empty : reader.field = []) :
    ∃ mode, mode ≠ .quoted ∧
      (marks.escape field).foldlM marks.step reader = some { reader with mode, field } := by
  rw [escape]
  split
  case isTrue marked =>
    refine ⟨.closed, nofun, ?_⟩
    have opened : marks.step reader marks.quote = some { reader with mode := .quoted } := by
      simp [step, ready]
    have closed : marks.step { reader with mode := .quoted, field } marks.quote =
        some { reader with mode := .closed, field } := by
      simp [step]
    rw [List.foldlM_append, List.foldlM_append, List.foldlM_cons, opened]
    simp only [Option.bind_eq_bind, Option.bind_some, List.foldlM_nil, Option.pure_def]
    rw [foldlM_doubled field rfl]
    simp only [Option.bind_some, empty, List.nil_append, List.foldlM_cons, List.foldlM_nil, closed]
    rfl
  case isFalse plain =>
    have unmarked : ∀ symbol ∈ field, ¬marks.IsMark symbol := by simpa using plain
    obtain ⟨mode, outside, bare⟩ := foldlM_bare unmarked (.inl ready)
    refine ⟨mode, ?_, ?_⟩
    · obtain rfl | rfl := outside <;> exact nofun
    · rw [bare, empty, List.nil_append]

/-! ## Reading records -/

theorem foldlM_writeRecord {record : List (List α)} (nonempty : record ≠ []) {reader : Reader α}
    (ready : reader.mode = .start) (empty : reader.field = []) :
    (marks.writeRecord record).foldlM marks.step reader =
      some ⟨.start, [], [], reader.records ++ [reader.record ++ record]⟩ := by
  induction record generalizing reader with
  | nil => exact absurd rfl nonempty
  | cons first rest ih =>
      obtain ⟨mode, complete, read⟩ := @foldlM_escape _ _ marks first _ ready empty
      cases rest with
      | nil =>
          rw [writeRecord, List.map_singleton, List.intercalate_singleton, List.foldlM_append, read,
            Option.bind_eq_bind, Option.bind_some, List.foldlM_cons, step_newline complete]
          rfl
      | cons second rest =>
          have tail := @ih (List.cons_ne_nil second rest)
            (Reader.endField { reader with mode, field := first }) rfl rfl
          rw [writeRecord, List.map_cons, List.map_cons, List.intercalate_cons_cons,
            List.append_assoc, List.append_assoc, List.foldlM_append, read, Option.bind_eq_bind,
            Option.bind_some, List.singleton_append, List.foldlM_cons, step_comma complete,
            Option.bind_eq_bind, Option.bind_some, ← List.map_cons, ← writeRecord, tail]
          simp [Reader.endField]

theorem foldlM_write {records : List (List (List α))} (nonempty : ∀ record ∈ records, record ≠ [])
    (seen : List (List (List α))) :
    (marks.write records).foldlM marks.step ⟨.start, [], [], seen⟩ =
      some ⟨.start, [], [], seen ++ records⟩ := by
  induction records generalizing seen with
  | nil => simp [write]
  | cons record records ih =>
      rw [write, List.flatMap_cons, List.foldlM_append,
        foldlM_writeRecord (nonempty record List.mem_cons_self) rfl rfl, Option.bind_eq_bind,
        Option.bind_some, ← write,
        ih fun record member => nonempty record (List.mem_cons_of_mem _ member)]
      simp

/-- What is written is read back. -/
theorem parse_write {records : List (List (List α))} (nonempty : ∀ record ∈ records, record ≠ []) :
    marks.parse (marks.write records) = some records := by
  rw [parse, foldlM_write nonempty]
  simp

end Marks

end QuotedFields
