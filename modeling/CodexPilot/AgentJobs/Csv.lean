import CodexPilot.AgentJobs.Database
import CodexPilot.AgentJobs.Values
import CodexPilot.Library.QuotedFields

/-!
# The exported table of a job

The table has a column for every input header and ten columns of the job's own.  Fields are quoted
one by one and joined by hand; a strict reader gets back the fields as they were.
-/

namespace CodexPilot.AgentJobs
namespace Csv

open RustStd Text QuotedFields

/-! ## The code -/

/-- How numbers and times are printed. -/
structure Printing (ν τ : Type) where
  numberText : ν → Text
  toRfc3339 : τ → Text

/-- An item, as it is exported. -/
structure Item (ν τ : Type) where
  jobId : Text
  itemId : Text
  rowIndex : ℤ
  sourceId : Option Text
  rowJson : Value ν
  status : AgentJobItemStatus
  attemptCount : ℤ
  resultJson : Option (Value ν)
  lastError : Option Text
  completedAt : Option τ
  reportedAt : Option τ

def statusText : AgentJobItemStatus → Text
  | .pending => "pending".toList
  | .running => "running".toList
  | .completed => "completed".toList
  | .failed => "failed".toList

def intText (n : ℤ) : Text := (toString n).toList

/-- `csv_escape`. -/
def csvEscape (value : Text) : Text :=
  if value.contains ',' || value.contains '\n' || value.contains '\r' || value.contains '"' then
    ['"'] ++ value.flatMap (fun c => if c = '"' then ['"', '"'] else [c]) ++ ['"']
  else value

variable {ν τ : Type} (printing : Printing ν τ)

/-- `value_to_csv_string`. -/
def valueToCsvString : Value ν → Text
  | .null => []
  | .string text => text
  | .bool value => Value.boolText value
  | .number value => printing.numberText value
  | value => value.toText printing.numberText

/-- The columns behind those of the input. -/
def jobHeaders : List Text :=
  ["job_id".toList, "item_id".toList, "row_index".toList, "source_id".toList, "status".toList,
    "attempt_count".toList, "last_error".toList, "result_json".toList, "reported_at".toList,
    "completed_at".toList]

/-- One row of the table. -/
def renderRow (headers : List Text) (item : Item ν τ) : Except Text Text := do
  let some rowObject := item.rowJson.asObject
    | throw ("row_json for item ".toList ++ item.itemId ++ " is not a JSON object".toList)
  let rowValues := headers.map fun header =>
    csvEscape ((rowObject.lookup header).elim [] (valueToCsvString printing))
  let rowValues := rowValues ++ [csvEscape item.jobId, csvEscape item.itemId,
    csvEscape (intText item.rowIndex), csvEscape (item.sourceId.getD []),
    csvEscape (statusText item.status), csvEscape (intText item.attemptCount),
    csvEscape (item.lastError.getD []),
    csvEscape (item.resultJson.elim [] (Value.toText printing.numberText)),
    csvEscape ((item.reportedAt.map printing.toRfc3339).getD []),
    csvEscape ((item.completedAt.map printing.toRfc3339).getD [])]
  return join [','] rowValues ++ ['\n']

/-- `render_job_csv`. -/
def renderJobCsv (headers : List Text) (items : List (Item ν τ)) : Except Text Text :=
  items.foldlM (fun csv item => do
      let row ← renderRow printing headers item
      return csv ++ row)
    (join [','] ((headers ++ jobHeaders).map csvEscape) ++ ['\n'])

/-! ## What is exported -/

/-- The marks of comma-separated values. -/
def rfc4180 : Marks Char where
  comma := ','
  quote := '"'
  newline := '\n'
  carriage := '\r'
  nodup := by decide

/-- The field of an input column. -/
def cell (entries : List (Text × Value ν)) (header : Text) : Text :=
  (entries.lookup header).elim [] (valueToCsvString printing)

/-- The fields of the columns behind. -/
def jobCells (item : Item ν τ) : List Text :=
  [item.jobId, item.itemId, intText item.rowIndex, item.sourceId.getD [], statusText item.status,
    intText item.attemptCount, item.lastError.getD [],
    item.resultJson.elim [] (Value.toText printing.numberText),
    (item.reportedAt.map printing.toRfc3339).getD [],
    (item.completedAt.map printing.toRfc3339).getD []]

/-- The fields of an item. -/
def record (headers : List Text) (item : Item ν τ) : List Text :=
  headers.map (cell printing (item.rowJson.asObject.getD [])) ++ jobCells printing item

theorem csvEscape_eq (value : Text) : csvEscape value = rfc4180.escape value := by
  have marked : (value.contains ',' || value.contains '\n' || value.contains '\r' ||
      value.contains '"') = value.any (rfc4180.IsMark ·) := by
    rw [Bool.eq_iff_iff]
    simp only [Bool.or_eq_true, List.contains_iff_mem, List.any_eq_true, decide_eq_true_eq,
      Marks.isMark_iff]
    constructor
    · rintro (((comma | newline) | carriage) | quote)
      · exact ⟨',', comma, .inl rfl⟩
      · exact ⟨'\n', newline, .inr (.inr (.inl rfl))⟩
      · exact ⟨'\r', carriage, .inr (.inr (.inr rfl))⟩
      · exact ⟨'"', quote, .inr (.inl rfl)⟩
    · rintro ⟨c, member, rfl | rfl | rfl | rfl⟩
      · exact .inl (.inl (.inl member))
      · exact .inr member
      · exact .inl (.inl (.inr member))
      · exact .inl (.inr member)
  have doubled : value.flatMap (fun c => if c = '"' then ['"', '"'] else [c]) =
      rfc4180.doubled value := by
    rw [Marks.doubled]
    congr 1
    funext c
    split
    case isTrue quote =>
      subst quote
      rfl
    case isFalse other => exact (if_neg other).symm
  rw [csvEscape, Marks.escape, marked, doubled]
  rfl

theorem line_eq (fields : List Text) :
    join [','] (fields.map csvEscape) ++ ['\n'] = rfc4180.writeRecord fields := by
  rw [Marks.writeRecord, ← funext csvEscape_eq]
  rfl

/-- A row with an object is the line of its fields. -/
theorem renderRow_eq {headers : List Text} {item : Item ν τ}
    (object : item.rowJson.asObject.isSome) :
    renderRow printing headers item = .ok (rfc4180.writeRecord (record printing headers item)) := by
  obtain ⟨entries, isObject⟩ := Option.isSome_iff_exists.mp object
  rw [renderRow, isObject, ← line_eq, record, isObject, List.map_append, List.map_map]
  rfl

theorem renderRows_eq {headers : List Text} {items : List (Item ν τ)}
    (objects : ∀ item ∈ items, item.rowJson.asObject.isSome) (csv : Text) :
    items.foldlM (fun csv item => do
        let row ← renderRow printing headers item
        return csv ++ row) csv =
      .ok (csv ++ rfc4180.write (items.map (record printing headers))) := by
  induction items generalizing csv with
  | nil => simp [Marks.write]; rfl
  | cons item items ih =>
      rw [List.foldlM_cons, renderRow_eq printing (objects item List.mem_cons_self)]
      have rest := ih (fun item member => objects item (List.mem_cons_of_mem _ member))
        (csv ++ rfc4180.writeRecord (record printing headers item))
      rw [List.append_assoc] at rest
      exact rest

/-- The exported table has the headers and the fields of all items, as they are. -/
theorem parse_renderJobCsv {headers : List Text} {items : List (Item ν τ)}
    (objects : ∀ item ∈ items, item.rowJson.asObject.isSome) :
    ∃ csv, renderJobCsv printing headers items = .ok csv ∧
      rfc4180.parse csv =
        some ((headers ++ jobHeaders) :: items.map (record printing headers)) := by
  refine ⟨rfc4180.write ((headers ++ jobHeaders) :: items.map (record printing headers)), ?_, ?_⟩
  · rw [renderJobCsv, renderRows_eq printing objects, line_eq]
    rfl
  · apply Marks.parse_write
    intro fields member empty
    obtain rfl | member := List.mem_cons.mp member
    · exact absurd (List.append_eq_nil_iff.mp empty).2 (by decide)
    · obtain ⟨item, -, rfl⟩ := List.mem_map.mp member
      cases (List.append_eq_nil_iff.mp empty).2

theorem parse_renderJobCsv_breaks :
    ∃ csv, renderJobCsv ⟨intText, intText⟩ ["a,b".toList]
        [⟨"job".toList, "item".toList, 0, none, .object [("a,b".toList, .string "\"\n".toList)],
          .completed, 1, some .null, none, none, none⟩] = .ok csv ∧
      rfc4180.parse csv = some [["a,b".toList] ++ jobHeaders,
        ["\"\n".toList, "job".toList, "item".toList, "0".toList, [], "completed".toList, "1".toList,
          [], "null".toList, [], []]] :=
  parse_renderJobCsv ⟨intText, intText⟩ (by simp [Value.asObject])

end Csv
end CodexPilot.AgentJobs
