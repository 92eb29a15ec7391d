import CodexPilot.ExecPolicy.Appends

/-!
# The values of a row

The row of an item is a JSON value, as `serde_json` has it: the entries of an object stand in the
order in which they are iterated.  How a number is printed is a parameter.
-/

namespace CodexPilot.AgentJobs

open RustStd Text ExecPolicy

/-- `serde_json::Value`. -/
inductive Value (ν : Type) where
  | null
  | bool (value : Bool)
  | number (value : ν)
  | string (text : Text)
  | array (items : List (Value ν))
  | object (entries : List (Text × Value ν))

namespace Value

variable {ν : Type}

/-- `as_object`. -/
def asObject : Value ν → Option (List (Text × Value ν))
  | object entries => some entries
  | _ => none

/-- `as_str`. -/
def asStr : Value ν → Option Text
  | string text => some text
  | _ => none

def boolText (value : Bool) : Text := if value then "true".toList else "false".toList

mutual

/-- `to_string`: without white space. -/
def toText (numberText : ν → Text) : Value ν → Text
  | null => "null".toList
  | bool value => boolText value
  | number value => numberText value
  | string text => jsonString text
  | array items => ['['] ++ join [','] (itemTexts numberText items) ++ [']']
  | object entries => ['\x7b'] ++ join [','] (entryTexts numberText entries) ++ ['\x7d']

def itemTexts (numberText : ν → Text) : List (Value ν) → List Text
  | [] => []
  | item :: items => item.toText numberText :: itemTexts numberText items

def entryTexts (numberText : ν → Text) : List (Text × Value ν) → List Text
  | [] => []
  | (key, value) :: entries =>
      (jsonString key ++ [':'] ++ value.toText numberText) :: entryTexts numberText entries

end

example : toText (fun n : ℕ => (toString n).toList)
    (.object [(['a'], .array [.null, .number 1]), (['b'], .string ['"'])]) =
      "\x7b\"a\":[null,1],\"b\":\"\\\"\"\x7d".toList := by decide

end Value

end CodexPilot.AgentJobs
