import CodexPilot.Config.Documents
import CodexPilot.Config.Layers

/-!
# Rules for skills

The loader reads the entries of `skills.config` in either notation, and the last one for a selector
wins.  The writer edits the first entry that it reads as the selector, and knows the entries of an
array of tables only.
-/

namespace CodexPilot.Config

open RustStd Entries

/-- The values that the loader and the writer tell apart; anything else is `other`. -/
inductive SkillValue where
  | string (text : Text)
  | boolean (value : Bool)
  | array (items : List (TomlItem SkillValue))
  | other

/-- An item of the configuration. -/
abbrev SkillItem := TomlItem SkillValue

/-- An entry under `skills.config`. -/
abbrev SkillTable := Document SkillValue

/-- What the running environment makes of the text of a path. -/
structure SkillPaths (Path : Type) where
  /-- `AbsolutePathBuf::deserialize`. -/
  absolute : Text → Option Text
  /-- `dunce::canonicalize`, or the path itself where that fails. -/
  canonical : Text → Path
  /-- `Path::to_string_lossy`. -/
  toText : Path → Text
  /-- A path that has been loaded is loaded again as it is. -/
  reloads : ∀ {text path}, absolute text = some path →
    (absolute (toText (canonical path))).map canonical = some (canonical path)

/-- `SkillConfigSelector`, and `SkillConfigRuleSelector`. -/
inductive SkillConfigSelector (Path : Type) where
  | name (name : Text)
  | path (path : Path)
  deriving DecidableEq

/-- `SkillConfigRule`. -/
structure SkillConfigRule (Path : Type) where
  selector : SkillConfigSelector Path
  enabled : Bool
  deriving DecidableEq

/-- `SkillConfig`, with the path as the text of an `AbsolutePathBuf`. -/
structure SkillConfig where
  path : Option Text
  name : Option Text
  enabled : Bool

/-! ## The loader -/

/-- `as_str`. -/
def SkillItem.asStr : SkillItem → Option Text
  | .value (.string text) => some text
  | _ => none

/-- `as_bool`. -/
def SkillItem.asBool : SkillItem → Option Bool
  | .value (.boolean value) => some value
  | _ => none

/-- The value of a key that may be left out; none where it is not read. -/
def optional {ν : Type*} (read : SkillItem → Option ν) (table : SkillTable) (key : Text) :
    Option (Option ν) :=
  match table.lookup key with
  | none => some none
  | some item => (read item).map some

section Environment

variable {Path : Type} [DecidableEq Path] (paths : SkillPaths Path)

/-- Deserialize a `SkillConfig`. -/
def deserializeSkillConfig (table : SkillTable) : Option SkillConfig := do
  let path ← optional (fun item => (SkillItem.asStr item).bind paths.absolute) table "path".toList
  let name ← optional SkillItem.asStr table "name".toList
  let enabled ← (table.lookup "enabled".toList).bind SkillItem.asBool
  some { path, name, enabled }

/-- The tables of an array, in either notation. -/
def tablesOf : Option SkillItem → Option (List SkillTable)
  | none => some []
  | some (.arrayOfTables tables) => some tables
  | some (.value (.array items)) => items.mapM TomlItem.ensureTableForRead
  | some _ => none

/-- `bundled` is absent, or a table in which `enabled` is absent or a boolean. -/
def bundledIsValid : Option SkillItem → Bool
  | none => true
  | some item =>
      match item.ensureTableForRead with
      | none => false
      | some table => (optional SkillItem.asBool table "enabled".toList).isSome

/-- Deserialize a `SkillsConfig`: its list of entries. -/
def deserializeSkillsConfig (item : SkillItem) : Option (List SkillConfig) := do
  let skills ← item.ensureTableForRead
  if bundledIsValid (skills.lookup "bundled".toList) then
    let tables ← tablesOf (skills.lookup "config".toList)
    tables.mapM (deserializeSkillConfig paths)
  else none

/-- `skill_config_rule_selector`. -/
def skillConfigRuleSelector (entry : SkillConfig) : Option (SkillConfigSelector Path) :=
  match entry.path, entry.name with
  | some path, none => some (.path (paths.canonical path))
  | none, some name => if name.trim = [] then none else some (.name name.trim)
  | some _, some _ => none
  | none, none => none

/-- Replace the rule for a selector. -/
def putRule (entries : List (SkillConfigRule Path)) (rule : SkillConfigRule Path) :
    List (SkillConfigRule Path) :=
  entries.filter (fun entry => entry.selector ≠ rule.selector) ++ [rule]

/-- One entry of a layer. -/
def pushEntry (entries : List (SkillConfigRule Path)) (entry : SkillConfig) :
    List (SkillConfigRule Path) :=
  match skillConfigRuleSelector paths entry with
  | none => entries
  | some selector => putRule entries ⟨selector, entry.enabled⟩

/-- `skill_config_rules_from_stack`, over the layers from the lowest precedence up. -/
def skillConfigRulesFromStack (layers : List (ConfigLayerSource × Document SkillValue)) :
    List (SkillConfigRule Path) :=
  layers.foldl
    (fun entries layer =>
      match layer.1 with
      | .user _ | .sessionFlags =>
          match layer.2.lookup "skills".toList with
          | none => entries
          | some skills =>
              match deserializeSkillsConfig paths skills with
              | none => entries
              | some config => config.foldl (pushEntry paths) entries
      | _ => entries)
    []

/-! ## The writer -/

/-- `skill_config_selector_from_table`. -/
def skillConfigSelectorFromTable (table : SkillTable) : Option (SkillConfigSelector Path) :=
  let path := ((table.lookup "path".toList).bind SkillItem.asStr).map fun path =>
    SkillConfigSelector.path (paths.canonical path)
  let name := ((((table.lookup "name".toList).bind SkillItem.asStr).map Text.trim).filter
    (· ≠ [])).map SkillConfigSelector.name
  match path, name with
  | some selector, none | none, some selector => some selector
  | _, _ => none

/-- `write_skill_config_selector`. -/
def writeSkillConfigSelector (table : SkillTable) : SkillConfigSelector Path → SkillTable
  | .name name => set "name".toList (.value (.string name)) (erase "path".toList table)
  | .path path =>
      set "path".toList (.value (.string (paths.toText path))) (erase "name".toList table)

/-- A table that disables a selector. -/
def disabledEntry (selector : SkillConfigSelector Path) (table : SkillTable) : SkillTable :=
  set "enabled".toList (.value (.boolean false)) (writeSkillConfigSelector paths table selector)

/-- Whether the writer reads a table as the selector. -/
def isFor (selector : SkillConfigSelector Path) (table : SkillTable) : Bool :=
  skillConfigSelectorFromTable paths table = some selector

/-- Set or clear the entry of a selector in an array of tables. -/
def editOverrides (overrides : List SkillTable) (selector : SkillConfigSelector Path)
    (enabled : Bool) : Bool × List SkillTable :=
  match overrides.findIdx? (isFor paths selector), enabled with
  | some index, true => (true, overrides.eraseIdx index)
  | some index, false => (true, overrides.modify index (disabledEntry paths selector))
  | none, true => (false, overrides)
  | none, false => (true, overrides ++ [disabledEntry paths selector []])

/-- Set or clear the entry of a selector in the table of the skills. -/
def editSkills (skills : SkillTable) (selector : SkillConfigSelector Path) (enabled : Bool) :
    Bool × SkillTable :=
  match skills.lookup "config".toList, enabled with
  | some (.arrayOfTables overrides), true =>
      let (mutated, overrides) := editOverrides paths overrides selector true
      if mutated ∧ overrides = [] then (true, erase "config".toList skills)
      else (mutated, set "config".toList (.arrayOfTables overrides) skills)
  | _, true => (false, skills)
  | item, false =>
      let overrides := match item with
        | some (.arrayOfTables overrides) => overrides
        | _ => []
      let (mutated, overrides) := editOverrides paths overrides selector false
      (mutated, set "config".toList (.arrayOfTables overrides) skills)

/-- The selector with the name trimmed and the path normalized. -/
def normalizeSelector : SkillConfigSelector Text → SkillConfigSelector Path
  | .name name => .name name.trim
  | .path path => .path (paths.canonical path)

/-- `set_skill_config`. -/
def setSkillConfig (document : Document SkillValue) (selector : SkillConfigSelector Text)
    (enabled : Bool) : Bool × Document SkillValue :=
  let selector := normalizeSelector paths selector
  if selector = .name [] then (false, document)
  else
    match (document.lookup "skills".toList).bind TomlItem.ensureTableForWrite, enabled with
    | none, true => (false, document)
    | skills?, _ =>
        let (mutated, skills) := editSkills paths (skills?.getD []) selector enabled
        if enabled ∧ mutated ∧ skills = [] then (true, erase "skills".toList document)
        else (mutated, set "skills".toList (.table skills) document)

/-- The document of the file behind the edit: what has not been mutated is not written. -/
def applySkillConfig (document : Document SkillValue) (selector : SkillConfigSelector Text)
    (enabled : Bool) : Document SkillValue :=
  let (mutated, copy) := setSkillConfig paths document selector enabled
  if mutated then copy else document

end Environment

end CodexPilot.Config
