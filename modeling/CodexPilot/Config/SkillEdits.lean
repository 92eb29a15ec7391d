import CodexPilot.Config.SkillRules

/-!
# Skills that are enabled and disabled

The rules of a user layer are what the last entry for each selector says.  An edit takes effect, and
leaves the other selectors alone, exactly when the entry that it changes is the one that decides:
when no other entry overrides it, and when it decides nothing else.
-/

namespace CodexPilot.Config

open RustStd Entries

section Loading

variable {Path : Type} [DecidableEq Path] (paths : SkillPaths Path)

/-- The rule that the loader reads in an entry. -/
def ruleOf (table : SkillTable) : Option (SkillConfigRule Path) :=
  (deserializeSkillConfig paths table).bind fun entry =>
    (skillConfigRuleSelector paths entry).map fun selector => ⟨selector, entry.enabled⟩

/-- What an entry says about a selector. -/
def verdict (selector : SkillConfigSelector Path) (table : SkillTable) : Option Bool :=
  (ruleOf paths table).bind fun rule =>
    if rule.selector = selector then some rule.enabled else none

/-- What the last entry for a selector says. -/
def decision (tables : List SkillTable) (selector : SkillConfigSelector Path) : Option Bool :=
  tables.reverse.findSome? (verdict paths selector)

/-- The rules with one more entry. -/
def putEntry (rules : List (SkillConfigRule Path)) (table : SkillTable) :
    List (SkillConfigRule Path) :=
  match ruleOf paths table with
  | none => rules
  | some rule => putRule rules rule

/-- The loader can read an entry. -/
def readable (table : SkillTable) : Bool := (deserializeSkillConfig paths table).isSome

/-- The entries of a table of skills that the loader accepts. -/
def loadedSkills (skills : SkillTable) : Option (List SkillTable) :=
  if bundledIsValid (skills.lookup "bundled".toList) then
    (tablesOf (skills.lookup "config".toList)).filter fun tables => tables.all (readable paths)
  else none

/-- The entries of a document whose skills the loader accepts. -/
def loadedTables (document : Document SkillValue) : Option (List SkillTable) :=
  match document.lookup "skills".toList with
  | none => some []
  | some item => item.ensureTableForRead.bind (loadedSkills paths)

variable {paths} {tables front back : List SkillTable} {table skills : SkillTable}
  {selector : SkillConfigSelector Path} {document : Document SkillValue}

@[simp]
theorem decision_nil : decision paths [] selector = none := rfl

theorem decision_append :
    decision paths (front ++ back) selector =
      (decision paths back selector).or (decision paths front selector) := by
  rw [decision, List.reverse_append, List.findSome?_append]
  rfl

@[simp]
theorem decision_singleton : decision paths [table] selector = verdict paths selector table := by
  rw [decision, List.reverse_singleton, List.findSome?_singleton]

theorem decision_split :
    decision paths (front ++ table :: back) selector =
      (decision paths back selector).or
        ((verdict paths selector table).or (decision paths front selector)) := by
  rw [List.append_cons, decision_append, decision_append, decision_singleton]

theorem mem_putRule {rules : List (SkillConfigRule Path)} {rule added : SkillConfigRule Path} :
    rule ∈ putRule rules added ↔
      (rule ∈ rules ∧ rule.selector ≠ added.selector) ∨ rule = added := by
  simp [putRule]

/-- The rules are what the last entries say. -/
theorem mem_foldl_putEntry {rule : SkillConfigRule Path} :
    rule ∈ tables.foldl (putEntry paths) [] ↔
      decision paths tables rule.selector = some rule.enabled := by
  induction tables using List.reverseRecOn with
  | nil => simp
  | append_singleton tables table ih =>
      rw [List.foldl_append, List.foldl_cons, List.foldl_nil, putEntry, decision_append,
        decision_singleton, verdict]
      cases found : ruleOf paths table with
      | none => exact ih
      | some added =>
          dsimp only
          rw [mem_putRule, ih, Option.bind_some]
          by_cases same : added.selector = rule.selector
          · rw [if_pos same, Option.some_or, Option.some.injEq]
            constructor
            · rintro (⟨-, differ⟩ | rfl)
              · exact absurd same.symm differ
              · rfl
            · intro enabled
              right
              cases rule
              cases added
              simp_all
          · rw [if_neg same, Option.none_or]
            constructor
            · rintro (⟨decided, -⟩ | rfl)
              · exact decided
              · exact absurd rfl same
            · exact fun decided => .inl ⟨decided, Ne.symm same⟩

theorem foldl_pushEntry {entries : List SkillConfig}
    (read : tables.mapM (deserializeSkillConfig paths) = some entries)
    (rules : List (SkillConfigRule Path)) :
    entries.foldl (pushEntry paths) rules = tables.foldl (putEntry paths) rules := by
  induction tables generalizing entries rules with
  | nil =>
      rw [List.mapM_nil] at read
      cases read
      rfl
  | cons table tables ih =>
      rw [List.mapM_cons] at read
      obtain ⟨entry, first, later⟩ := Option.bind_eq_some_iff.mp read
      obtain ⟨others, rest, same⟩ := Option.bind_eq_some_iff.mp later
      cases same
      rw [List.foldl_cons, List.foldl_cons, ih rest]
      congr 1
      rw [pushEntry, putEntry, ruleOf, first, Option.bind_some]
      cases skillConfigRuleSelector paths entry with
      | none | some selector => rfl

theorem isSome_mapM {ν μ : Type} (read : ν → Option μ) (items : List ν) :
    (items.mapM read).isSome = items.all fun item => (read item).isSome := by
  induction items with
  | nil => rfl
  | cons item items ih =>
      rw [List.mapM_cons, List.all_cons, ← ih]
      cases read item with
      | none => rfl
      | some value => cases items.mapM read <;> rfl

/-- The rules of a user layer are those of its entries. -/
theorem skillConfigRulesFromStack_user (file : AbsolutePathBuf) :
    skillConfigRulesFromStack paths [(.user file, document)] =
      ((loadedTables paths document).getD []).foldl (putEntry paths) [] := by
  rw [skillConfigRulesFromStack, List.foldl_cons, List.foldl_nil, loadedTables]
  dsimp only
  cases document.lookup "skills".toList with
  | none => rfl
  | some item =>
      dsimp only
      rw [deserializeSkillsConfig]
      cases item.ensureTableForRead with
      | none => rfl
      | some skills =>
          rw [Option.bind_some, loadedSkills]
          simp only [Option.bind_eq_bind, Option.bind_some]
          cases bundledIsValid (skills.lookup "bundled".toList) with
          | false => rfl
          | true =>
              cases tablesOf (skills.lookup "config".toList) with
              | none => rfl
              | some tables =>
                  simp only [if_true, Option.bind_some]
                  have accepted := isSome_mapM (deserializeSkillConfig paths) tables
                  cases read : tables.mapM (deserializeSkillConfig paths) with
                  | none =>
                      rw [read] at accepted
                      rw [Option.filter_some_neg (by simpa [readable] using accepted)]
                      rfl
                  | some entries =>
                      rw [read] at accepted
                      rw [Option.filter_some_pos (by simpa [readable] using accepted)]
                      exact foldl_pushEntry read []

theorem mem_rules_iff {file : AbsolutePathBuf} {rule : SkillConfigRule Path}
    (loaded : loadedTables paths document = some tables) :
    rule ∈ skillConfigRulesFromStack paths [(.user file, document)] ↔
      decision paths tables rule.selector = some rule.enabled := by
  rw [skillConfigRulesFromStack_user, loaded, Option.getD_some, mem_foldl_putEntry]

end Loading

section Editing

variable {Path : Type} [DecidableEq Path] (paths : SkillPaths Path)

/-- The item `skills.config`. -/
def configItem (document : Document SkillValue) : Option SkillItem :=
  ((document.lookup "skills".toList).bind TomlItem.ensureTableForRead).bind
    (·.lookup "config".toList)

/-- The entries of an array of tables, which the writer knows. -/
def writtenIn : Option SkillItem → List SkillTable
  | some (.arrayOfTables tables) => tables
  | _ => []

/-- The entries of an inline array, which the writer does not know. -/
def inlineIn : Option SkillItem → List SkillTable
  | some (.value (.array items)) => (items.mapM TomlItem.ensureTableForRead).getD []
  | _ => []

/-- The entries of an array of tables in which a selector is disabled. -/
def disabledIn (tables : List SkillTable) (selector : SkillConfigSelector Path) : List SkillTable :=
  (editOverrides paths tables selector false).2

variable {paths} {tables front back : List SkillTable} {table skills : SkillTable}
  {selector : SkillConfigSelector Path} {document : Document SkillValue} {item : Option SkillItem}

theorem tablesOf_eq_some (read : tablesOf item = some tables) :
    tables = inlineIn item ++ writtenIn item := by
  match item with
  | none | some (.arrayOfTables tables') => cases read; rfl
  | some (.value (.array items)) =>
      rw [tablesOf] at read
      rw [inlineIn, read]
      exact (List.append_nil _).symm
  | some (.value (.string _)) | some (.value (.boolean _)) | some (.value .other)
  | some (.table _) | some (.inlineTable _) => cases read

omit [DecidableEq Path] in
theorem loadedSkills_eq_some_iff :
    loadedSkills paths skills = some tables ↔
      bundledIsValid (skills.lookup "bundled".toList) = true ∧
        tablesOf (skills.lookup "config".toList) = some tables ∧
          ∀ table ∈ tables, readable paths table = true := by
  rw [loadedSkills]
  split
  case isTrue valid =>
    rw [Option.filter_eq_some_iff, List.all_eq_true]
    exact ⟨fun accepted => ⟨valid, accepted⟩, fun accepted => accepted.2⟩
  case isFalse invalid =>
    exact ⟨fun absent => (by cases absent), fun accepted => absurd accepted.1 invalid⟩

theorem editOverrides_true (paths : SkillPaths Path) (selector : SkillConfigSelector Path)
    (overrides : List SkillTable) :
    (editOverrides paths overrides selector true).2 =
        overrides.eraseP (isFor paths selector) ∧
      ((editOverrides paths overrides selector true).1 = false →
        overrides.eraseP (isFor paths selector) = overrides) := by
  unfold editOverrides
  rw [List.eraseP_eq_eraseIdx]
  cases overrides.findIdx? (isFor paths selector) with
  | none => exact ⟨rfl, fun _ => rfl⟩
  | some index => exact ⟨rfl, fun unchanged => by cases unchanged⟩

/-- Enabling takes the first entry for the selector out of an array of tables. -/
theorem editSkills_true (selector : SkillConfigSelector Path)
    (loaded : loadedSkills paths skills = some tables) :
    loadedSkills paths (editSkills paths skills selector true).2 =
        some (inlineIn (skills.lookup "config".toList) ++
          (writtenIn (skills.lookup "config".toList)).eraseP (isFor paths selector)) ∧
      ((editSkills paths skills selector true).1 = false →
        (writtenIn (skills.lookup "config".toList)).eraseP (isFor paths selector) =
          writtenIn (skills.lookup "config".toList)) := by
  obtain ⟨valid, read, all⟩ := loadedSkills_eq_some_iff.mp loaded
  have whole := tablesOf_eq_some read
  match found : skills.lookup "config".toList with
  | some (.arrayOfTables overrides) =>
      obtain ⟨left, unchanged⟩ := editOverrides_true paths selector overrides
      have accepted : ∀ table ∈ overrides.eraseP (isFor paths selector),
          readable paths table = true := by
        rw [found] at whole
        subst whole
        exact fun table member => all table (List.mem_of_mem_eraseP member)
      unfold editSkills
      rw [found]
      simp only [inlineIn, writtenIn, List.nil_append]
      rw [left]
      split
      case isTrue emptied =>
        refine ⟨?_, fun unmutated => by cases unmutated⟩
        rw [loadedSkills_eq_some_iff, lookup_erase_self, lookup_erase_of_ne (by decide)]
        rw [emptied.2] at accepted ⊢
        exact ⟨valid, rfl, accepted⟩
      case isFalse =>
        refine ⟨?_, unchanged⟩
        rw [loadedSkills_eq_some_iff, lookup_set_self, lookup_set_of_ne (by decide)]
        exact ⟨valid, rfl, accepted⟩
  | none | some (.table _) | some (.inlineTable _) | some (.value _) =>
      unfold editSkills
      rw [found] at whole ⊢
      dsimp only
      refine ⟨?_, fun _ => rfl⟩
      rw [loaded, whole]
      rfl

/-- Disabling leaves the entries of an array of tables, with one for the selector. -/
theorem editSkills_false (selector : SkillConfigSelector Path)
    (loaded : loadedSkills paths skills = some tables) :
    (editSkills paths skills selector false).1 = true ∧
      loadedSkills paths (editSkills paths skills selector false).2 =
        (some (disabledIn paths (writtenIn (skills.lookup "config".toList)) selector)).filter
          fun tables => tables.all (readable paths) := by
  obtain ⟨valid, -, -⟩ := loadedSkills_eq_some_iff.mp loaded
  have written (overrides : List SkillTable) :
      loadedSkills paths (set "config".toList (.arrayOfTables overrides) skills) =
        (some overrides).filter fun tables => tables.all (readable paths) := by
    rw [loadedSkills, lookup_set_of_ne (by decide), lookup_set_self, if_pos valid]
    rfl
  have mutated (overrides : List SkillTable) :
      (editOverrides paths overrides selector false).1 = true := by
    unfold editOverrides
    cases overrides.findIdx? (isFor paths selector) <;> rfl
  match found : skills.lookup "config".toList with
  | some (.arrayOfTables overrides) =>
      unfold editSkills
      rw [found]
      exact ⟨mutated overrides, written _⟩
  | none | some (.table _) | some (.inlineTable _) | some (.value _) =>
      unfold editSkills
      rw [found]
      exact ⟨mutated [], written _⟩

theorem ensureTableForWrite_of_read {item : SkillItem}
    (read : item.ensureTableForRead = some skills) : item.ensureTableForWrite = some skills := by
  cases item with
  | table entries | inlineTable entries => exact read
  | value value | arrayOfTables tables => cases read

omit [DecidableEq Path] in
/-- The skills of a document that the loader accepts are absent, or in a table. -/
theorem loadedTables_cases (loaded : loadedTables paths document = some tables) :
    (document.lookup "skills".toList = none ∧ tables = []) ∨
      ∃ skills, (document.lookup "skills".toList).bind TomlItem.ensureTableForRead = some skills ∧
        (document.lookup "skills".toList).bind TomlItem.ensureTableForWrite = some skills ∧
          configItem document = skills.lookup "config".toList ∧
            loadedSkills paths skills = some tables := by
  rw [loadedTables] at loaded
  rw [configItem]
  cases found : document.lookup "skills".toList with
  | none =>
      rw [found] at loaded
      cases loaded
      exact .inl ⟨rfl, rfl⟩
  | some item =>
      rw [found] at loaded
      obtain ⟨skills, read, accepted⟩ := Option.bind_eq_some_iff.mp loaded
      refine .inr ⟨skills, read, ensureTableForWrite_of_read read, ?_, accepted⟩
      rw [Option.bind_some, read, Option.bind_some]

omit [DecidableEq Path] in
theorem entries_eq (loaded : loadedTables paths document = some tables) :
    tables = inlineIn (configItem document) ++ writtenIn (configItem document) := by
  rcases loadedTables_cases loaded with ⟨absent, rfl⟩ | ⟨skills, -, -, item, accepted⟩
  · rw [configItem, absent]
    rfl
  · rw [item]
    exact tablesOf_eq_some (loadedSkills_eq_some_iff.mp accepted).2.1

omit [DecidableEq Path] in
theorem loadedTables_set :
    loadedTables paths (set "skills".toList (.table skills) document) =
      loadedSkills paths skills := by
  rw [loadedTables, lookup_set_self]
  rfl

theorem not_isFor_blank (table : SkillTable) : isFor paths (.name []) table = false := by
  rw [isFor, decide_eq_false_iff_not, skillConfigSelectorFromTable]
  cases (table.lookup "path".toList).bind SkillItem.asStr with
  | some path | none =>
      cases ((table.lookup "name".toList).bind SkillItem.asStr).map Text.trim with
      | none => simp
      | some name => by_cases blank : name = [] <;> simp [blank, Option.filter]

theorem applySkillConfig_of_blank {request : SkillConfigSelector Text} {enabled : Bool}
    (blank : normalizeSelector paths request = .name []) :
    applySkillConfig paths document request enabled = document := by
  unfold applySkillConfig setSkillConfig
  rw [if_pos blank]
  rfl

/-- Where the writer finds or makes a table of skills, it edits that. -/
theorem applySkillConfig_of_skills {request : SkillConfigSelector Text} {enabled : Bool}
    (named : normalizeSelector paths request ≠ .name [])
    (writes : ((document.lookup "skills".toList).bind TomlItem.ensureTableForWrite).getD [] =
      skills) (known : enabled = true →
      ((document.lookup "skills".toList).bind TomlItem.ensureTableForWrite).isSome = true) :
    loadedTables paths (applySkillConfig paths document request enabled) =
      if (editSkills paths skills (normalizeSelector paths request) enabled).1 = true then
        loadedSkills paths (editSkills paths skills (normalizeSelector paths request) enabled).2
      else loadedTables paths document := by
  have edited : setSkillConfig paths document request enabled =
      if enabled = true ∧
          (editSkills paths skills (normalizeSelector paths request) enabled).1 = true ∧
            (editSkills paths skills (normalizeSelector paths request) enabled).2 = [] then
        (true, erase "skills".toList document)
      else ((editSkills paths skills (normalizeSelector paths request) enabled).1,
        set "skills".toList
          (.table (editSkills paths skills (normalizeSelector paths request) enabled).2)
          document) := by
    unfold setSkillConfig
    rw [if_neg named]
    subst writes
    cases found : (document.lookup "skills".toList).bind TomlItem.ensureTableForWrite with
    | none =>
        cases enabled with
        | false => rfl
        | true =>
            rw [found] at known
            cases known rfl
    | some skills => rfl
  rw [applySkillConfig, edited]
  generalize editSkills paths skills (normalizeSelector paths request) enabled = outcome
  obtain ⟨mutated, skills'⟩ := outcome
  dsimp only
  split
  case isTrue emptied =>
    obtain ⟨-, rfl, rfl⟩ := emptied
    rw [if_pos rfl, if_pos rfl, loadedTables, lookup_erase_self]
    rfl
  case isFalse =>
    split
    case isTrue => exact loadedTables_set
    case isFalse => rfl

/-- Enabling a selector takes the first entry for it out of the array of tables. -/
theorem loadedTables_enabled (loaded : loadedTables paths document = some tables)
    (request : SkillConfigSelector Text) :
    loadedTables paths (applySkillConfig paths document request true) =
      some (inlineIn (configItem document) ++
        (writtenIn (configItem document)).eraseP
          (isFor paths (normalizeSelector paths request))) := by
  have whole := entries_eq loaded
  by_cases blank : normalizeSelector paths request = .name []
  · rw [applySkillConfig_of_blank blank, blank,
      List.eraseP_of_forall_not fun table _ => by simp [not_isFor_blank], ← whole]
    exact loaded
  · rcases loadedTables_cases loaded with ⟨absent, rfl⟩ | ⟨skills, -, writes, item, accepted⟩
    · have unchanged : applySkillConfig paths document request true = document := by
        unfold applySkillConfig setSkillConfig
        rw [if_neg blank, absent]
        rfl
      rw [unchanged, configItem, absent]
      exact loaded
    · obtain ⟨left, unchanged⟩ :=
        editSkills_true (normalizeSelector paths request) accepted
      rw [applySkillConfig_of_skills blank (by rw [writes, Option.getD_some])
        fun _ => by rw [writes, Option.isSome_some], item]
      rw [item] at whole
      split
      case isTrue => exact left
      case isFalse unmutated =>
        rw [unchanged (Bool.eq_false_iff.mpr unmutated), ← whole]
        exact loaded

/-- Disabling a selector leaves the entries of the array of tables, with one that disables it. -/
theorem loadedTables_disabled (loaded : loadedTables paths document = some tables)
    {request : SkillConfigSelector Text} (named : normalizeSelector paths request ≠ .name []) :
    loadedTables paths (applySkillConfig paths document request false) =
      (some (disabledIn paths (writtenIn (configItem document))
        (normalizeSelector paths request))).filter fun tables => tables.all (readable paths) := by
  rcases loadedTables_cases loaded with ⟨absent, rfl⟩ | ⟨skills, -, writes, item, accepted⟩
  · have empty : loadedSkills paths [] = some [] := rfl
    have writes : ((document.lookup "skills".toList).bind
        TomlItem.ensureTableForWrite).getD [] = ([] : SkillTable) := by
      rw [absent]
      rfl
    obtain ⟨mutated, left⟩ := editSkills_false (normalizeSelector paths request) empty
    rw [applySkillConfig_of_skills named writes (fun enabling => by cases enabling),
      if_pos mutated, left, configItem, absent]
    rfl
  · obtain ⟨mutated, left⟩ :=
      editSkills_false (normalizeSelector paths request) accepted
    rw [applySkillConfig_of_skills named (by rw [writes, Option.getD_some])
      (fun enabling => by cases enabling), if_pos mutated, left, item]

end Editing

section Effect

variable {Path : Type} [DecidableEq Path] (paths : SkillPaths Path)

/-- The loader reads a selector back from what the writer writes for it. -/
def ReadsBack : SkillConfigSelector Path → Prop
  | .name name => name ≠ []
  | .path path => (paths.absolute (paths.toText path)).map paths.canonical = some path

/-- The entries but the first one that the writer reads as the selector. -/
def others (document : Document SkillValue) (selector : SkillConfigSelector Path) :
    List SkillTable :=
  inlineIn (configItem document) ++ (writtenIn (configItem document)).eraseP (isFor paths selector)

/-- The entries behind the first one that the writer reads as the selector. -/
def behindFirst (document : Document SkillValue) (selector : SkillConfigSelector Path) :
    List SkillTable :=
  ((writtenIn (configItem document)).dropWhile fun table => !isFor paths selector table).tail

/-- The entry that an edit changes is the one that decides: no other one overrides it, and it
decides no other selector. -/
structure Unhindered (document : Document SkillValue) (selector : SkillConfigSelector Path)
    (enabled : Bool) : Prop where
  alone : ∀ entry rule,
    (writtenIn (configItem document)).find? (isFor paths selector) = some entry →
      ruleOf paths entry = some rule → rule.selector ≠ selector →
        decision paths (behindFirst paths document selector) rule.selector = none →
          decision paths (others paths document selector) rule.selector = some rule.enabled
  enables : enabled = true → decision paths (others paths document selector) selector ≠ some false
  disables : enabled = false → ReadsBack paths selector ∧
    decision paths (behindFirst paths document selector) selector ≠ some true ∧
      ∀ table ∈ inlineIn (configItem document), ∀ rule,
        ruleOf paths table = some rule → rule.selector = selector

/-- An edit takes effect: the rules of the user layer disable the selector exactly when it is not to
be enabled, and the rules for the other selectors are what they were. -/
def TakesEffect (file : AbsolutePathBuf) (document : Document SkillValue)
    (request : SkillConfigSelector Text) (enabled : Bool) : Prop :=
  let selector := normalizeSelector paths request
  let before := skillConfigRulesFromStack paths [(.user file, document)]
  let after := skillConfigRulesFromStack paths
    [(.user file, applySkillConfig paths document request enabled)]
  ((⟨selector, false⟩ : SkillConfigRule Path) ∈ after ↔ enabled = false) ∧
    ∀ rule : SkillConfigRule Path, rule.selector ≠ selector → (rule ∈ after ↔ rule ∈ before)

variable {paths} {tables front back : List SkillTable} {table entry : SkillTable}
  {selector other : SkillConfigSelector Path} {document : Document SkillValue} {enabled : Bool}

theorem verdict_eq_some_iff :
    verdict paths selector table = some enabled ↔ ruleOf paths table =
      some ⟨selector, enabled⟩ := by
  rw [verdict]
  cases ruleOf paths table with
  | none => simp
  | some rule =>
      obtain ⟨selector', enabled'⟩ := rule
      by_cases same : selector' = selector <;> simp [same]

theorem exists_of_decision (decided : decision paths tables selector = some enabled) :
    ∃ table ∈ tables, ruleOf paths table = some ⟨selector, enabled⟩ := by
  obtain ⟨table, member, found⟩ := List.exists_of_findSome?_eq_some decided
  exact ⟨table, List.mem_reverse.mp member, verdict_eq_some_iff.mp found⟩

theorem exists_decision (member : table ∈ tables)
    (rule : ruleOf paths table = some ⟨selector, enabled⟩) :
    ∃ decided, decision paths tables selector = some decided := by
  obtain ⟨front, back, rfl⟩ := List.append_of_mem member
  rw [decision_split, verdict_eq_some_iff.mpr rule, Option.some_or]
  cases decision paths back selector with
  | none => exact ⟨enabled, rfl⟩
  | some decided => exact ⟨decided, rfl⟩

omit [DecidableEq Path] in
theorem exists_text_of_deserializeSkillConfig {entry : SkillConfig} {path : Text}
    (read : deserializeSkillConfig paths table = some entry) (shown : entry.path = some path) :
    ∃ text, paths.absolute text = some path := by
  simp only [deserializeSkillConfig, Option.bind_eq_bind, Option.bind_eq_some_iff] at read
  obtain ⟨path', readPath, name, -, enabled, -, same⟩ := read
  cases same
  rw [optional] at readPath
  dsimp only at shown
  subst shown
  split at readPath
  case h_1 => cases readPath
  case h_2 item _ =>
    obtain ⟨path', absolute, same⟩ := Option.map_eq_some_iff.mp readPath
    cases same
    obtain ⟨text, -, found⟩ := Option.bind_eq_some_iff.mp absolute
    exact ⟨text, found⟩

omit [DecidableEq Path] in
/-- A selector that the loader has read is read back. -/
theorem readsBack_of_ruleOf (found : ruleOf paths table = some ⟨selector, enabled⟩) :
    ReadsBack paths selector := by
  rw [ruleOf] at found
  obtain ⟨entry, read, found⟩ := Option.bind_eq_some_iff.mp found
  obtain ⟨selector', reads, same⟩ := Option.map_eq_some_iff.mp found
  cases same
  rw [skillConfigRuleSelector] at reads
  split at reads
  case h_1 path shown _ =>
    cases reads
    obtain ⟨text, absolute⟩ := exists_text_of_deserializeSkillConfig read shown
    exact paths.reloads absolute
  case h_2 name _ _ =>
    split at reads
    case isTrue => cases reads
    case isFalse nonblank =>
      cases reads
      exact nonblank
  case h_3 | h_4 => cases reads

omit [DecidableEq Path] in
theorem normalizeSelector_name {request : SkillConfigSelector Text} {name : Text}
    (same : normalizeSelector paths request = .name name) : name.trim = name := by
  cases request with
  | name name' =>
      cases same
      exact (Text.trim_trimEnd _).trans (Text.trim_trimStart _)
  | path path => cases same

omit [DecidableEq Path] in
theorem deserialize_disabledEntry_name (name : Text) (table : SkillTable) :
    deserializeSkillConfig paths (disabledEntry paths (.name name) table) =
      some ⟨none, some name, false⟩ := by
  rw [deserializeSkillConfig, disabledEntry, writeSkillConfigSelector, optional, optional,
    lookup_set_self, lookup_set_of_ne (by decide), lookup_set_of_ne (by decide), lookup_erase_self,
    lookup_set_of_ne (by decide), lookup_set_self]
  rfl

omit [DecidableEq Path] in
theorem deserialize_disabledEntry_path (path : Path) (table : SkillTable) :
    deserializeSkillConfig paths (disabledEntry paths (.path path) table) =
      (paths.absolute (paths.toText path)).map fun path => ⟨some path, none, false⟩ := by
  rw [deserializeSkillConfig, disabledEntry, writeSkillConfigSelector, optional, optional,
    lookup_set_self, lookup_set_of_ne (by decide), lookup_set_self, lookup_set_of_ne (by decide),
    lookup_set_of_ne (by decide), lookup_erase_self]
  change ((paths.absolute (paths.toText path)).map some).bind _ = _
  cases paths.absolute (paths.toText path) <;> rfl

omit [DecidableEq Path] in
/-- What the writer writes for a selector that is read back disables it. -/
theorem ruleOf_disabledEntry (trimmed : ∀ name, selector = .name name → name.trim = name)
    (back : ReadsBack paths selector) (table : SkillTable) :
    ruleOf paths (disabledEntry paths selector table) = some ⟨selector, false⟩ := by
  cases selector with
  | name name =>
      have nonblank : name ≠ [] := back
      rw [ruleOf, deserialize_disabledEntry_name, Option.bind_some, skillConfigRuleSelector]
      dsimp only
      rw [trimmed name rfl, if_neg nonblank]
      rfl
  | path path =>
      obtain ⟨text, absolute, same⟩ := Option.map_eq_some_iff.mp back
      rw [ruleOf, deserialize_disabledEntry_path, absolute, Option.map_some, Option.bind_some,
        skillConfigRuleSelector]
      dsimp only
      rw [same]
      rfl

theorem modify_length {ν : Type} (front back : List ν) (item : ν) (change : ν → ν) :
    (front ++ item :: back).modify front.length change = front ++ change item :: back := by
  induction front with
  | nil => rfl
  | cons first front ih => exact congrArg (first :: ·) ih

/-- A table of which the first one for a selector is known. -/
theorem editing_first (found : tables.find? (isFor paths selector) = some entry) :
    ∃ front back, tables = front ++ entry :: back ∧
      tables.eraseP (isFor paths selector) = front ++ back ∧
      (tables.dropWhile fun table => !isFor paths selector table).tail = back ∧
      disabledIn paths tables selector = front ++ disabledEntry paths selector entry :: back := by
  obtain ⟨own, front, back, rfl, fresh⟩ := List.find?_eq_some_iff_append.mp found
  have fresh' : ∀ table ∈ front, ¬isFor paths selector table = true := fun table member =>
    by simpa using fresh table member
  have index : (front ++ entry :: back).findIdx? (isFor paths selector) = some front.length := by
    rw [List.findIdx?_append, List.findIdx?_eq_none_iff.mpr (by simpa using fresh),
      Option.none_or, List.findIdx?_cons, if_pos own, Option.map_some, Nat.zero_add]
  refine ⟨front, back, rfl, ?_, ?_, ?_⟩
  · rw [List.eraseP_append_right _ fresh', List.eraseP_cons_of_pos own]
  · rw [List.dropWhile_append_of_pos fresh, List.dropWhile_cons_of_neg (by simp [own])]
    rfl
  · unfold disabledIn editOverrides
    rw [index]
    exact modify_length front back entry _

theorem editing_absent (absent : tables.find? (isFor paths selector) = none) :
    tables.eraseP (isFor paths selector) = tables ∧
      (tables.dropWhile fun table => !isFor paths selector table).tail = [] ∧
      disabledIn paths tables selector = tables ++ [disabledEntry paths selector []] := by
  rw [List.find?_eq_none] at absent
  refine ⟨List.eraseP_of_forall_not absent, ?_, ?_⟩
  · rw [List.dropWhile_eq_nil_iff.mpr fun table member => by simpa using absent table member]
    rfl
  · have index : tables.findIdx? (isFor paths selector) = none := by
      rw [List.findIdx?_eq_none_iff]
      exact fun table member => by simpa using absent table member
    unfold disabledIn editOverrides
    rw [index]

/-- Taking the first entry for a selector out leaves the rules for the others exactly when that
entry decides none of them. -/
theorem others_iff :
    (∀ rule : SkillConfigRule Path, rule.selector ≠ selector →
        (decision paths (others paths document selector) rule.selector = some rule.enabled ↔
          decision paths
            (inlineIn (configItem document) ++ writtenIn (configItem document)) rule.selector =
              some rule.enabled)) ↔
      ∀ entry rule,
        (writtenIn (configItem document)).find? (isFor paths selector) = some entry →
          ruleOf paths entry = some rule → rule.selector ≠ selector →
            decision paths (behindFirst paths document selector) rule.selector = none →
              decision paths (others paths document selector) rule.selector =
                some rule.enabled := by
  rw [others, behindFirst]
  generalize inlineIn (configItem document) = inline
  generalize writtenIn (configItem document) = written
  cases found : written.find? (isFor paths selector) with
  | none =>
      rw [(editing_absent found).1]
      exact ⟨fun _ entry rule same => (by cases same), fun _ rule _ => Iff.rfl⟩
  | some first =>
      obtain ⟨front, back, rfl, without, behind, -⟩ := editing_first found
      rw [without, behind]
      have left (selector : SkillConfigSelector Path) :
          decision paths (inline ++ (front ++ back)) selector =
            (decision paths back selector).or (decision paths (inline ++ front) selector) := by
        rw [← List.append_assoc, decision_append]
      have whole (selector : SkillConfigSelector Path) :
          decision paths (inline ++ (front ++ first :: back)) selector =
            (decision paths back selector).or ((verdict paths selector first).or
              (decision paths (inline ++ front) selector)) := by
        rw [← List.append_assoc, decision_split]
      constructor
      · intro same entry rule is_first reads differ undecided
        cases is_first
        have decided := verdict_eq_some_iff.mpr reads
        rw [same rule differ, whole, undecided, decided]
        rfl
      · intro alone rule differ
        rw [left, whole]
        cases later : decision paths back rule.selector with
        | some decided => rfl
        | none =>
            rw [Option.none_or, Option.none_or]
            cases own : verdict paths rule.selector first with
            | none => rfl
            | some decided =>
                have instead := alone first _ rfl (verdict_eq_some_iff.mp own) differ later
                rw [left, later, Option.none_or] at instead
                rw [instead]
                rfl

theorem readsBack_of_mem_rules {file : AbsolutePathBuf} {rule : SkillConfigRule Path}
    (member : rule ∈ skillConfigRulesFromStack paths [(.user file, document)]) :
    ReadsBack paths rule.selector := by
  rw [skillConfigRulesFromStack_user, mem_foldl_putEntry] at member
  obtain ⟨table, -, reads⟩ := exists_of_decision member
  exact readsBack_of_ruleOf reads

/-- Only one of the notations is there. -/
theorem inlineIn_or_writtenIn (item : Option SkillItem) :
    inlineIn item = [] ∨ writtenIn item = [] := by
  match item with
  | some (.arrayOfTables _) => exact .inl rfl
  | none | some (.table _) | some (.inlineTable _) | some (.value _) => exact .inr rfl

theorem enabling_iff {file : AbsolutePathBuf}
    (loaded : loadedTables paths document = some tables) (request : SkillConfigSelector Text) :
    TakesEffect paths file document request true ↔
      Unhindered paths document (normalizeSelector paths request) true := by
  have whole := entries_eq loaded
  have after := loadedTables_enabled loaded request
  rw [TakesEffect]
  simp only [mem_rules_iff loaded, mem_rules_iff after]
  rw [whole, ← others, others_iff]
  constructor
  · rintro ⟨own, alone⟩
    exact ⟨alone, fun _ disabled => (by cases own.mp disabled), fun disabling => by cases disabling⟩
  · intro unhindered
    refine ⟨⟨fun disabled => absurd disabled (unhindered.enables rfl), fun disabling => ?_⟩,
      unhindered.alone⟩
    cases disabling

omit [DecidableEq Path] in
theorem readable_of_loaded (loaded : loadedTables paths document = some tables) :
    ∀ table ∈ tables, readable paths table = true := by
  rcases loadedTables_cases loaded with ⟨-, rfl⟩ | ⟨skills, -, -, -, accepted⟩
  · exact fun table member => absurd member List.not_mem_nil
  · exact (loadedSkills_eq_some_iff.mp accepted).2.2

omit [DecidableEq Path] in
theorem readable_of_ruleOf {rule : SkillConfigRule Path} (reads : ruleOf paths table = some rule) :
    readable paths table = true := by
  obtain ⟨entry, read, -⟩ := Option.bind_eq_some_iff.mp reads
  rw [readable, read]
  rfl

/-- The entries with one that disables a selector: the loader reads them, they disable the selector
unless a later one enables it, and for the others they are the entries without the first one. -/
theorem disabledIn_spec (disables : ∀ table,
      ruleOf paths (disabledEntry paths selector table) = some ⟨selector, false⟩)
    (all : ∀ table ∈ tables, readable paths table = true) :
    (∀ table ∈ disabledIn paths tables selector, readable paths table = true) ∧
      (decision paths (disabledIn paths tables selector) selector = some false ↔
        decision paths (tables.dropWhile fun table => !isFor paths selector table).tail selector ≠
          some true) ∧
        ∀ other ≠ selector, decision paths (disabledIn paths tables selector) other =
          decision paths (tables.eraseP (isFor paths selector)) other := by
  have own (table : SkillTable) :
      verdict paths selector (disabledEntry paths selector table) = some false :=
    verdict_eq_some_iff.mpr (disables table)
  have foreign (table : SkillTable) {other : SkillConfigSelector Path}
      (differ : other ≠ selector) :
      verdict paths other (disabledEntry paths selector table) = none := by
    rw [verdict, disables table, Option.bind_some, if_neg differ.symm]
  cases found : tables.find? (isFor paths selector) with
  | none =>
      obtain ⟨without, behind, result⟩ := editing_absent found
      rw [result, without, behind]
      refine ⟨fun table member => ?_, ?_, fun other differ => ?_⟩
      · rcases List.mem_append.mp member with old | new
        · exact all table old
        · rw [List.mem_singleton.mp new]
          exact readable_of_ruleOf (disables [])
      · rw [decision_append, decision_singleton, own]
        simp
      · rw [decision_append, decision_singleton, foreign [] differ, Option.none_or]
  | some first =>
      obtain ⟨front, back, rfl, without, behind, result⟩ := editing_first found
      rw [result, without, behind]
      refine ⟨fun table member => ?_, ?_, fun other differ => ?_⟩
      · rcases List.mem_append.mp member with old | later
        · exact all table (List.mem_append_left _ old)
        · rcases List.mem_cons.mp later with rfl | old
          · exact readable_of_ruleOf (disables first)
          · exact all table (List.mem_append_right _ (List.mem_cons_of_mem _ old))
      · rw [decision_split, own, Option.some_or]
        rcases decision paths back selector with _ | _ | _ <;> simp
      · rw [decision_split, foreign first differ, decision_append, Option.none_or]

theorem disabling_iff {file : AbsolutePathBuf}
    (loaded : loadedTables paths document = some tables) (request : SkillConfigSelector Text) :
    TakesEffect paths file document request false ↔
      Unhindered paths document (normalizeSelector paths request) false := by
  by_cases back : ReadsBack paths (normalizeSelector paths request)
  · have named : normalizeSelector paths request ≠ .name [] := by
      intro blank
      rw [blank] at back
      exact back rfl
    have disables := ruleOf_disabledEntry (fun name same => normalizeSelector_name same) back
    have whole := entries_eq loaded
    have all : ∀ table ∈ writtenIn (configItem document), readable paths table = true :=
      fun table member => readable_of_loaded loaded table
        (whole ▸ List.mem_append_right _ member)
    obtain ⟨readable, own, foreign⟩ := disabledIn_spec disables all
    have after := loadedTables_disabled loaded named
    rw [Option.filter_some_pos (by simpa using readable)] at after
    rw [TakesEffect]
    simp only [mem_rules_iff loaded, mem_rules_iff after]
    rw [own, whole]
    rcases inlineIn_or_writtenIn (configItem document) with inline | written
    · have instead : ∀ other ≠ normalizeSelector paths request,
          decision paths (disabledIn paths (writtenIn (configItem document))
            (normalizeSelector paths request)) other =
            decision paths (others paths document (normalizeSelector paths request)) other := by
        intro other differ
        rw [foreign other differ, others, inline, List.nil_append]
      constructor
      · rintro ⟨decided, same⟩
        refine ⟨others_iff.mp fun rule differ => ?_, fun enabling => (by cases enabling),
          fun _ => ⟨back, decided.mpr trivial, fun table member => ?_⟩⟩
        · rw [← instead rule.selector differ]
          exact same rule differ
        · rw [inline] at member
          exact absurd member List.not_mem_nil
      · intro unhindered
        refine ⟨iff_of_true (unhindered.disables rfl).2.1 trivial, fun rule differ => ?_⟩
        rw [instead rule.selector differ]
        exact others_iff.mpr unhindered.alone rule differ
    · have nothing : ∀ other ≠ normalizeSelector paths request,
          decision paths (disabledIn paths (writtenIn (configItem document))
            (normalizeSelector paths request)) other = none := by
        intro other differ
        rw [foreign other differ, written]
        rfl
      rw [written, List.append_nil]
      constructor
      · rintro ⟨decided, same⟩
        refine ⟨fun entry rule first => ?_, fun enabling => (by cases enabling),
          fun _ => ⟨back, ?_, fun table member rule reads => ?_⟩⟩
        · rw [written] at first
          cases first
        · rw [behindFirst, written]
          exact decided.mpr trivial
        · by_contra differ
          obtain ⟨decided', there⟩ := exists_decision member reads
          have kept := (same ⟨rule.selector, decided'⟩ differ).mpr there
          rw [written] at nothing
          rw [nothing rule.selector differ] at kept
          cases kept
      · intro unhindered
        obtain ⟨-, decided, alone⟩ := unhindered.disables rfl
        rw [behindFirst, written] at decided
        refine ⟨iff_of_true decided trivial, fun rule differ => ?_⟩
        rw [written] at nothing
        rw [nothing rule.selector differ]
        refine iff_of_false (fun absent => by cases absent) fun there => ?_
        obtain ⟨table, member, reads⟩ := exists_of_decision there
        exact differ (alone table member _ reads)
  · constructor
    · intro effect
      exact absurd (readsBack_of_mem_rules (effect.1.mpr rfl)) back
    · intro unhindered
      exact absurd (unhindered.disables rfl).1 back

/-- The loader accepts the skills of a document. -/
def AcceptsSkills (paths : SkillPaths Path) (document : Document SkillValue) : Prop :=
  ∀ skills, document.lookup "skills".toList = some skills →
    (deserializeSkillsConfig paths skills).isSome = true

omit [DecidableEq Path] in
theorem AcceptsSkills.exists_loaded (accepted : AcceptsSkills paths document) :
    ∃ tables, loadedTables paths document = some tables := by
  rw [loadedTables]
  cases found : document.lookup "skills".toList with
  | none => exact ⟨[], rfl⟩
  | some item =>
      have read := accepted item found
      obtain ⟨config, read⟩ := Option.isSome_iff_exists.mp read
      simp only [deserializeSkillsConfig, Option.bind_eq_bind, Option.bind_eq_some_iff] at read
      obtain ⟨skills, table, read⟩ := read
      split at read
      case isTrue valid =>
        obtain ⟨tables, array, entries⟩ := Option.bind_eq_some_iff.mp read
        refine ⟨tables, ?_⟩
        dsimp only
        rw [table, Option.bind_some, loadedSkills_eq_some_iff]
        refine ⟨valid, array, ?_⟩
        have all := isSome_mapM (deserializeSkillConfig paths) tables
        rw [entries, Option.isSome_some] at all
        exact List.all_eq_true.mp all.symm
      case isFalse => cases read

/-- Setting a skill takes effect exactly when nothing hinders it. -/
theorem setSkillConfig_takesEffect_iff (file : AbsolutePathBuf)
    (accepted : AcceptsSkills paths document) (request : SkillConfigSelector Text)
    (enabled : Bool) :
    TakesEffect paths file document request enabled ↔
      Unhindered paths document (normalizeSelector paths request) enabled := by
  obtain ⟨tables, loaded⟩ := accepted.exists_loaded
  cases enabled with
  | true => exact enabling_iff loaded request
  | false => exact disabling_iff loaded request

/-- Paths as they are, where no file is looked up. -/
def plainPaths : SkillPaths Text where
  absolute text := if text.head? = some '/' then some text else none
  canonical text := text
  toText path := path
  reloads absolute := by
    split at absolute
    case isTrue rooted =>
      cases absolute
      rw [if_pos rooted]
      rfl
    case isFalse => cases absolute

/-- An entry that disables a name. -/
def disabledName (name : Text) : SkillTable :=
  [("name".toList, .value (.string name)), ("enabled".toList, .value (.boolean false))]

/-- A document with entries in an array of tables. -/
def withTables (tables : List SkillTable) : Document SkillValue :=
  [("skills".toList, .table [("config".toList, .arrayOfTables tables)])]

/-- A document with entries in an inline array. -/
def withInline (tables : List SkillTable) : Document SkillValue :=
  [("skills".toList,
    .table [("config".toList, .value (.array (tables.map TomlItem.inlineTable)))])]

theorem setSkillConfig_takesEffect_twoTables :
    TakesEffect plainPaths .root (withTables [disabledName ['e'], disabledName ['d']])
      (.name ['d']) true := by
  refine (setSkillConfig_takesEffect_iff .root (fun skills found => ?_) (.name ['d']) true).mpr
    ⟨fun entry rule found reads differ => ?_, fun _ => by decide, nofun⟩
  · cases found
    rfl
  · have first : (writtenIn (configItem (withTables [disabledName ['e'], disabledName ['d']]))).find?
        (isFor plainPaths (normalizeSelector plainPaths (.name ['d']))) =
          some (disabledName ['d']) := rfl
    cases first.symm.trans found
    have read : ruleOf plainPaths (disabledName ['d']) = some ⟨.name ['d'], false⟩ := rfl
    cases read.symm.trans reads
    exact absurd rfl differ

/-- Of two entries that disable a skill one is left when it is enabled, and an inline entry for
another skill is lost when a skill is disabled. -/
theorem setSkillConfig_hindered :
    AcceptsSkills plainPaths (withTables [disabledName ['d'], disabledName ['d']]) ∧
      ¬TakesEffect plainPaths .root (withTables [disabledName ['d'], disabledName ['d']])
        (.name ['d']) true ∧
      AcceptsSkills plainPaths (withInline [disabledName ['e']]) ∧
      ¬TakesEffect plainPaths .root (withInline [disabledName ['e']]) (.name ['d']) false := by
  refine ⟨fun skills found => ?_, fun effect => ?_, fun skills found => ?_, fun effect => ?_⟩
  · cases found
    rfl
  · have rules : skillConfigRulesFromStack plainPaths
        [(.user .root, applySkillConfig plainPaths
          (withTables [disabledName ['d'], disabledName ['d']]) (.name ['d']) true)] =
        [⟨.name ['d'], false⟩] := by rfl
    have kept := effect.1
    rw [rules] at kept
    exact absurd (kept.mp (List.mem_singleton.mpr rfl)) (by decide)
  · cases found
    rfl
  · have lost := (effect.2 ⟨.name ['e'], false⟩ (by decide)).mpr
    have before : skillConfigRulesFromStack plainPaths
        [(.user .root, withInline [disabledName ['e']])] = [⟨.name ['e'], false⟩] := by rfl
    have after : skillConfigRulesFromStack plainPaths
        [(.user .root, applySkillConfig plainPaths (withInline [disabledName ['e']])
          (.name ['d']) false)] = [⟨.name ['d'], false⟩] := by rfl
    rw [before, after] at lost
    have kept := lost (List.mem_singleton.mpr rfl)
    revert kept
    decide

end Effect

end CodexPilot.Config
