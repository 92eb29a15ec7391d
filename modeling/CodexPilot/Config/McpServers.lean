import CodexPilot.Config.Documents
import CodexPilot.Config.Toml
import Mathlib.Tactic.Linarith
import Mathlib.Tactic.Positivity

/-!
# Configurations of MCP servers

A configuration is parsed from a TOML table, and written back by two serializers.  What is written
parses to the same configuration, but for what is empty: that is left out.  An empty list of enabled
tools allows no tool, and an absent one allows all.
-/

namespace CodexPilot.Config

open RustStd Entries

/-! ## Values -/

/-- The values of a document that the parser tells apart; anything else is `other`. -/
inductive TomlScalar where
  | string (text : Text)
  | integer (value : ℤ)
  /-- A finite float, by its exact value. -/
  | float (value : ℚ)
  | boolean (value : Bool)
  | array (items : List TomlScalar)
  | other

/-- An item of the tables of servers. -/
abbrev McpItem := TomlItem TomlScalar

/-- `Duration`, by its exact value in seconds. -/
structure Duration where
  secs : ℚ
  nonneg : 0 ≤ secs
  below : secs < 2 ^ 64

/-- `Duration::try_from_secs_f64`. -/
def Duration.tryFromSecsF64 (secs : ℚ) : Except Text Duration :=
  if nonneg : 0 ≤ secs then
    if below : secs < 2 ^ 64 then .ok ⟨secs, nonneg, below⟩
    else .error ("cannot convert float seconds to Duration: value is either too big or NaN").toList
  else .error ("cannot convert float seconds to Duration: value is negative").toList

/-- `Duration::from_millis`. -/
def Duration.fromMillis (millis : UInt64) : Duration where
  secs := millis.toNat / 1000
  nonneg := by positivity
  below := by
    have small : (millis.toNat : ℚ) < 2 ^ 64 := by exact_mod_cast millis.toNat_lt
    have nonneg : (0 : ℚ) ≤ millis.toNat := by positivity
    linarith

theorem Duration.tryFromSecsF64_secs (duration : Duration) :
    Duration.tryFromSecsF64 duration.secs = .ok duration := by
  rw [Duration.tryFromSecsF64, dif_pos duration.nonneg, dif_pos duration.below]

/-! ## Maps -/

/-- A `HashMap` with text keys. -/
abbrev HashMap (ν : Type*) := Table ν

namespace Table

variable {ν : Type*} {table other : Table ν}

/-- `HashMap::is_empty`. -/
def isEmpty (table : Table ν) : Bool := table.keys = ∅

/-- The entries in the order of their keys. -/
def toEntries (table : Table ν) : List (Text × ν) :=
  (sortedKeys table.keys).map fun key => (key.1, table.entries key)

/-- Collect the entries of a map. -/
def ofEntries (entries : List (Text × ν)) : Table ν :=
  entries.foldl (fun table entry => table.insert entry.1 entry.2) .empty

theorem ext (same : ∀ key, table.get key = other.get key) : table = other := by
  obtain ⟨keys, entries⟩ := table
  obtain ⟨keys', entries'⟩ := other
  obtain rfl : keys = keys' := by
    ext key
    have both := congrArg Option.isSome (same key)
    simpa [get, apply_dite] using both
  refine congrArg (mk keys) (funext fun key => ?_)
  have both := same key.1
  simpa [get, key.2] using both

theorem insert_eq_upsert (key : Text) (value : ν) :
    table.insert key value = table.upsert key (fun _ => value) value := by
  rw [upsert]
  cases table.get key <;> rfl

/-- Collecting the entries of a map gives the map. -/
theorem ofEntries_toEntries : ofEntries table.toEntries = table := by
  rw [ofEntries, toEntries, List.foldl_map]
  simp only [insert_eq_upsert]
  refine ext fun name => ?_
  by_cases present : name ∈ table.keys
  · rw [get_foldl_upsert_of_mem ⟨name, present⟩ (nodup_sortedKeys _) (mem_sortedKeys _),
      get_eq_some_iff.mpr ⟨present, rfl⟩]
    cases (empty.get name : Option ν) <;> rfl
  · have absent : ∀ key ∈ sortedKeys table.keys, key.1 ≠ name :=
      fun key _ same => present (same ▸ key.2)
    rw [get_foldl_upsert_of_notMem absent]
    simp [get, empty, present]

end Table

/-! ## Configurations -/

/-- `AppToolApproval`. -/
inductive AppToolApproval where
  | Auto
  | Prompt
  | Approve
  deriving DecidableEq

/-- The settings of one tool. -/
structure McpServerToolConfig where
  approvalMode : Option AppToolApproval

/-- `McpServerTransportConfig`. -/
inductive McpServerTransportConfig where
  | Stdio (command : Text) (args : List Text) (env : Option (HashMap Text)) (envVars : List Text)
      (cwd : Option Text)
  | StreamableHttp (url : Text) (bearerTokenEnvVar : Option Text)
      (httpHeaders envHttpHeaders : Option (HashMap Text))

/-- `McpServerConfig`, once it is checked. -/
structure McpServerConfig where
  transport : McpServerTransportConfig
  enabled : Bool
  required : Bool
  startupTimeoutSec : Option Duration
  toolTimeoutSec : Option Duration
  enabledTools : Option (List Text)
  disabledTools : Option (List Text)
  scopes : Option (List Text)
  oauthResource : Option Text
  tools : HashMap McpServerToolConfig

/-- The table of a server as it is read. -/
structure RawMcpServerConfig where
  command : Option Text
  args : Option (List Text)
  env : Option (HashMap Text)
  envVars : Option (List Text)
  cwd : Option Text
  httpHeaders : Option (HashMap Text)
  envHttpHeaders : Option (HashMap Text)
  url : Option Text
  bearerToken : Option Text
  bearerTokenEnvVar : Option Text
  startupTimeoutSec : Option ℚ
  startupTimeoutMs : Option UInt64
  toolTimeoutSec : Option Duration
  enabled : Option Bool
  required : Option Bool
  enabledTools : Option (List Text)
  disabledTools : Option (List Text)
  scopes : Option (List Text)
  oauthResource : Option Text
  name : Option Text
  tools : Option (HashMap McpServerToolConfig)

/-! ## Parsing -/

/-- Why a table is no configuration. -/
inductive McpConfigError where
  /-- The value of a field has the wrong type. -/
  | field (name : Text)
  | custom (message : Text)

namespace Read

/-- A `String`, or a `PathBuf`. -/
def string : McpItem → Option Text
  | .value (.string text) => some text
  | _ => none

def bool : McpItem → Option Bool
  | .value (.boolean value) => some value
  | _ => none

/-- An `f64`. -/
def f64 : McpItem → Option ℚ
  | .value (.float value) => some value
  | .value (.integer value) => some value
  | _ => none

/-- A `u64`. -/
def u64 : McpItem → Option UInt64
  | .value (.integer value) =>
      if 0 ≤ value ∧ value < 2 ^ 64 then some (.ofNat value.toNat) else none
  | _ => none

/-- A `Duration` from its seconds. -/
def duration (item : McpItem) : Option Duration :=
  (f64 item).bind fun secs => (Duration.tryFromSecsF64 secs).toOption

/-- A `Vec<String>`. -/
def strings : McpItem → Option (List Text)
  | .value (.array items) => items.mapM fun item =>
      match item with
      | .string text => some text
      | _ => none
  | .arrayOfTables [] => some []
  | _ => none

/-- A `HashMap<String, _>`. -/
def map {ν : Type} (read : McpItem → Option ν) (item : McpItem) : Option (HashMap ν) :=
  item.ensureTableForRead.bind fun entries =>
    (entries.mapM fun entry => (read entry.2).map fun value => (entry.1, value)).map Table.ofEntries

/-- An `AppToolApproval`. -/
def approval (item : McpItem) : Option AppToolApproval :=
  (string item).bind fun text =>
    if text = "auto".toList then some .Auto
    else if text = "prompt".toList then some .Prompt
    else if text = "approve".toList then some .Approve
    else none

/-- A field that may be absent. -/
def field {ν : Type} (table : Document TomlScalar) (name : Text) (read : McpItem → Option ν) :
    Except McpConfigError (Option ν) :=
  match table.lookup name with
  | none => .ok none
  | some item =>
      match read item with
      | some value => .ok (some value)
      | none => .error (.field name)

/-- An `McpServerToolConfig`. -/
def tool (item : McpItem) : Option McpServerToolConfig :=
  item.ensureTableForRead.bind fun table =>
    (field table "approval_mode".toList approval).toOption.map McpServerToolConfig.mk

end Read

open Read in
/-- `RawMcpServerConfig::deserialize`. -/
def RawMcpServerConfig.deserialize (table : Document TomlScalar) :
    Except McpConfigError RawMcpServerConfig := do
  let command ← field table "command".toList string
  let args ← field table "args".toList strings
  let env ← field table "env".toList (map string)
  let envVars ← field table "env_vars".toList strings
  let cwd ← field table "cwd".toList string
  let httpHeaders ← field table "http_headers".toList (map string)
  let envHttpHeaders ← field table "env_http_headers".toList (map string)
  let url ← field table "url".toList string
  let bearerToken ← field table "bearer_token".toList string
  let bearerTokenEnvVar ← field table "bearer_token_env_var".toList string
  let startupTimeoutSec ← field table "startup_timeout_sec".toList f64
  let startupTimeoutMs ← field table "startup_timeout_ms".toList u64
  let toolTimeoutSec ← field table "tool_timeout_sec".toList duration
  let enabled ← field table "enabled".toList bool
  let required ← field table "required".toList bool
  let enabledTools ← field table "enabled_tools".toList strings
  let disabledTools ← field table "disabled_tools".toList strings
  let scopes ← field table "scopes".toList strings
  let oauthResource ← field table "oauth_resource".toList string
  let name ← field table "name".toList string
  let tools ← field table "tools".toList (map tool)
  return {
    command, args, env, envVars, cwd, httpHeaders, envHttpHeaders, url, bearerToken,
    bearerTokenEnvVar, startupTimeoutSec, startupTimeoutMs, toolTimeoutSec, enabled, required,
    enabledTools, disabledTools, scopes, oauthResource, name, tools }

/-- `throw_if_set`. -/
def throwIfSet {ν : Type} (transport field : Text) (value : Option ν) : Except Text Unit :=
  match value with
  | none => .ok ()
  | some _ => .error (field ++ " is not supported for ".toList ++ transport)

/-- `default_enabled`. -/
def defaultEnabled : Bool := true

def stdio : Text := "stdio".toList

def streamableHttp : Text := "streamable_http".toList

/-- The startup timeout: seconds take precedence over milliseconds. -/
def startupTimeout (secs : Option ℚ) (millis : Option UInt64) : Except Text (Option Duration) :=
  match secs, millis with
  | some secs, _ => (Duration.tryFromSecsF64 secs).map some
  | none, some millis => .ok (some (.fromMillis millis))
  | none, none => .ok none

/-- The transport, and the checks of the fields that it excludes. -/
def RawMcpServerConfig.transport (raw : RawMcpServerConfig) :
    Except Text McpServerTransportConfig :=
  match raw.command, raw.url with
  | some command, _ => do
      throwIfSet stdio "url".toList raw.url
      throwIfSet stdio "bearer_token_env_var".toList raw.bearerTokenEnvVar
      throwIfSet stdio "bearer_token".toList raw.bearerToken
      throwIfSet stdio "http_headers".toList raw.httpHeaders
      throwIfSet stdio "env_http_headers".toList raw.envHttpHeaders
      throwIfSet stdio "oauth_resource".toList raw.oauthResource
      return .Stdio command (raw.args.getD []) raw.env (raw.envVars.getD []) raw.cwd
  | none, some url => do
      throwIfSet streamableHttp "args".toList raw.args
      throwIfSet streamableHttp "env".toList raw.env
      throwIfSet streamableHttp "env_vars".toList raw.envVars
      throwIfSet streamableHttp "cwd".toList raw.cwd
      throwIfSet streamableHttp "bearer_token".toList raw.bearerToken
      return .StreamableHttp url raw.bearerTokenEnvVar raw.httpHeaders raw.envHttpHeaders
  | none, none => .error "invalid transport".toList

/-- `TryFrom<RawMcpServerConfig>`. -/
def McpServerConfig.tryFrom (raw : RawMcpServerConfig) : Except Text McpServerConfig := do
  let startupTimeoutSec ← startupTimeout raw.startupTimeoutSec raw.startupTimeoutMs
  let transport ← raw.transport
  return {
    transport, startupTimeoutSec
    toolTimeoutSec := raw.toolTimeoutSec
    enabled := raw.enabled.getD defaultEnabled
    required := raw.required.getD false
    enabledTools := raw.enabledTools
    disabledTools := raw.disabledTools
    scopes := raw.scopes
    oauthResource := raw.oauthResource
    tools := raw.tools.getD .empty }

/-- `McpServerConfig::deserialize`. -/
def McpServerConfig.deserialize (table : Document TomlScalar) :
    Except McpConfigError McpServerConfig := do
  let raw ← RawMcpServerConfig.deserialize table
  (McpServerConfig.tryFrom raw).mapError .custom

/-! ## Serializing -/

/-- Set a field that has something to write. -/
def setSome (key : Text) (item : Option McpItem) (entries : Document TomlScalar) :
    Document TomlScalar :=
  match item with
  | some item => set key item entries
  | none => entries

def stringItem (text : Text) : McpItem := .value (.string text)

/-- `array_from_iter`. -/
def arrayFromIter (texts : List Text) : McpItem := .value (.array (texts.map .string))

/-- `table_from_pairs`. -/
def tableFromPairs (pairs : HashMap Text) : McpItem :=
  .table (pairs.toEntries.foldl (fun table entry => set entry.1 (stringItem entry.2) table) [])

/-- What is left of an optional map when an empty one is not written. -/
def unlessEmptyMap {ν : Type} (pairs : Option (HashMap ν)) : Option (HashMap ν) :=
  pairs.filter fun pairs => !pairs.isEmpty

/-- What is left of an optional list or text when an empty one is not written. -/
def unlessEmpty {ν : Type} (items : Option (List ν)) : Option (List ν) :=
  items.filter fun items => !items.isEmpty

def approvalText : AppToolApproval → Text
  | .Auto => "auto".toList
  | .Prompt => "prompt".toList
  | .Approve => "approve".toList

/-- `serialize_mcp_server_tool`. -/
def serializeMcpServerTool (config : McpServerToolConfig) : McpItem :=
  .table (setSome "approval_mode".toList
    (config.approvalMode.map fun mode => stringItem (approvalText mode)) [])

/-- The entries of a transport. -/
def serializeTransport : McpServerTransportConfig → Document TomlScalar
  | .Stdio command args env envVars cwd =>
      let entry := set "command".toList (stringItem command) []
      let entry := setSome "args".toList ((unlessEmpty (some args)).map arrayFromIter) entry
      let entry := setSome "env".toList ((unlessEmptyMap env).map tableFromPairs) entry
      let entry := setSome "env_vars".toList ((unlessEmpty (some envVars)).map arrayFromIter) entry
      setSome "cwd".toList (cwd.map stringItem) entry
  | .StreamableHttp url bearerTokenEnvVar httpHeaders envHttpHeaders =>
      let entry := set "url".toList (stringItem url) []
      let entry := setSome "bearer_token_env_var".toList (bearerTokenEnvVar.map stringItem) entry
      let entry := setSome "http_headers".toList ((unlessEmptyMap httpHeaders).map tableFromPairs)
        entry
      setSome "env_http_headers".toList ((unlessEmptyMap envHttpHeaders).map tableFromPairs) entry

/-- The entry of the tools. -/
def serializeTools (tools : HashMap McpServerToolConfig) : McpItem :=
  .table (tools.toEntries.foldl
    (fun table entry => set entry.1 (serializeMcpServerTool entry.2) table) [])

/-- `serialize_mcp_server_table` of the config edits in core. -/
def serializeMcpServerTable (config : McpServerConfig) : Document TomlScalar :=
  let entry := serializeTransport config.transport
  let entry := setSome "enabled".toList
    (if config.enabled then none else some (.value (.boolean false))) entry
  let entry := setSome "required".toList
    (if config.required then some (.value (.boolean true)) else none) entry
  let entry := setSome "startup_timeout_sec".toList
    (config.startupTimeoutSec.map fun timeout => .value (.float timeout.secs)) entry
  let entry := setSome "tool_timeout_sec".toList
    (config.toolTimeoutSec.map fun timeout => .value (.float timeout.secs)) entry
  let entry := setSome "enabled_tools".toList
    ((unlessEmpty config.enabledTools).map arrayFromIter) entry
  let entry := setSome "disabled_tools".toList
    ((unlessEmpty config.disabledTools).map arrayFromIter) entry
  let entry := setSome "scopes".toList ((unlessEmpty config.scopes).map arrayFromIter) entry
  let entry := setSome "oauth_resource".toList
    ((unlessEmpty config.oauthResource).map stringItem) entry
  setSome "tools".toList
    (if config.tools.isEmpty then none else some (serializeTools config.tools)) entry

/-! ## The serializer of the config crate -/

namespace McpEdit

/-- `array_from_strings`. -/
def arrayFromStrings (texts : List Text) : McpItem := .value (.array (texts.map .string))

/-- `serialize_mcp_server` of the config crate. -/
def serializeMcpServer (config : McpServerConfig) : Document TomlScalar :=
  let entry :=
    match config.transport with
    | .Stdio command args env envVars cwd =>
        let entry := set "command".toList (stringItem command) []
        let entry := setSome "args".toList ((unlessEmpty (some args)).map arrayFromStrings) entry
        let entry := setSome "env".toList ((unlessEmptyMap env).map tableFromPairs) entry
        let entry := setSome "env_vars".toList
          ((unlessEmpty (some envVars)).map arrayFromStrings) entry
        setSome "cwd".toList (cwd.map stringItem) entry
    | .StreamableHttp url bearerTokenEnvVar httpHeaders envHttpHeaders =>
        let entry := set "url".toList (stringItem url) []
        let entry := setSome "bearer_token_env_var".toList (bearerTokenEnvVar.map stringItem) entry
        let entry := setSome "http_headers".toList
          ((unlessEmptyMap httpHeaders).map tableFromPairs) entry
        setSome "env_http_headers".toList ((unlessEmptyMap envHttpHeaders).map tableFromPairs) entry
  let entry := setSome "enabled".toList
    (if config.enabled then none else some (.value (.boolean false))) entry
  let entry := setSome "required".toList
    (if config.required then some (.value (.boolean true)) else none) entry
  let entry := setSome "startup_timeout_sec".toList
    (config.startupTimeoutSec.map fun timeout => .value (.float timeout.secs)) entry
  let entry := setSome "tool_timeout_sec".toList
    (config.toolTimeoutSec.map fun timeout => .value (.float timeout.secs)) entry
  let entry := setSome "enabled_tools".toList
    ((unlessEmpty config.enabledTools).map arrayFromStrings) entry
  let entry := setSome "disabled_tools".toList
    ((unlessEmpty config.disabledTools).map arrayFromStrings) entry
  let entry := setSome "scopes".toList ((unlessEmpty config.scopes).map arrayFromStrings) entry
  let entry := setSome "oauth_resource".toList
    ((unlessEmpty config.oauthResource).map stringItem) entry
  if config.tools.isEmpty then entry
  else
    let tools := config.tools.toEntries.foldl
      (fun tools entry =>
        let toolEntry := setSome "approval_mode".toList
          (entry.2.approvalMode.map fun mode => stringItem (approvalText mode)) []
        set entry.1 (.table toolEntry) tools)
      []
    set "tools".toList (.table tools) entry

end McpEdit

/-- Both serializers write the same. -/
theorem serializeMcpServer_eq (config : McpServerConfig) :
    McpEdit.serializeMcpServer config = serializeMcpServerTable config := by
  obtain ⟨transport, enabled, required, startup, tool, enabledTools, disabledTools, scopes,
    resource, tools⟩ := config
  simp only [McpEdit.serializeMcpServer, serializeMcpServerTable]
  cases empty : tools.isEmpty <;> cases transport <;> rfl

/-! ## What is read back -/

section Fields

variable {key name : Text} {item : Option McpItem} {entries : Document TomlScalar}

theorem lookup_setSome_self :
    (setSome key item entries).lookup key = item.or (entries.lookup key) := by
  cases item with
  | none => rfl
  | some item => exact lookup_set_self

theorem lookup_setSome_of_ne (apart : name ≠ key) :
    (setSome key item entries).lookup name = entries.lookup name := by
  cases item with
  | none => rfl
  | some item => exact lookup_set_of_ne apart

/-- A field that is written so that it can be read is read. -/
theorem Read.field_of_lookup {ν : Type} {read : McpItem → Option ν} {write : ν → McpItem}
    {value : Option ν} (found : entries.lookup name = value.map write)
    (reads : ∀ v ∈ value, read (write v) = some v) : Read.field entries name read = .ok value := by
  rw [Read.field, found]
  cases value with
  | none => rfl
  | some v => simp [reads v rfl]

theorem Read.strings_arrayFromIter (texts : List Text) :
    Read.strings (arrayFromIter texts) = some texts := by
  rw [arrayFromIter, Read.strings]
  induction texts with
  | nil => rfl
  | cons text texts ih => simp [List.mapM_cons, ih]

/-- Entries with different keys are set one behind the other. -/
theorem foldl_set {ν : Type} {write : ν → McpItem} {pairs : List (Text × ν)}
    (distinct : (pairs.map Prod.fst).Nodup)
    (fresh : ∀ pair ∈ pairs, pair.1 ∉ entries.map Prod.fst) :
    pairs.foldl (fun table entry => set entry.1 (write entry.2) table) entries =
      entries ++ pairs.map fun pair => (pair.1, write pair.2) := by
  induction pairs generalizing entries with
  | nil => simp
  | cons pair pairs ih =>
      obtain ⟨unused, rest⟩ := List.nodup_cons.mp distinct
      obtain ⟨own, later⟩ := List.forall_mem_cons.mp fresh
      have appended : set pair.1 (write pair.2) entries = entries ++ [(pair.1, write pair.2)] :=
        set_of_notMem own
      rw [List.foldl_cons, appended, ih rest ?_]
      · simp
      · intro other member among
        rw [List.map_append, List.mem_append] at among
        obtain before | same := among
        · exact later other member before
        · exact unused (List.mem_map.mpr ⟨other, member, by simpa using same⟩)

theorem Table.nodup_toEntries {ν : Type} (table : Table ν) :
    (table.toEntries.map Prod.fst).Nodup := by
  rw [Table.toEntries, List.map_map]
  exact Table.nodup_sortedKeys _

/-- A map whose values can be read can be read. -/
theorem Read.map_of_foldl_set {ν : Type} {read : McpItem → Option ν} {write : ν → McpItem}
    (reads : ∀ v, read (write v) = some v) (pairs : HashMap ν) :
    Read.map read
        (.table (pairs.toEntries.foldl
          (fun table entry => set entry.1 (write entry.2) table) [])) =
      some pairs := by
  have all (entries : List (Text × ν)) :
      (entries.map fun pair => (pair.1, write pair.2)).mapM
          (fun entry => (read entry.2).map fun value => (entry.1, value)) = some entries := by
    induction entries with
    | nil => rfl
    | cons entry entries ih => simp [List.mapM_cons, reads, ih]
  rw [foldl_set pairs.nodup_toEntries fun _ _ => List.not_mem_nil, List.nil_append, Read.map]
  simp only [TomlItem.ensureTableForRead, Option.bind_some, all, Option.map_some,
    Table.ofEntries_toEntries]

theorem Read.tool_serializeMcpServerTool (config : McpServerToolConfig) :
    Read.tool (serializeMcpServerTool config) = some config := by
  obtain ⟨mode⟩ := config
  have read : Read.field (setSome "approval_mode".toList
      (mode.map fun mode => stringItem (approvalText mode)) []) "approval_mode".toList
      Read.approval = .ok mode := by
    refine Read.field_of_lookup (lookup_setSome_self.trans (Option.or_none)) fun mode _ => ?_
    cases mode <;> rfl
  simp only [Read.tool, serializeMcpServerTool, TomlItem.ensureTableForRead, Option.bind_some, read]
  rfl

end Fields

/-- What the fields of a transport are read as when it has been written. -/
def McpServerTransportConfig.toRaw (transport : McpServerTransportConfig) : RawMcpServerConfig :=
  let blank : RawMcpServerConfig :=
    ⟨none, none, none, none, none, none, none, none, none, none, none, none, none, none, none, none,
      none, none, none, none, none⟩
  match transport with
  | .Stdio command args env envVars cwd =>
      { blank with
        command := some command
        args := unlessEmpty (some args)
        env := unlessEmptyMap env
        envVars := unlessEmpty (some envVars)
        cwd := cwd }
  | .StreamableHttp url bearerTokenEnvVar httpHeaders envHttpHeaders =>
      { blank with
        url := some url
        bearerTokenEnvVar := bearerTokenEnvVar
        httpHeaders := unlessEmptyMap httpHeaders
        envHttpHeaders := unlessEmptyMap envHttpHeaders }

/-- What the fields of a configuration are read as when it has been written. -/
def McpServerConfig.toRaw (config : McpServerConfig) : RawMcpServerConfig :=
  { config.transport.toRaw with
    enabled := if config.enabled then none else some false
    required := if config.required then some true else none
    startupTimeoutSec := config.startupTimeoutSec.map Duration.secs
    toolTimeoutSec := config.toolTimeoutSec
    enabledTools := unlessEmpty config.enabledTools
    disabledTools := unlessEmpty config.disabledTools
    scopes := unlessEmpty config.scopes
    oauthResource := unlessEmpty config.oauthResource
    tools := if config.tools.isEmpty then none else some config.tools }

section Lookup

variable (config : McpServerConfig) {name : Text}

/-- The fields that do not depend on the transport. -/
def sharedFields : List Text :=
  ["enabled".toList, "required".toList, "startup_timeout_sec".toList, "tool_timeout_sec".toList,
    "enabled_tools".toList, "disabled_tools".toList, "scopes".toList, "oauth_resource".toList,
    "tools".toList]

/-- A field that not all configurations share is written with the transport. -/
theorem lookup_serialize_of_notMem (own : name ∉ sharedFields) :
    (serializeMcpServerTable config).lookup name =
      (serializeTransport config.transport).lookup name := by
  have apart {key : Text} (shared : key ∈ sharedFields) : name ≠ key :=
    fun same => own (same ▸ shared)
  rw [serializeMcpServerTable, lookup_setSome_of_ne (apart (by decide)),
    lookup_setSome_of_ne (apart (by decide)), lookup_setSome_of_ne (apart (by decide)),
    lookup_setSome_of_ne (apart (by decide)), lookup_setSome_of_ne (apart (by decide)),
    lookup_setSome_of_ne (apart (by decide)), lookup_setSome_of_ne (apart (by decide)),
    lookup_setSome_of_ne (apart (by decide)), lookup_setSome_of_ne (apart (by decide))]

/-- A transport writes no shared field. -/
theorem lookup_serializeTransport_of_mem (transport : McpServerTransportConfig)
    (shared : name ∈ sharedFields) : (serializeTransport transport).lookup name = none := by
  have apart {key : Text} (own : key ∉ sharedFields) : name ≠ key :=
    fun same => own (same ▸ shared)
  cases transport with
  | Stdio command args env envVars cwd =>
      rw [serializeTransport, lookup_setSome_of_ne (apart (by decide)),
        lookup_setSome_of_ne (apart (by decide)), lookup_setSome_of_ne (apart (by decide)),
        lookup_setSome_of_ne (apart (by decide)), lookup_set_of_ne (apart (by decide))]
      rfl
  | StreamableHttp url bearerTokenEnvVar httpHeaders envHttpHeaders =>
      rw [serializeTransport, lookup_setSome_of_ne (apart (by decide)),
        lookup_setSome_of_ne (apart (by decide)), lookup_setSome_of_ne (apart (by decide)),
        lookup_set_of_ne (apart (by decide))]
      rfl

end Lookup

open Read in
/-- The fields that only one transport has. -/
theorem field_transport (config : McpServerConfig) :
    let table := serializeMcpServerTable config
    let raw := config.transport.toRaw
    field table "command".toList string = .ok raw.command ∧
    field table "args".toList strings = .ok raw.args ∧
    field table "env".toList (map string) = .ok raw.env ∧
    field table "env_vars".toList strings = .ok raw.envVars ∧
    field table "cwd".toList string = .ok raw.cwd ∧
    field table "http_headers".toList (map string) = .ok raw.httpHeaders ∧
    field table "env_http_headers".toList (map string) = .ok raw.envHttpHeaders ∧
    field table "url".toList string = .ok raw.url ∧
    field table "bearer_token".toList string = .ok raw.bearerToken ∧
    field table "bearer_token_env_var".toList string = .ok raw.bearerTokenEnvVar := by
  have own {name : Text} {ν : Type} {read : McpItem → Option ν} {write : ν → McpItem}
      {value : Option ν} (reads : ∀ v, read (write v) = some v) (notShared : name ∉ sharedFields)
      (found : (serializeTransport config.transport).lookup name = value.map write) :
      field (serializeMcpServerTable config) name read = .ok value :=
    field_of_lookup ((lookup_serialize_of_notMem config notShared).trans found)
      fun v _ => reads v
  have text (text : Text) : string (stringItem text) = some text := rfl
  have pairs (pairs : HashMap Text) : map string (tableFromPairs pairs) = some pairs :=
    map_of_foldl_set text pairs
  refine ⟨own text ?_ ?_, own strings_arrayFromIter ?_ ?_, own pairs ?_ ?_,
    own strings_arrayFromIter ?_ ?_, own text ?_ ?_, own pairs ?_ ?_, own pairs ?_ ?_,
    own text ?_ ?_, own text ?_ ?_, own text ?_ ?_⟩
  all_goals first
    | decide
    | cases config.transport <;>
        simp (disch := decide) only [serializeTransport, McpServerTransportConfig.toRaw,
          lookup_setSome_self, lookup_setSome_of_ne, lookup_set_self, lookup_set_of_ne,
          List.lookup_nil, Option.or_none, Option.map_some, Option.map_none]

open Read in
/-- The fields that all configurations share. -/
theorem field_shared (config : McpServerConfig) :
    let table := serializeMcpServerTable config
    let raw := config.toRaw
    field table "startup_timeout_sec".toList f64 = .ok raw.startupTimeoutSec ∧
    field table "tool_timeout_sec".toList duration = .ok raw.toolTimeoutSec ∧
    field table "enabled".toList bool = .ok raw.enabled ∧
    field table "required".toList bool = .ok raw.required ∧
    field table "enabled_tools".toList strings = .ok raw.enabledTools ∧
    field table "disabled_tools".toList strings = .ok raw.disabledTools ∧
    field table "scopes".toList strings = .ok raw.scopes ∧
    field table "oauth_resource".toList string = .ok raw.oauthResource ∧
    field table "tools".toList (map tool) = .ok raw.tools := by
  have none {name : Text} (shared : name ∈ sharedFields) :
      (serializeTransport config.transport).lookup name = none :=
    lookup_serializeTransport_of_mem config.transport shared
  have seconds (timeout : Duration) :
      duration (.value (.float timeout.secs)) = some timeout := by
    simp only [duration, f64, Option.bind_some, Duration.tryFromSecsF64_secs]
    rfl
  have all (tools : HashMap McpServerToolConfig) : map tool (serializeTools tools) = some tools :=
    map_of_foldl_set tool_serializeMcpServerTool tools
  have float (secs : ℚ) : f64 (.value (.float secs)) = some secs := rfl
  have flag (value : Bool) : Read.bool (.value (.boolean value)) = some value := rfl
  have text (text : Text) : string (stringItem text) = some text := rfl
  refine ⟨field_of_lookup ?_ fun v _ => float v, field_of_lookup ?_ fun v _ => seconds v,
    field_of_lookup ?_ fun v _ => flag v, field_of_lookup ?_ fun v _ => flag v,
    field_of_lookup ?_ fun v _ => strings_arrayFromIter v,
    field_of_lookup ?_ fun v _ => strings_arrayFromIter v,
    field_of_lookup ?_ fun v _ => strings_arrayFromIter v,
    field_of_lookup ?_ fun v _ => text v, field_of_lookup ?_ fun v _ => all v⟩
  all_goals
    simp (disch := decide) only [serializeMcpServerTable, McpServerConfig.toRaw,
      lookup_setSome_self, lookup_setSome_of_ne, none, Option.or_none, Option.map_map]
  · rfl
  · cases config.enabled <;> rfl
  · cases config.required <;> rfl
  · cases config.tools.isEmpty <;> rfl

/-- What has been written is read field by field. -/
theorem deserialize_serialize (config : McpServerConfig) :
    RawMcpServerConfig.deserialize (serializeMcpServerTable config) = .ok config.toRaw := by
  obtain ⟨command, args, env, envVars, cwd, httpHeaders, envHttpHeaders, url, bearerToken,
    bearerTokenEnvVar⟩ := field_transport config
  obtain ⟨startup, tool, enabled, required, enabledTools, disabledTools, scopes, resource, tools⟩ :=
    field_shared config
  have unwritten {name : Text} {ν : Type} {read : McpItem → Option ν}
      (own : name ∉ sharedFields)
      (missing : (serializeTransport config.transport).lookup name = none) :
      Read.field (serializeMcpServerTable config) name read = .ok none := by
    rw [Read.field, (lookup_serialize_of_notMem config own).trans missing]
  have millis : Read.field (serializeMcpServerTable config) "startup_timeout_ms".toList Read.u64 =
      .ok config.transport.toRaw.startupTimeoutMs := by
    cases same : config.transport <;> refine unwritten (by decide) ?_ <;>
      simp (disch := decide) only [same, serializeTransport, lookup_setSome_of_ne, lookup_set_of_ne,
        List.lookup_nil]
  have name : Read.field (serializeMcpServerTable config) "name".toList Read.string =
      .ok config.transport.toRaw.name := by
    cases same : config.transport <;> refine unwritten (by decide) ?_ <;>
      simp (disch := decide) only [same, serializeTransport, lookup_setSome_of_ne, lookup_set_of_ne,
        List.lookup_nil]
  simp only [RawMcpServerConfig.deserialize, command, args, env, envVars, cwd, httpHeaders,
    envHttpHeaders, url, bearerToken, bearerTokenEnvVar, startup, tool, enabled, required,
    enabledTools, disabledTools, scopes, resource, tools, millis, name]
  rfl

/-- The transport without what is empty. -/
def McpServerTransportConfig.written : McpServerTransportConfig → McpServerTransportConfig
  | .Stdio command args env envVars cwd => .Stdio command args (unlessEmptyMap env) envVars cwd
  | .StreamableHttp url bearerTokenEnvVar httpHeaders envHttpHeaders =>
      .StreamableHttp url bearerTokenEnvVar (unlessEmptyMap httpHeaders)
        (unlessEmptyMap envHttpHeaders)

/-- The configuration without what is empty. -/
def McpServerConfig.written (config : McpServerConfig) : McpServerConfig :=
  { config with
    transport := config.transport.written
    enabledTools := unlessEmpty config.enabledTools
    disabledTools := unlessEmpty config.disabledTools
    scopes := unlessEmpty config.scopes
    oauthResource := unlessEmpty config.oauthResource }

/-- A transport over standard input and output has no OAuth resource. -/
def McpServerConfig.Admissible (config : McpServerConfig) : Prop :=
  ∀ command args env envVars cwd, config.transport = .Stdio command args env envVars cwd →
    config.oauthResource = none

section TryFrom

variable {raw : RawMcpServerConfig} {config : McpServerConfig} {table : Document TomlScalar}

theorem throwIfSet_eq_ok {ν : Type} {transport field : Text} {value : Option ν} :
    throwIfSet transport field value = .ok () ↔ value = none := by
  cases value <;> simp [throwIfSet]

theorem getD_unlessEmpty {ν : Type} (items : List ν) :
    (unlessEmpty (some items)).getD [] = items := by
  cases items <;> rfl

theorem Table.eq_empty_of_isEmpty {ν : Type} {table : Table ν} (isEmpty : table.isEmpty = true) :
    table = .empty := by
  have empty : table.keys = ∅ := by simpa [Table.isEmpty] using isEmpty
  refine Table.ext fun key => ?_
  simp [Table.get, Table.empty, empty]

/-- What is read of a written configuration is accepted, and gives it without what is empty. -/
theorem tryFrom_toRaw (admissible : config.Admissible) :
    McpServerConfig.tryFrom config.toRaw = .ok config.written := by
  have startup : startupTimeout config.toRaw.startupTimeoutSec config.toRaw.startupTimeoutMs =
      .ok config.startupTimeoutSec := by
    have millis : config.toRaw.startupTimeoutMs = none := by
      rw [McpServerConfig.toRaw]
      cases config.transport <;> rfl
    rw [millis, McpServerConfig.toRaw]
    cases config.startupTimeoutSec with
    | none => rfl
    | some timeout =>
        simp only [startupTimeout, Option.map_some, Duration.tryFromSecsF64_secs]
        rfl
  have transport : config.toRaw.transport = .ok config.transport.written := by
    cases kind : config.transport with
    | Stdio command args env envVars cwd =>
        have resource : config.oauthResource = none := admissible _ _ _ _ _ kind
        simp only [RawMcpServerConfig.transport, McpServerConfig.toRaw, kind, resource,
          McpServerTransportConfig.toRaw, McpServerTransportConfig.written, getD_unlessEmpty]
        rfl
    | StreamableHttp url bearerTokenEnvVar httpHeaders envHttpHeaders =>
        simp only [RawMcpServerConfig.transport, McpServerConfig.toRaw, kind,
          McpServerTransportConfig.toRaw, McpServerTransportConfig.written]
        rfl
  have tools : config.toRaw.tools.getD .empty = config.tools := by
    rw [McpServerConfig.toRaw]
    cases empty : config.tools.isEmpty with
    | true => exact (Table.eq_empty_of_isEmpty empty).symm
    | false => rfl
  have enabled : config.toRaw.enabled.getD defaultEnabled = config.enabled := by
    rw [McpServerConfig.toRaw]
    cases config.enabled <;> rfl
  have required : config.toRaw.required.getD false = config.required := by
    rw [McpServerConfig.toRaw]
    cases config.required <;> rfl
  simp only [McpServerConfig.tryFrom, startup, transport, tools, enabled, required]
  rfl

theorem bind_eq_ok {ε ν μ : Type} {first : Except ε ν} {rest : ν → Except ε μ} {result : μ}
    (ok : (first >>= rest) = .ok result) :
    ∃ value, first = .ok value ∧ rest value = .ok result := by
  cases first with
  | error error => cases ok
  | ok value => exact ⟨value, rfl, ok⟩

/-- Every configuration that is parsed is admissible. -/
theorem admissible_of_deserialize (parsed : McpServerConfig.deserialize table = .ok config) :
    config.Admissible := by
  obtain ⟨raw, -, converted⟩ := bind_eq_ok parsed
  cases tried : McpServerConfig.tryFrom raw with
  | error message =>
      rw [tried] at converted
      cases converted
  | ok config' =>
      rw [tried] at converted
      cases converted
      obtain ⟨startup, -, rest⟩ := bind_eq_ok tried
      obtain ⟨transport, transports, made⟩ := bind_eq_ok rest
      cases made
      intro command args env envVars cwd kind
      change transport = _ at kind
      subst kind
      rw [RawMcpServerConfig.transport] at transports
      split at transports
      case h_1 =>
        obtain ⟨-, -, transports⟩ := bind_eq_ok transports
        obtain ⟨-, -, transports⟩ := bind_eq_ok transports
        obtain ⟨-, -, transports⟩ := bind_eq_ok transports
        obtain ⟨-, -, transports⟩ := bind_eq_ok transports
        obtain ⟨-, -, transports⟩ := bind_eq_ok transports
        obtain ⟨_, resource, -⟩ := bind_eq_ok transports
        exact throwIfSet_eq_ok.mp resource
      case h_2 =>
        obtain ⟨-, -, transports⟩ := bind_eq_ok transports
        obtain ⟨-, -, transports⟩ := bind_eq_ok transports
        obtain ⟨-, -, transports⟩ := bind_eq_ok transports
        obtain ⟨-, -, transports⟩ := bind_eq_ok transports
        obtain ⟨-, -, transports⟩ := bind_eq_ok transports
        cases transports
      case h_3 => cases transports

/-- A parsed configuration that is written and parsed again loses what is empty, and nothing else.
-/
theorem deserialize_of_written (parsed : McpServerConfig.deserialize table = .ok config) :
    McpServerConfig.deserialize (serializeMcpServerTable config) = .ok config.written := by
  simp only [McpServerConfig.deserialize, deserialize_serialize]
  change (McpServerConfig.tryFrom config.toRaw).mapError McpConfigError.custom = _
  rw [tryFrom_toRaw (admissible_of_deserialize parsed)]
  rfl

end TryFrom

/-! ## Filters -/

/-- `ToolFilter::allows`, for the filter of a configuration. -/
def McpServerConfig.allows (config : McpServerConfig) (tool : Text) : Bool :=
  config.enabledTools.all (fun tools => tools.contains tool) &&
    !(config.disabledTools.getD []).contains tool

/-- The configuration without what is empty, and without the lists that filter tools. -/
def McpServerConfig.settings (config : McpServerConfig) : McpServerConfig :=
  { config.written with enabledTools := none, disabledTools := none }

/-- A configuration survives being saved: what is written parses to the same settings, and lets the
same tools pass; and both serializers write it. -/
def McpServerConfig.Survives (config : McpServerConfig) : Prop :=
  (∃ saved, McpServerConfig.deserialize (serializeMcpServerTable config) = .ok saved ∧
      saved.settings = config.settings ∧ ∀ tool, saved.allows tool = config.allows tool) ∧
    McpEdit.serializeMcpServer config = serializeMcpServerTable config

section Survival

variable {config : McpServerConfig} {table : Document TomlScalar}

theorem unlessEmpty_unlessEmpty {ν : Type} (items : Option (List ν)) :
    unlessEmpty (unlessEmpty items) = unlessEmpty items := by
  simp [unlessEmpty, Option.filter_filter]

theorem unlessEmptyMap_unlessEmptyMap {ν : Type} (pairs : Option (HashMap ν)) :
    unlessEmptyMap (unlessEmptyMap pairs) = unlessEmptyMap pairs := by
  simp [unlessEmptyMap, Option.filter_filter]

theorem settings_written (config : McpServerConfig) :
    config.written.settings = config.settings := by
  obtain ⟨transport, enabled, required, startup, tool, enabledTools, disabledTools, scopes,
    resource, tools⟩ := config
  cases transport <;>
    simp only [McpServerConfig.settings, McpServerConfig.written, McpServerTransportConfig.written,
      unlessEmpty_unlessEmpty, unlessEmptyMap_unlessEmptyMap]

theorem getD_unlessEmpty_eq {ν : Type} (items : Option (List ν)) :
    (unlessEmpty items).getD [] = items.getD [] := by
  cases items with
  | none => rfl
  | some items => exact getD_unlessEmpty items

/-- Without an empty list of enabled tools the filter stays. -/
theorem allows_written (nonempty : config.enabledTools ≠ some []) (tool : Text) :
    config.written.allows tool = config.allows tool := by
  have enabled : unlessEmpty config.enabledTools = config.enabledTools := by
    cases same : config.enabledTools with
    | none => rfl
    | some tools =>
        cases tools with
        | nil => exact absurd same nonempty
        | cons => rfl
  simp only [McpServerConfig.allows, McpServerConfig.written, enabled, getD_unlessEmpty_eq]

/-- A parsed configuration survives being saved exactly when its list of enabled tools is not
present and empty. -/
theorem survives_iff (parsed : McpServerConfig.deserialize table = .ok config) :
    config.Survives ↔ config.enabledTools ≠ some [] := by
  have reads := deserialize_of_written parsed
  constructor
  · rintro ⟨⟨saved, same, -, allows⟩, -⟩ empty
    cases reads.symm.trans same
    obtain ⟨tool, fresh⟩ := Infinite.exists_notMem_finset (config.disabledTools.getD []).toFinset
    have passes : config.written.allows tool = true := by
      simp only [McpServerConfig.allows, McpServerConfig.written, empty, getD_unlessEmpty_eq]
      simpa [unlessEmpty] using fresh
    have fails : config.allows tool = false := by
      simp [McpServerConfig.allows, empty]
    cases passes.symm.trans ((allows tool).trans fails)
  · intro nonempty
    exact ⟨⟨config.written, reads, settings_written config, allows_written nonempty⟩,
      serializeMcpServer_eq config⟩

/-- The table of a server with variables, timeouts, filters and settings of a tool. -/
def filteredServer : Document TomlScalar :=
  [("command".toList, stringItem "s".toList), ("args".toList, arrayFromIter ["-v".toList]),
    ("env".toList, .table [("HOME".toList, stringItem "/h".toList)]),
    ("startup_timeout_sec".toList, .value (.float ⟨5, 2, by decide, by decide⟩)),
    ("tool_timeout_sec".toList, .value (.integer 60)),
    ("enabled_tools".toList, arrayFromIter ["read".toList, "write".toList]),
    ("disabled_tools".toList, arrayFromIter ["write".toList]),
    ("tools".toList,
      .table [("read".toList, .table [("approval_mode".toList, stringItem "prompt".toList)])])]

theorem survives_filteredServer :
    ∃ config, McpServerConfig.deserialize filteredServer = .ok config ∧
      config.enabledTools = some ["read".toList, "write".toList] ∧ config.Survives := by
  obtain ⟨config, parsed, enabled⟩ : ∃ config,
      McpServerConfig.deserialize filteredServer = .ok config ∧
        config.enabledTools = some ["read".toList, "write".toList] := by
    refine ⟨_, rfl, ?_⟩
    rfl
  refine ⟨config, parsed, enabled, (survives_iff parsed).mpr ?_⟩
  rw [enabled]
  exact nofun

/-- The table of a server none of whose tools is enabled. -/
def noTools : Document TomlScalar :=
  [("command".toList, stringItem "s".toList), ("enabled_tools".toList, .value (.array []))]

/-- A server that lets no tool pass lets every tool pass when it has been saved. -/
theorem not_survives_noTools :
    ∃ config saved, McpServerConfig.deserialize noTools = .ok config ∧
      McpServerConfig.deserialize (serializeMcpServerTable config) = .ok saved ∧
      (∀ tool, config.allows tool = false ∧ saved.allows tool = true) ∧ ¬config.Survives := by
  obtain ⟨config, parsed, empty, disabled⟩ : ∃ config,
      McpServerConfig.deserialize noTools = .ok config ∧ config.enabledTools = some [] ∧
        config.disabledTools = none := ⟨_, rfl, rfl, rfl⟩
  refine ⟨config, config.written, parsed, deserialize_of_written parsed, fun tool => ?_,
    fun survives => ?_⟩
  · simp [McpServerConfig.allows, McpServerConfig.written, empty, disabled, unlessEmpty]
  · obtain ⟨⟨saved, reads, -, allows⟩, -⟩ := survives
    cases (deserialize_of_written parsed).symm.trans reads
    have differs := allows []
    simp [McpServerConfig.allows, McpServerConfig.written, empty, disabled, unlessEmpty] at differs

end Survival

end CodexPilot.Config
