import CodexPilot.Library.FirstCome
import CodexPilot.RustStd.Text
import Mathlib.Data.Finset.Insert

/-!
# Names of MCP tools

A tool is offered to the model under a name of at most 64 characters.  The raw name is sanitized,
and a name that is too long is cut and ends in the SHA-1 hash of the raw name.  A name that is taken
is not given again: the tool that comes second is skipped.
-/

namespace CodexPilot.Mcp

open RustStd

/-- The lowercase hexadecimal digits. -/
def hexDigits : List Char := "0123456789abcdef".toList

/-- `sha1_hex`: what is used of the hash is that it has 40 hexadecimal digits. -/
structure Sha1 where
  hex : Text → Text
  length_hex : ∀ text, (hex text).length = 40
  digits : ∀ text, ∀ c ∈ hex text, c ∈ hexDigits

/-- `ToolInfo`; the rest is the tool with its descriptions and its connector. -/
structure ToolInfo (ρ : Type*) where
  serverName : Text
  toolName : Text
  toolNamespace : Text
  rest : ρ
  deriving DecidableEq

/-- `MCP_TOOL_NAME_DELIMITER`. -/
def mcpToolNameDelimiter : Text := "__".toList

/-- `MAX_TOOL_NAME_LENGTH`. -/
def maxToolNameLength : ℕ := 64

/-- `CODEX_APPS_MCP_SERVER_NAME`. -/
def codexAppsMcpServerName : Text := "codex_apps".toList

/-- `sanitize_responses_api_tool_name`. -/
def sanitizeResponsesApiToolName (name : Text) : Text :=
  let sanitized := name.map fun c => if c.isAlphanum ∨ c = '_' then c else '_'
  if sanitized = [] then ['_'] else sanitized

variable {ρ : Type*} (sha1 : Sha1)

/-- The raw name of a tool. -/
def ToolInfo.qualifiedNameRaw (tool : ToolInfo ρ) : Text :=
  if tool.serverName ≠ codexAppsMcpServerName then
    "mcp".toList ++ mcpToolNameDelimiter ++ tool.serverName ++ mcpToolNameDelimiter ++ tool.toolName
  else tool.toolNamespace ++ tool.toolName

/-- The name for a raw name.  A sanitized name is ASCII: its characters are its bytes. -/
def qualifiedName (raw : Text) : Text :=
  let sanitized := sanitizeResponsesApiToolName raw
  if maxToolNameLength < sanitized.length then
    let sha1Str := sha1.hex raw
    sanitized.take (maxToolNameLength - sha1Str.length) ++ sha1Str
  else sanitized

/-- What the loop of `qualify_tools` has so far. -/
structure Qualified (ρ : Type*) where
  usedNames : Finset Text
  seenRawNames : Finset Text
  qualifiedTools : Text → Option (ToolInfo ρ)

/-- One round of the loop of `qualify_tools`. -/
def qualifyTool (state : Qualified ρ) (tool : ToolInfo ρ) : Qualified ρ :=
  let raw := tool.qualifiedNameRaw
  if raw ∈ state.seenRawNames then state
  else
    let state := { state with seenRawNames := insert raw state.seenRawNames }
    let name := qualifiedName sha1 raw
    if name ∈ state.usedNames then state
    else
      { state with
        usedNames := insert name state.usedNames
        qualifiedTools := Function.update state.qualifiedTools name (some tool) }

/-- `qualify_tools`. -/
def qualifyTools (tools : List (ToolInfo ρ)) : Text → Option (ToolInfo ρ) :=
  (tools.foldl (qualifyTool sha1) ⟨∅, ∅, fun _ => none⟩).qualifiedTools

/-- The Responses API takes the character in a name. -/
def IsAllowed (c : Char) : Prop := c.isAlphanum ∨ c = '_' ∨ c = '-'

/-- Every tool has exactly one entry, under a name that the Responses API takes and that does not
depend on the order of the tools. -/
structure NoToolLost (tools : List (ToolInfo ρ)) : Prop where
  entries : ∀ tool ∈ tools, ∃! name, qualifyTools sha1 tools name = some tool
  only : ∀ name tool, qualifyTools sha1 tools name = some tool → tool ∈ tools
  names : ∀ name tool, qualifyTools sha1 tools name = some tool →
    name ≠ [] ∧ name.length ≤ maxToolNameLength ∧ ∀ c ∈ name, IsAllowed c
  order : ∀ other, other.Perm tools → qualifyTools sha1 other = qualifyTools sha1 tools

/-- No two raw names that are short enough once sanitized are the same then. -/
def ShortNamesDiffer (tools : List (ToolInfo ρ)) : Prop :=
  tools.Pairwise fun left right =>
    (sanitizeResponsesApiToolName left.qualifiedNameRaw).length ≤ maxToolNameLength →
      sanitizeResponsesApiToolName left.qualifiedNameRaw ≠
        sanitizeResponsesApiToolName right.qualifiedNameRaw

/-! ## The loop is an index -/

section Loop

/-- The name of a tool. -/
def toolName (tool : ToolInfo ρ) : Text := qualifiedName sha1 tool.qualifiedNameRaw

/-- The names in use are those of the tools, and every raw name seen has a name in use. -/
structure Follows (state : Qualified ρ) : Prop where
  used : ∀ name, name ∈ state.usedNames ↔ state.qualifiedTools name ≠ none
  seen : ∀ raw ∈ state.seenRawNames, qualifiedName sha1 raw ∈ state.usedNames

theorem qualifyTool_spec {state : Qualified ρ} (follows : Follows sha1 state) (tool : ToolInfo ρ) :
    Follows sha1 (qualifyTool sha1 state tool) ∧
      (qualifyTool sha1 state tool).qualifiedTools =
        FirstCome.register (toolName sha1) state.qualifiedTools tool := by
  have kept (taken : qualifiedName sha1 tool.qualifiedNameRaw ∈ state.usedNames) :
      FirstCome.register (toolName sha1) state.qualifiedTools tool = state.qualifiedTools :=
    if_neg ((follows.used _).mp taken)
  by_cases repeated : tool.qualifiedNameRaw ∈ state.seenRawNames
  · have same : qualifyTool sha1 state tool = state := if_pos repeated
    rw [same]
    exact ⟨follows, (kept (follows.seen _ repeated)).symm⟩
  · by_cases taken : qualifiedName sha1 tool.qualifiedNameRaw ∈ state.usedNames
    · have same : qualifyTool sha1 state tool =
          { state with seenRawNames := insert tool.qualifiedNameRaw state.seenRawNames } := by
        simp [qualifyTool, repeated, taken]
      rw [same]
      refine ⟨⟨follows.used, fun raw member => ?_⟩, (kept taken).symm⟩
      obtain rfl | before := Finset.mem_insert.mp member
      · exact taken
      · exact follows.seen raw before
    · have free : state.qualifiedTools (toolName sha1 tool) = none :=
        not_not.mp (mt (follows.used _).mpr taken)
      have same : qualifyTool sha1 state tool =
          { usedNames := insert (toolName sha1 tool) state.usedNames
            seenRawNames := insert tool.qualifiedNameRaw state.seenRawNames
            qualifiedTools :=
              Function.update state.qualifiedTools (toolName sha1 tool) (some tool) } := by
        simp [qualifyTool, toolName, repeated, taken]
      rw [same]
      refine ⟨⟨fun name => ?_, fun raw member => ?_⟩, (if_pos free).symm⟩
      · by_cases own : name = toolName sha1 tool
        · simp [own]
        · simp [own, follows.used]
      · obtain rfl | before := Finset.mem_insert.mp member
        · exact Finset.mem_insert_self _ _
        · exact Finset.mem_insert_of_mem (follows.seen raw before)

/-- The loop puts every tool under its name, unless the name is taken. -/
theorem qualifyTools_eq (tools : List (ToolInfo ρ)) :
    qualifyTools sha1 tools = FirstCome.index (toolName sha1) tools := by
  have loop : ∀ tools : List (ToolInfo ρ),
      Follows sha1 (tools.foldl (qualifyTool sha1) ⟨∅, ∅, fun _ => none⟩) ∧
        qualifyTools sha1 tools = FirstCome.index (toolName sha1) tools := by
    intro tools
    induction tools using List.reverseRecOn with
    | nil => exact ⟨⟨by simp, by simp⟩, rfl⟩
    | append_singleton tools tool ih =>
        obtain ⟨follows, same⟩ := ih
        obtain ⟨next, registers⟩ := qualifyTool_spec sha1 follows tool
        unfold qualifyTools FirstCome.index at same ⊢
        rw [List.foldl_append, List.foldl_append, List.foldl_cons, List.foldl_nil, List.foldl_cons,
          List.foldl_nil, registers, same]
        exact ⟨next, rfl⟩
  exact (loop tools).2

end Loop

/-! ## Names -/

section Names

variable {sha1} {raw raw' : Text}

theorem sanitize_ne_nil : sanitizeResponsesApiToolName raw ≠ [] := by
  unfold sanitizeResponsesApiToolName
  dsimp only
  split
  · exact List.cons_ne_nil _ _
  · assumption

theorem isAllowed_of_mem_sanitize {c : Char} (member : c ∈ sanitizeResponsesApiToolName raw) :
    IsAllowed c := by
  unfold sanitizeResponsesApiToolName at member
  dsimp only at member
  split at member
  · exact .inr (.inl (List.mem_singleton.mp member))
  · obtain ⟨original, -, rfl⟩ := List.mem_map.mp member
    split
    case isTrue kept => exact kept.imp_right .inl
    case isFalse => exact .inr (.inl rfl)

theorem isAllowed_of_mem_hexDigits {c : Char} (member : c ∈ hexDigits) : IsAllowed c := by
  have alphanumeric : hexDigits.all Char.isAlphanum = true := rfl
  exact .inl (List.all_eq_true.mp alphanumeric c member)

theorem short_or_long (raw : Text) :
    (sanitizeResponsesApiToolName raw).length ≤ maxToolNameLength ∨
      maxToolNameLength < (sanitizeResponsesApiToolName raw).length :=
  (Nat.lt_or_ge _ _).symm

theorem qualifiedName_of_le (short : (sanitizeResponsesApiToolName raw).length ≤
      maxToolNameLength) : qualifiedName sha1 raw = sanitizeResponsesApiToolName raw :=
  if_neg (Nat.not_lt.mpr short)

theorem qualifiedName_of_lt (long : maxToolNameLength < (sanitizeResponsesApiToolName raw).length) :
    qualifiedName sha1 raw = (sanitizeResponsesApiToolName raw).take 24 ++ sha1.hex raw := by
  refine (if_pos long).trans ?_
  rw [sha1.length_hex]
  rfl

theorem qualifiedName_valid (raw : Text) :
    qualifiedName sha1 raw ≠ [] ∧ (qualifiedName sha1 raw).length ≤ maxToolNameLength ∧
      ∀ c ∈ qualifiedName sha1 raw, IsAllowed c := by
  obtain short | long := short_or_long raw
  · rw [qualifiedName_of_le short]
    exact ⟨sanitize_ne_nil, short, fun c => isAllowed_of_mem_sanitize⟩
  · rw [qualifiedName_of_lt long]
    have size := sha1.length_hex raw
    refine ⟨fun empty => ?_, ?_, fun c member => ?_⟩
    · rw [(List.append_eq_nil_iff.mp empty).2] at size
      cases size
    · simp only [List.length_append, List.length_take, size, maxToolNameLength] at long ⊢
      omega
    · obtain front | digit := List.mem_append.mp member
      · exact isAllowed_of_mem_sanitize (List.mem_of_mem_take front)
      · exact isAllowed_of_mem_hexDigits (sha1.digits raw c digit)

/-- Where the hashes differ and no sanitized name ends in one, two names are the same only when both
are short enough and the same once sanitized. -/
theorem qualifiedName_eq_iff (different : sha1.hex raw ≠ sha1.hex raw')
    (apart : ¬sha1.hex raw <:+ sanitizeResponsesApiToolName raw')
    (apart' : ¬sha1.hex raw' <:+ sanitizeResponsesApiToolName raw) :
    qualifiedName sha1 raw = qualifiedName sha1 raw' ↔
      (sanitizeResponsesApiToolName raw).length ≤ maxToolNameLength ∧
        sanitizeResponsesApiToolName raw = sanitizeResponsesApiToolName raw' := by
  obtain short | long := short_or_long raw
  · obtain short' | long' := short_or_long raw'
    · rw [qualifiedName_of_le short, qualifiedName_of_le short', and_iff_right short]
    · rw [qualifiedName_of_le short, qualifiedName_of_lt long']
      refine iff_of_false (fun same => apart' ⟨_, same.symm⟩) fun both => ?_
      rw [← both.2] at long'
      exact Nat.not_lt.mpr short long'
  · rw [qualifiedName_of_lt long]
    refine iff_of_false (fun same => ?_) fun both => Nat.not_lt.mpr both.1 long
    obtain short' | long' := short_or_long raw'
    · rw [qualifiedName_of_le short'] at same
      exact apart ⟨_, same⟩
    · rw [qualifiedName_of_lt long'] at same
      refine different (List.append_inj_right' same ?_)
      rw [sha1.length_hex, sha1.length_hex]

end Names

section Main

variable {sha1} {tools : List (ToolInfo ρ)}

theorem namesDiffer_iff (distinct : (tools.map ToolInfo.qualifiedNameRaw).Nodup)
    (injective : ∀ left ∈ tools, ∀ right ∈ tools,
      sha1.hex left.qualifiedNameRaw = sha1.hex right.qualifiedNameRaw →
        left.qualifiedNameRaw = right.qualifiedNameRaw) (apart : ∀ left ∈ tools, ∀ right ∈ tools,
      ¬sha1.hex left.qualifiedNameRaw <:+ sanitizeResponsesApiToolName right.qualifiedNameRaw) :
    (tools.Pairwise fun left right => toolName sha1 left ≠ toolName sha1 right) ↔
      ShortNamesDiffer tools := by
  have rawDiffer := List.pairwise_map.mp distinct
  have same : ∀ left ∈ tools, ∀ right ∈ tools, left.qualifiedNameRaw ≠ right.qualifiedNameRaw →
      (toolName sha1 left ≠ toolName sha1 right ↔
        ((sanitizeResponsesApiToolName left.qualifiedNameRaw).length ≤ maxToolNameLength →
          sanitizeResponsesApiToolName left.qualifiedNameRaw ≠
            sanitizeResponsesApiToolName right.qualifiedNameRaw)) := by
    intro left leftMember right rightMember differ
    have eq_iff := qualifiedName_eq_iff (mt (injective left leftMember right rightMember) differ)
      (apart left leftMember right rightMember) (apart right rightMember left leftMember)
    exact (not_congr eq_iff).trans not_and
  constructor
  · intro differ
    exact (rawDiffer.and differ).imp_of_mem fun left right both =>
      (same _ left _ right both.1).mp both.2
  · intro differ
    exact (rawDiffer.and differ).imp_of_mem fun left right both =>
      (same _ left _ right both.1).mpr both.2

/-- No tool is lost exactly when the short names differ once sanitized. -/
theorem noToolLost_iff (distinct : (tools.map ToolInfo.qualifiedNameRaw).Nodup)
    (injective : ∀ left ∈ tools, ∀ right ∈ tools,
      sha1.hex left.qualifiedNameRaw = sha1.hex right.qualifiedNameRaw →
        left.qualifiedNameRaw = right.qualifiedNameRaw) (apart : ∀ left ∈ tools, ∀ right ∈ tools,
      ¬sha1.hex left.qualifiedNameRaw <:+ sanitizeResponsesApiToolName right.qualifiedNameRaw) :
    NoToolLost sha1 tools ↔ ShortNamesDiffer tools := by
  rw [← namesDiffer_iff distinct injective apart]
  constructor
  · intro kept
    refine (FirstCome.forall_index_iff (toolName sha1) (List.Nodup.of_map _ distinct)).mp ?_
    intro tool member
    obtain ⟨name, found, -⟩ := kept.entries tool member
    exact ⟨name, qualifyTools_eq sha1 tools ▸ found⟩
  · intro differ
    refine ⟨fun tool member => ⟨toolName sha1 tool, ?_, fun name found => ?_⟩,
      fun name tool found => ?_, fun name tool found => ?_, fun other perm => ?_⟩
    · rw [qualifyTools_eq]
      exact (FirstCome.index_eq_some_iff _ differ).mpr ⟨member, rfl⟩
    · rw [qualifyTools_eq] at found
      exact (FirstCome.of_index_eq_some _ found).2.symm
    · rw [qualifyTools_eq] at found
      exact (FirstCome.of_index_eq_some _ found).1
    · rw [qualifyTools_eq] at found
      obtain ⟨-, rfl⟩ := FirstCome.of_index_eq_some _ found
      exact qualifiedName_valid _
    · rw [qualifyTools_eq, qualifyTools_eq]
      exact FirstCome.index_eq_of_perm _ differ perm

end Main

/-- Hashes that are known from a table. -/
def Sha1.ofTable (table : List (Text × Text))
    (valid : table.all (fun entry => entry.2.length == 40 && entry.2.all hexDigits.contains) =
      true) : Sha1 where
  hex text := ((table.find? fun entry => entry.1 = text).map Prod.snd).getD (List.replicate 40 '0')
  length_hex text := by
    cases found : table.find? fun entry => entry.1 = text with
    | none => rfl
    | some entry =>
        have hash := List.all_eq_true.mp valid entry (List.mem_of_find?_eq_some found)
        exact eq_of_beq (Bool.and_eq_true_iff.mp hash).1
  digits text := by
    cases found : table.find? fun entry => entry.1 = text with
    | none =>
        intro c member
        rw [List.eq_of_mem_replicate member]
        exact List.mem_cons_self
    | some entry =>
        have hash := List.all_eq_true.mp valid entry (List.mem_of_find?_eq_some found)
        intro c member
        have digit := List.all_eq_true.mp (Bool.and_eq_true_iff.mp hash).2 c member
        exact List.contains_iff_mem.mp digit

/-- A tool of a server. -/
def sampleTool (serverName toolName : String) : ToolInfo Unit where
  serverName := serverName.toList
  toolName := toolName.toList
  toolNamespace := serverName.toList
  rest := ()

/-- Two tools of one server with long names. -/
def longTools : List (ToolInfo Unit) :=
  [sampleTool "my_server"
      "extremely_lengthy_function_name_that_absolutely_surpasses_all_reasonable_limits",
    sampleTool "my_server"
      "yet_another_extremely_lengthy_function_name_that_absolutely_surpasses_all_reasonable_limits"]

/-- Two tools of one server whose names differ in a character that is sanitized. -/
def readTools : List (ToolInfo Unit) :=
  [sampleTool "files" "read.text", sampleTool "files" "read_text"]

/-- The hashes of the raw names of these tools. -/
def sampleSha1 : Sha1 :=
  .ofTable
    (((longTools ++ readTools).map ToolInfo.qualifiedNameRaw).zip
      ["119a2b97664e41363932dc84de21e2ff1b93b3e9".toList,
        "419a82a89325c1b477274a41f8c65ea5f3a7f341".toList,
        "be667b16620c923638298062549d3c10fa6353a3".toList,
        "9c9e381af7fc47499e52e81e24503118d44de957".toList])
    rfl

/-- The long names are cut, and each ends in its hash. -/
theorem noToolLost_longTools :
    NoToolLost sampleSha1 longTools ∧
      qualifyTools sampleSha1 longTools
        "mcp__my_server__extremel119a2b97664e41363932dc84de21e2ff1b93b3e9".toList =
          longTools.head? := by
  have differ : ShortNamesDiffer longTools := by
    unfold ShortNamesDiffer
    decide
  exact ⟨(noToolLost_iff (by decide) (by decide) (by decide)).mpr differ, by decide⟩

/-- Whichever of the two tools comes second is skipped. -/
theorem tool_lost_of_sanitized :
    (readTools.map ToolInfo.qualifiedNameRaw).Nodup ∧
      qualifyTools sampleSha1 readTools "mcp__files__read_text".toList = readTools.head? ∧
        qualifyTools sampleSha1 readTools.reverse "mcp__files__read_text".toList =
          readTools.getLast? ∧
            ¬NoToolLost sampleSha1 readTools := by
  have first : qualifyTools sampleSha1 readTools "mcp__files__read_text".toList =
      readTools.head? := by decide
  have second : qualifyTools sampleSha1 readTools.reverse "mcp__files__read_text".toList =
      readTools.getLast? := by decide
  refine ⟨by decide, first, second, fun kept => ?_⟩
  have same := congrFun (kept.order _ readTools.reverse_perm) "mcp__files__read_text".toList
  rw [first, second] at same
  exact absurd same (by decide)

end CodexPilot.Mcp
