import CodexPilot.ExecPolicy.Appends
import CodexPilot.ExecPolicy.Policy
import CodexPilot.RustStd.Result

/-!
# The hosts of network rules

A host is normalized when its rule is added to the policy in memory and when it is written to the
policy file, and once more when the file is read.  Brackets, a port, trailing dots and white space
are taken off once each, in this order, so a host that shows one of them when a later one is gone is
normalized to something else, or rejected, the second time.
-/

namespace CodexPilot.ExecPolicy

open RustStd Text

/-! ## Rules -/

/-- Why a rule is invalid. -/
inductive RuleError where
  | emptyHost
  | notHostname
  | invalidBracket
  | unsupportedSuffix (raw : Text)
  | wildcard
  | whitespace
  | emptyJustification
  | protocol (other : Text)
  | decision (other : Text)

/-- `Error::InvalidRule`, printed. -/
def invalidRule (text : String) : Text := "invalid rule: ".toList ++ text.toList

/-- The text of an error. -/
def RuleError.message : RuleError → Text
  | .emptyHost => invalidRule "network_rule host cannot be empty"
  | .notHostname =>
      invalidRule "network_rule host must be a hostname or IP literal (without scheme or path)"
  | .invalidBracket => invalidRule "network_rule host has an invalid bracketed IPv6 literal"
  | .unsupportedSuffix raw =>
      invalidRule "network_rule host contains an unsupported suffix: " ++ raw
  | .wildcard =>
      invalidRule "network_rule host must be a specific host; wildcards are not allowed"
  | .whitespace => invalidRule "network_rule host cannot contain whitespace"
  | .emptyJustification => invalidRule "justification cannot be empty"
  | .protocol other =>
      invalidRule
        "network_rule protocol must be one of http, https, socks5_tcp, socks5_udp (got " ++ other ++
        [')']
  | .decision other => "invalid decision: ".toList ++ other

/-- The protocol of a network rule. -/
inductive NetworkRuleProtocol where
  | http
  | https
  | socks5Tcp
  | socks5Udp
  deriving DecidableEq

namespace NetworkRuleProtocol

def parse (raw : Text) : Except RuleError NetworkRuleProtocol :=
  if raw = "http".toList then .ok http
  else if raw = "https".toList ∨ raw = "https_connect".toList ∨ raw = "http-connect".toList then
    .ok https
  else if raw = "socks5_tcp".toList then .ok socks5Tcp
  else if raw = "socks5_udp".toList then .ok socks5Udp
  else .error (.protocol raw)

def asPolicyString : NetworkRuleProtocol → Text
  | http => "http".toList
  | https => "https".toList
  | socks5Tcp => "socks5_tcp".toList
  | socks5Udp => "socks5_udp".toList

theorem parse_asPolicyString (protocol : NetworkRuleProtocol) :
    parse protocol.asPolicyString = .ok protocol := by
  cases protocol <;> rfl

end NetworkRuleProtocol

/-- `Decision::parse`. -/
def Decision.parse (raw : Text) : Except RuleError Decision :=
  if raw = "allow".toList then .ok .allow
  else if raw = "prompt".toList then .ok .prompt
  else if raw = "forbidden".toList then .ok .forbidden
  else .error (.decision raw)

def parseNetworkRuleDecision (raw : Text) : Except RuleError Decision :=
  if raw = "deny".toList then .ok .forbidden else Decision.parse raw

/-- How a decision is written in a network rule. -/
def networkRuleDecision : Decision → Text
  | .allow => "allow".toList
  | .prompt => "prompt".toList
  | .forbidden => "deny".toList

theorem parseNetworkRuleDecision_networkRuleDecision (decision : Decision) :
    parseNetworkRuleDecision (networkRuleDecision decision) = .ok decision := by
  cases decision <;> rfl

/-- A rule about one host. -/
structure NetworkRule where
  host : Text
  protocol : NetworkRuleProtocol
  decision : Decision
  justification : Option Text

/-! ## Hosts -/

/-- `str::split_once` for a character. -/
def splitOnce (text : Text) (c : Char) : Option (Text × Text) :=
  if c ∈ text then some (text.takeWhile (· != c), (text.dropWhile (· != c)).tail) else none

/-- `str::rsplit_once` for a character. -/
def rsplitOnce (text : Text) (c : Char) : Option (Text × Text) :=
  if c ∈ text then some ((text.rdropWhile (· != c)).dropLast, text.rtakeWhile (· != c)) else none

/-- A nonempty text of digits. -/
def isNumber (text : Text) : Bool := text ≠ [] && text.all Char.isDigit

/-- A colon and a number. -/
def isPort : Text → Bool
  | ':' :: port => isNumber port
  | _ => false

/-- What is left of a trimmed host without its brackets or its port. -/
def hostPart (raw host : Text) : Except RuleError Text :=
  match host with
  | '[' :: stripped =>
      match splitOnce stripped ']' with
      | none => .error .invalidBracket
      | some (inside, rest) =>
          if rest ≠ [] ∧ ¬isPort rest then .error (.unsupportedSuffix raw) else .ok inside
  | host =>
      if host.count ':' = 1 then
        match rsplitOnce host ':' with
        | some (candidate, port) =>
            if candidate ≠ [] ∧ isNumber port then .ok candidate else .ok host
        | none => .ok host
      else .ok host

/-- Without trailing dots and the white space around, in lower case. -/
def trimmedHost (host : Text) : Text := (host.trimEndMatches '.').trim.toAsciiLowercase

/-- The last checks. -/
def checkHost (normalized : Text) : Except RuleError Text :=
  if normalized = [] then .error .emptyHost
  else if normalized.contains '*' then .error .wildcard
  else if normalized.any isWhitespace then .error .whitespace
  else .ok normalized

/-- A scheme, a path, a query or a fragment. -/
def hasUrlPart (host : Text) : Bool :=
  host.tails.any (startsWith · "://".toList) || host.contains '/' || host.contains '?' ||
    host.contains '#'

/-- `normalize_network_rule_host`. -/
def normalizeNetworkRuleHost (raw : Text) : Except RuleError Text :=
  let host := raw.trim
  if host = [] then .error .emptyHost
  else if hasUrlPart host then .error .notHostname
  else do
    let host ← hostPart raw host
    checkHost (trimmedHost host)

/-! ### The host part -/

/-- A port of one colon behind a host. -/
def HasPort (host : Text) : Prop :=
  ∃ before port, host = before ++ ':' :: port ∧ ':' ∉ before ∧ before ≠ [] ∧ isNumber port

/-- The host part of a trimmed host: what stands in brackets, before a port, or all of it. -/
inductive HostPart : Text → Text → Prop
  | bracketed {host rest : Text} (closed : ']' ∉ host) (suffix : rest = [] ∨ isPort rest) :
      HostPart ('[' :: (host ++ ']' :: rest)) host
  | ported {host port : Text} (unbracketed : host.head? ≠ some '[') (noColon : ':' ∉ host)
      (nonempty : host ≠ []) (number : isNumber port) : HostPart (host ++ ':' :: port) host
  | whole {host : Text} (unbracketed : host.head? ≠ some '[') (noPort : ¬HasPort host) :
      HostPart host host

theorem colon_notMem_of_isNumber {port : Text} (number : isNumber port) : ':' ∉ port := by
  intro member
  rw [isNumber, Bool.and_eq_true, List.all_eq_true] at number
  cases number.2 ':' member

theorem splitOnce_append_cons {before : Text} {c : Char} (absent : c ∉ before) (after : Text) :
    splitOnce (before ++ c :: after) c = some (before, after) := by
  have differ : ∀ d ∈ before, (d != c) = true := by
    intro d member
    exact bne_iff_ne.mpr (ne_of_mem_of_not_mem member absent)
  rw [splitOnce, if_pos (by simp), List.takeWhile_append_of_pos differ,
    List.dropWhile_append_of_pos differ, List.takeWhile_cons_of_neg (by simp),
    List.dropWhile_cons_of_neg (by simp), List.append_nil, List.tail_cons]

theorem splitOnce_of_notMem {text : Text} {c : Char} (absent : c ∉ text) :
    splitOnce text c = none := if_neg absent

theorem rdropWhile_append_cons {p : Char → Bool} {c : Char} (kept : ¬p c) (before after : Text) :
    (before ++ c :: after).rdropWhile p = before ++ c :: after.rdropWhile p := by
  induction after using List.reverseRecOn with
  | nil => rw [List.rdropWhile_concat_neg _ _ _ kept, List.rdropWhile_nil]
  | append_singleton after last ih =>
      rw [← List.cons_append, ← List.append_assoc]
      by_cases dropped : p last
      · rw [List.rdropWhile_concat_pos _ _ _ dropped, List.rdropWhile_concat_pos _ _ _ dropped,
          ih]
      · rw [List.rdropWhile_concat_neg _ _ _ dropped, List.rdropWhile_concat_neg _ _ _ dropped,
          List.append_assoc, List.cons_append]

theorem rsplitOnce_append_cons {after : Text} {c : Char} (absent : c ∉ after) (before : Text) :
    rsplitOnce (before ++ c :: after) c = some (before, after) := by
  have differ : ∀ d ∈ after, (d != c) = true := by
    intro d member
    exact bne_iff_ne.mpr (ne_of_mem_of_not_mem member absent)
  have front : (before ++ c :: after).rdropWhile (· != c) = before ++ [c] := by
    rw [rdropWhile_append_cons (by simp), List.rdropWhile_eq_nil_iff.mpr differ]
  have whole := List.rdropWhile_append_rtakeWhile (p := (· != c)) (l := before ++ c :: after)
  rw [front, List.append_cons before c after, List.append_cancel_left_eq] at whole
  rw [rsplitOnce, if_pos (by simp), front, List.append_cons before c after, whole,
    List.dropLast_concat]

theorem hostPart_of_unbracketed {raw host : Text} (unbracketed : host.head? ≠ some '[') :
    hostPart raw host = if host.count ':' = 1 then
        match rsplitOnce host ':' with
        | some (candidate, port) =>
            if candidate ≠ [] ∧ isNumber port then .ok candidate else .ok host
        | none => .ok host
      else .ok host := by
  cases host with
  | nil => rfl
  | cons first rest =>
      rw [hostPart]
      rintro stripped opened
      cases opened
      exact unbracketed rfl

theorem hostPart_ported {raw host port : Text} (unbracketed : host.head? ≠ some '[')
    (noColon : ':' ∉ host) (nonempty : host ≠ []) (number : isNumber port) :
    hostPart raw (host ++ ':' :: port) = .ok host := by
  have absent := colon_notMem_of_isNumber number
  have once : (host ++ ':' :: port).count ':' = 1 := by
    rw [List.count_append, List.count_cons_self, List.count_eq_zero.mpr noColon,
      List.count_eq_zero.mpr absent]
  rw [hostPart_of_unbracketed (by rwa [List.head?_append_of_ne_nil _ nonempty]), if_pos once,
    rsplitOnce_append_cons absent]
  exact if_pos ⟨nonempty, number⟩

theorem hostPart_whole {raw host : Text} (unbracketed : host.head? ≠ some '[')
    (noPort : ¬HasPort host) : hostPart raw host = .ok host := by
  rw [hostPart_of_unbracketed unbracketed]
  split
  case isTrue once =>
    obtain ⟨before, port, rfl, absent⟩ := List.eq_append_cons_of_mem
      (List.count_pos_iff.mp (once ▸ Nat.zero_lt_one))
    have noMore : ':' ∉ port := by
      rw [List.count_append, List.count_cons_self] at once
      exact List.count_eq_zero.mp (by omega)
    rw [rsplitOnce_append_cons noMore]
    exact if_neg fun ⟨nonempty, number⟩ => noPort ⟨before, port, rfl, absent, nonempty, number⟩
  case isFalse => rfl

theorem hostPart_bracketed {raw host rest : Text} (closed : ']' ∉ host) :
    hostPart raw ('[' :: (host ++ ']' :: rest)) =
      if rest ≠ [] ∧ ¬isPort rest then .error (.unsupportedSuffix raw) else .ok host := by
  simp only [hostPart, splitOnce_append_cons closed]

theorem hostPart_eq_ok_iff {raw text host : Text} :
    hostPart raw text = .ok host ↔ HostPart text host := by
  constructor
  · intro passed
    by_cases bracketed : text.head? = some '['
    · obtain ⟨stripped, rfl⟩ := List.head?_eq_some_iff.mp bracketed
      by_cases closes : ']' ∈ stripped
      · obtain ⟨inside, rest, rfl, closed⟩ := List.eq_append_cons_of_mem closes
        rw [hostPart_bracketed closed] at passed
        split at passed
        case isTrue => cases passed
        case isFalse suffix =>
          cases passed
          exact .bracketed closed (by tauto)
      · simp only [hostPart, splitOnce_of_notMem closes] at passed
        cases passed
    · by_cases ported : HasPort text
      · obtain ⟨before, port, rfl, noColon, nonempty, number⟩ := ported
        have unbracketed : before.head? ≠ some '[' := by
          rwa [List.head?_append_of_ne_nil _ nonempty] at bracketed
        rw [hostPart_ported unbracketed noColon nonempty number] at passed
        cases passed
        exact .ported unbracketed noColon nonempty number
      · rw [hostPart_whole bracketed ported] at passed
        cases passed
        exact .whole bracketed ported
  · intro part
    cases part with
    | bracketed closed suffix =>
        rw [hostPart_bracketed closed]
        exact if_neg (by tauto)
    | ported unbracketed noColon nonempty number =>
        exact hostPart_ported unbracketed noColon nonempty number
    | whole unbracketed noPort => exact hostPart_whole unbracketed noPort

/-! ### The second time -/

theorem toLower_eq_iff {c d : Char} (caseless : d.isAlpha = false) : c.toLower = d ↔ c = d := by
  rw [← Bool.not_eq_true, isAlpha_iff_toNat] at caseless
  rw [← Char.toNat_inj, ← Char.toNat_inj, toNat_toLower]
  split <;> omega

theorem mem_toAsciiLowercase_iff {text : Text} {c : Char} (caseless : c.isAlpha = false) :
    c ∈ text.toAsciiLowercase ↔ c ∈ text := by
  simp [toAsciiLowercase, toLower_eq_iff caseless]

theorem trimmedHost_length_le (host : Text) : (trimmedHost host).length ≤ host.length := by
  rw [trimmedHost, toAsciiLowercase, List.length_map]
  apply List.Sublist.length_le
  apply List.Sublist.trans (List.rdropWhile_prefix _ _).sublist
  exact (List.dropWhile_sublist _).trans (List.rdropWhile_prefix _ _).sublist

theorem trimmedHost_concat_dot (front : Text) :
    trimmedHost (front ++ ['.']) = trimmedHost front := by
  rw [trimmedHost, trimEndMatches, List.rdropWhile_concat_pos _ _ _ (by simp)]
  rfl

theorem hasUrlPart_iff {host : Text} :
    hasUrlPart host = true ↔ '/' ∈ host ∨ '?' ∈ host ∨ '#' ∈ host := by
  have scheme : host.tails.any (startsWith · "://".toList) = true → '/' ∈ host := by
    intro found
    obtain ⟨tail, suffix, begins⟩ := List.any_eq_true.mp found
    rw [List.mem_tails] at suffix
    have front : "://".toList <+: tail := List.isPrefixOf_iff_prefix.mp begins
    exact suffix.subset (front.subset (by decide))
  simp only [hasUrlPart, Bool.or_eq_true, List.contains_iff_mem]
  tauto

theorem checkHost_eq_ok_iff {host normalized : Text} :
    checkHost host = .ok normalized ↔
      normalized = host ∧ host ≠ [] ∧ '*' ∉ host ∧ ∀ c ∈ host, isWhitespace c = false := by
  rw [checkHost]
  split_ifs with empty wildcard whitespace
  · simp [empty]
  · simp_all
  · obtain ⟨c, member, white⟩ := List.any_eq_true.mp whitespace
    exact ⟨nofun, fun passed => absurd white (by simp [passed.2.2.2 c member])⟩
  · have clean : ∀ c ∈ host, isWhitespace c = false := by
      intro c member
      exact Bool.eq_false_iff.mpr fun white => whitespace (List.any_eq_true.mpr ⟨c, member, white⟩)
    constructor
    · intro same
      cases same
      exact ⟨rfl, empty, mt List.contains_iff_mem.mpr wildcard, clean⟩
    · rintro ⟨rfl, -⟩
      rfl

theorem normalizeNetworkRuleHost_eq_ok_iff {raw normalized : Text} :
    normalizeNetworkRuleHost raw = .ok normalized ↔ raw.trim ≠ [] ∧ hasUrlPart raw.trim = false ∧
      ∃ host, HostPart raw.trim host ∧ checkHost (trimmedHost host) = .ok normalized := by
  simp only [normalizeNetworkRuleHost]
  split_ifs with empty url
  · simp [empty]
  · simp [url]
  · rw [bind_eq_ok_iff]
    simp only [hostPart_eq_ok_iff]
    simp [empty, url]

/-- What a normalized host is like. -/
structure Normalized (host : Text) : Prop where
  nonempty : host ≠ []
  noUrlPart : hasUrlPart host = false
  noWildcard : '*' ∉ host
  noWhitespace : ∀ c ∈ host, isWhitespace c = false
  lowercase : host.toAsciiLowercase = host

theorem HostPart.subset {text host : Text} (part : HostPart text host) : host ⊆ text := by
  cases part with
  | bracketed closed suffix | ported | whole => simp

theorem normalized_of_ok {raw host : Text} (normalized : normalizeNetworkRuleHost raw = .ok host) :
    Normalized host := by
  obtain ⟨-, noUrlPart, part, isPart, checked⟩ := normalizeNetworkRuleHost_eq_ok_iff.mp normalized
  obtain ⟨rfl, nonempty, noWildcard, noWhitespace⟩ := checkHost_eq_ok_iff.mp checked
  refine ⟨nonempty, ?_, noWildcard, noWhitespace, ?_⟩
  · have comes {c : Char} (caseless : c.isAlpha = false) (member : c ∈ trimmedHost part) :
        c ∈ raw.trim := by
      apply isPart.subset
      rw [trimmedHost, mem_toAsciiLowercase_iff caseless] at member
      exact (List.rdropWhile_prefix _ _).subset ((List.dropWhile_sublist _).subset
        ((List.rdropWhile_prefix _ _).subset member))
    rw [← Bool.not_eq_true, hasUrlPart_iff] at noUrlPart ⊢
    rintro (slash | question | hash)
    · exact noUrlPart (.inl (comes (by decide) slash))
    · exact noUrlPart (.inr (.inl (comes (by decide) question)))
    · exact noUrlPart (.inr (.inr (comes (by decide) hash)))
  · rw [trimmedHost, toAsciiLowercase, toAsciiLowercase, List.map_map]
    exact List.map_congr_left fun c _ => toLower_toLower c

theorem Normalized.trim {host : Text} (normalized : Normalized host) : host.trim = host :=
  Text.trim_eq_self (fun _ first => normalized.noWhitespace _ (List.mem_of_head? first))
    fun _ last => normalized.noWhitespace _ (List.mem_of_getLast? last)

/-- What a second normalization takes away. -/
theorem normalize_normalized_iff {host : Text} (normalized : Normalized host) :
    normalizeNetworkRuleHost host = .ok host ↔
      host.head? ≠ some '[' ∧ ¬HasPort host ∧ host.getLast? ≠ some '.' := by
  rw [normalizeNetworkRuleHost_eq_ok_iff, normalized.trim]
  constructor
  · rintro ⟨-, -, part, isPart, checked⟩
    have same := (checkHost_eq_ok_iff.mp checked).1
    have length := trimmedHost_length_le part
    rw [← same] at length
    cases isPart with
    | bracketed =>
        simp only [List.length_cons, List.length_append] at length
        omega
    | ported => simp at length
    | whole unbracketed noPort =>
        refine ⟨unbracketed, noPort, fun dot => ?_⟩
        obtain ⟨front, rfl⟩ := List.getLast?_eq_some_iff.mp dot
        have shorter := trimmedHost_length_le front
        rw [← trimmedHost_concat_dot, ← same, List.length_append, List.length_singleton] at shorter
        omega
  · rintro ⟨unbracketed, noPort, noDot⟩
    refine ⟨normalized.nonempty, normalized.noUrlPart, host, .whole unbracketed noPort, ?_⟩
    have undotted : host.trimEndMatches '.' = host := by
      rw [trimEndMatches, List.rdropWhile_eq_self_iff]
      intro nonempty
      rw [List.getLast?_eq_some_getLast nonempty] at noDot
      simpa using noDot
    rw [checkHost_eq_ok_iff, trimmedHost, undotted, normalized.trim, normalized.lowercase]
    exact ⟨rfl, normalized.nonempty, normalized.noWildcard, normalized.noWhitespace⟩

/-! ### What the first time leaves -/

/-- What taking off the dots, and then the white space, leaves something of. -/
inductive Hidden : Text → Prop
  | bracket {white rest : Text} (blank : white.all isWhitespace) : Hidden (white ++ '[' :: rest)
  | port {before port white dots : Text} (noColon : ':' ∉ before) (ink : HasInk before)
      (number : isNumber port) (blank : white.all isWhitespace) (dotted : dots.all (· == '.')) :
      Hidden (before ++ ':' :: (port ++ (white ++ dots)))
  | dot {front white dots : Text} (gap : white ≠ []) (blank : white.all isWhitespace)
      (dotted : dots.all (· == '.')) : Hidden (front ++ '.' :: (white ++ dots))

theorem rdropWhile_append_of_all {p : Char → Bool} {after : Text} (dropped : after.all p)
    (before : Text) : (before ++ after).rdropWhile p = before.rdropWhile p := by
  induction after using List.reverseRecOn with
  | nil => rw [List.append_nil]
  | append_singleton after last ih =>
      simp only [List.all_append, List.all_cons, List.all_nil, Bool.and_true,
        Bool.and_eq_true] at dropped
      rw [← List.append_assoc, List.rdropWhile_concat_pos _ _ _ dropped.2, ih dropped.1]

theorem trim_append_cons {c : Char} (black : isWhitespace c = false) (before after : Text) :
    (before ++ c :: after).trim = before.trimStart ++ c :: after.trimEnd := by
  have start : (before ++ c :: after).trimStart = before.trimStart ++ c :: after := by
    induction before with
    | nil => simp [trimStart, black]
    | cons first before ih =>
        by_cases white : isWhitespace first
        · simpa [trimStart, white] using ih
        · simp [trimStart, white]
  rw [trim, start]
  exact rdropWhile_append_cons (by simp [black]) _ _

theorem head_trimStart_black {text : Text} {c : Char} (first : text.trimStart.head? = some c) :
    isWhitespace c = false := by
  have black := List.head?_dropWhile_not isWhitespace text
  rw [trimStart] at first
  rwa [first] at black

theorem head_trim_black {text : Text} {c : Char} (first : text.trim.head? = some c) :
    isWhitespace c = false := by
  have start : text.trim <+: text.trimStart := List.rdropWhile_prefix _ _
  obtain ⟨rest, start⟩ := start
  have startFirst : text.trimStart.head? = some c := by
    rw [← start, List.head?_append, first]
    rfl
  exact head_trimStart_black startFirst

theorem exists_trim (text : Text) : ∃ before after,
    text = before ++ (text.trim ++ after) ∧ before.all isWhitespace ∧ after.all isWhitespace := by
  refine ⟨text.takeWhile isWhitespace, text.trimStart.rtakeWhile isWhitespace, ?_,
    List.all_takeWhile, List.all_eq_true.mpr fun _ => List.mem_rtakeWhile_imp⟩
  rw [trim, trimEnd, List.rdropWhile_append_rtakeWhile, trimStart, List.takeWhile_append_dropWhile]

/-- The trimmed host, and what was around it. -/
theorem exists_core (host : Text) : ∃ before core after dots,
    host = before ++ (core ++ (after ++ dots)) ∧ trimmedHost host = core.toAsciiLowercase ∧
      before.all isWhitespace ∧ after.all isWhitespace ∧ dots.all (· == '.') ∧
      (∀ c, core.head? = some c → isWhitespace c = false) ∧
      (core.getLast? = some '.' → after ≠ []) := by
  obtain ⟨before, after, around, white, white'⟩ := exists_trim (host.trimEndMatches '.')
  refine ⟨before, (host.trimEndMatches '.').trim, after, host.rtakeWhile (· == '.'), ?_, rfl, white,
    white', List.all_eq_true.mpr fun _ => List.mem_rtakeWhile_imp (p := (· == '.')),
    fun _ => head_trim_black, ?_⟩
  · calc
      host = host.trimEndMatches '.' ++ host.rtakeWhile (· == '.') :=
        List.rdropWhile_append_rtakeWhile.symm
      _ = before ++ ((host.trimEndMatches '.').trim ++ after) ++ host.rtakeWhile (· == '.') := by
        rw [← around]
      _ = _ := by simp only [List.append_assoc]
  · rintro dot rfl
    have last : (host.trimEndMatches '.').getLast? = some '.' := by
      rw [around, List.append_nil, List.getLast?_append, dot]
      rfl
    have nonempty : host.trimEndMatches '.' ≠ [] := by
      intro empty
      rw [empty] at last
      cases last
    apply List.rdropWhile_last_not (· == '.') host nonempty
    rw [List.getLast?_eq_some_getLast nonempty, Option.some.injEq] at last
    exact beq_iff_eq.mpr last

/-! Case does not matter for what may be hidden. -/

theorem head?_toAsciiLowercase_iff {text : Text} {c : Char} (caseless : c.isAlpha = false) :
    text.toAsciiLowercase.head? = some c ↔ text.head? = some c := by
  rw [toAsciiLowercase, List.head?_map, Option.map_eq_some_iff]
  simp [toLower_eq_iff caseless]

theorem getLast?_toAsciiLowercase_iff {text : Text} {c : Char} (caseless : c.isAlpha = false) :
    text.toAsciiLowercase.getLast? = some c ↔ text.getLast? = some c := by
  rw [toAsciiLowercase, List.getLast?_map, Option.map_eq_some_iff]
  simp [toLower_eq_iff caseless]

theorem toNat_of_isDigit {c : Char} (digit : c.isDigit = true) : 48 ≤ c.toNat ∧ c.toNat ≤ 57 :=
  Char.isDigit_iff_toNat.mp digit

theorem isWhitespace_of_isDigit {c : Char} (digit : c.isDigit = true) : isWhitespace c = false := by
  have range := toNat_of_isDigit digit
  simp only [isWhitespace, Bool.or_eq_false_iff, Bool.and_eq_false_iff, decide_eq_false_iff_not,
    beq_eq_false_iff_ne]
  omega

theorem isDigit_toLower (c : Char) : c.toLower.isDigit = c.isDigit := by
  rw [Bool.eq_iff_iff, Char.isDigit_iff_toNat, Char.isDigit_iff_toNat, toNat_toLower]
  simp only [Char.reduceToNat]
  split <;> omega

theorem isNumber_toAsciiLowercase (port : Text) :
    isNumber port.toAsciiLowercase = isNumber port := by
  have digits : Char.isDigit ∘ Char.toLower = Char.isDigit := funext isDigit_toLower
  simp [isNumber, toAsciiLowercase, List.all_map, digits]

theorem hasPort_toAsciiLowercase_iff {text : Text} :
    HasPort text.toAsciiLowercase ↔ HasPort text := by
  constructor
  · rintro ⟨before, port, whole, noColon, nonempty, number⟩
    obtain ⟨before', rest, rfl, rfl, split⟩ := List.map_eq_append_iff.mp whole
    obtain ⟨c, port', rfl, colon, rfl⟩ := List.map_eq_cons_iff.mp split
    rw [toLower_eq_iff (by decide)] at colon
    subst colon
    refine ⟨before', port', rfl, ?_, ?_, ?_⟩
    · exact mt (mem_toAsciiLowercase_iff (by decide)).mpr noColon
    · exact fun empty => nonempty (List.map_eq_nil_iff.mpr empty)
    · exact (isNumber_toAsciiLowercase port').symm.trans number
  · rintro ⟨before, port, rfl, noColon, nonempty, number⟩
    refine ⟨toAsciiLowercase before, toAsciiLowercase port, ?_, ?_, ?_, ?_⟩
    · simp [toAsciiLowercase]
    · exact mt (mem_toAsciiLowercase_iff (by decide)).mp noColon
    · simpa [toAsciiLowercase] using nonempty
    · rwa [isNumber_toAsciiLowercase]

theorem trimmedHost_append_cons {c : Char} (black : isWhitespace c = false) (undotted : c ≠ '.')
    (before after : Text) : trimmedHost (before ++ c :: after) =
      toAsciiLowercase (before.trimStart ++ c :: trimEnd (after.trimEndMatches '.')) := by
  rw [trimmedHost, trimEndMatches, rdropWhile_append_cons (by simpa using undotted),
    trim_append_cons black]
  rfl

theorem trimmedHost_bracket {white rest : Text} (blank : white.all isWhitespace) :
    (trimmedHost (white ++ '[' :: rest)).head? = some '[' := by
  have gone : white.trimStart = [] := List.dropWhile_eq_nil_iff.mpr (List.all_eq_true.mp blank)
  rw [trimmedHost_append_cons (by decide) (by decide), gone]
  rfl

theorem trimEndMatches_append_blank {white : Text} (blank : white.all isWhitespace) (front : Text)
    (undotted : white = [] → front.trimEndMatches '.' = front) :
    (front ++ white).trimEndMatches '.' = front ++ white := by
  induction white using List.reverseRecOn with
  | nil => rw [List.append_nil, undotted rfl]
  | append_singleton white last _ =>
      rw [← List.append_assoc]
      apply List.rdropWhile_concat_neg
      rw [beq_iff_eq]
      rintro rfl
      cases List.all_eq_true.mp blank '.' (by simp)

theorem trimEnd_port {port white dots : Text} (number : isNumber port)
    (blank : white.all isWhitespace) (dotted : dots.all (· == '.')) :
    trimEnd ((port ++ (white ++ dots)).trimEndMatches '.') = port := by
  rw [isNumber, Bool.and_eq_true, decide_eq_true_eq, List.all_eq_true] at number
  obtain ⟨nonempty, digits⟩ := number
  have undotted : port.trimEndMatches '.' = port := by
    rw [trimEndMatches, List.rdropWhile_eq_self_iff]
    intro nonempty dot
    rw [beq_iff_eq] at dot
    cases dot ▸ digits _ (List.getLast_mem nonempty)
  have trimmed : port.trimEnd = port := by
    rw [trimEnd, List.rdropWhile_eq_self_iff]
    intro nonempty
    simp [isWhitespace_of_isDigit (digits _ (List.getLast_mem nonempty))]
  rw [← List.append_assoc, trimEndMatches, rdropWhile_append_of_all dotted, ← trimEndMatches,
    trimEndMatches_append_blank blank port fun _ => undotted, trimEnd,
    rdropWhile_append_of_all blank]
  exact trimmed

theorem trimmedHost_port {before port white dots : Text} (noColon : ':' ∉ before)
    (ink : HasInk before) (number : isNumber port) (blank : white.all isWhitespace)
    (dotted : dots.all (· == '.')) :
    HasPort (trimmedHost (before ++ ':' :: (port ++ (white ++ dots)))) := by
  rw [trimmedHost_append_cons (by decide) (by decide), trimEnd_port number blank dotted,
    hasPort_toAsciiLowercase_iff]
  refine ⟨before.trimStart, port, rfl, ?_, ?_, number⟩
  · exact fun member => noColon ((List.dropWhile_sublist _).subset member)
  · obtain ⟨c, member, black⟩ := ink
    intro gone
    rw [List.dropWhile_eq_nil_iff.mp gone c member] at black
    cases black

theorem trimmedHost_dot {front white dots : Text} (gap : white ≠ [])
    (blank : white.all isWhitespace) (dotted : dots.all (· == '.')) :
    (trimmedHost (front ++ '.' :: (white ++ dots))).getLast? = some '.' := by
  have undotted : (front ++ '.' :: white).trimEndMatches '.' = front ++ '.' :: white := by
    rw [List.append_cons]
    exact trimEndMatches_append_blank blank _ fun none => absurd none gap
  have gone : white.trimEnd = [] :=
    List.rdropWhile_eq_nil_iff.mpr (List.all_eq_true.mp blank)
  rw [trimmedHost, ← List.cons_append, ← List.append_assoc, trimEndMatches,
    rdropWhile_append_of_all dotted, ← trimEndMatches, undotted, trim_append_cons (by decide), gone,
    getLast?_toAsciiLowercase_iff (by decide), List.getLast?_concat]

theorem hidden_iff (host : Text) : Hidden host ↔
    ¬((trimmedHost host).head? ≠ some '[' ∧ ¬HasPort (trimmedHost host) ∧
      (trimmedHost host).getLast? ≠ some '.') := by
  constructor
  · rintro hidden ⟨unbracketed, noPort, noDot⟩
    cases hidden with
    | bracket blank => exact unbracketed (trimmedHost_bracket blank)
    | port noColon ink number blank dotted =>
        exact noPort (trimmedHost_port noColon ink number blank dotted)
    | dot gap blank dotted => exact noDot (trimmedHost_dot gap blank dotted)
  · intro changed
    obtain ⟨before, core, after, dots, around, trimmed, white, white', dotted, black, gap⟩ :=
      exists_core host
    rw [trimmed, ne_eq, ne_eq, head?_toAsciiLowercase_iff (by decide), hasPort_toAsciiLowercase_iff,
      getLast?_toAsciiLowercase_iff (by decide)] at changed
    subst around
    by_cases bracketed : core.head? = some '['
    · obtain ⟨rest, rfl⟩ := List.head?_eq_some_iff.mp bracketed
      exact .bracket white
    by_cases ported : HasPort core
    · obtain ⟨first, port, rfl, noColon, nonempty, number⟩ := ported
      have ink : HasInk (before ++ first) := by
        obtain ⟨c, rest, rfl⟩ := List.exists_cons_of_ne_nil nonempty
        exact ⟨c, by simp, black c rfl⟩
      have noColon' : ':' ∉ before ++ first := by
        refine List.not_mem_append (fun member => ?_) noColon
        cases List.all_eq_true.mp white ':' member
      simpa using Hidden.port noColon' ink number white' dotted
    · have dot : core.getLast? = some '.' := by
        by_contra noDot
        exact changed ⟨bracketed, ported, noDot⟩
      obtain ⟨front, rfl⟩ := List.getLast?_eq_some_iff.mp dot
      have hidden : Hidden ((before ++ front) ++ '.' :: (after ++ dots)) :=
        .dot (gap dot) white' dotted
      simpa using hidden

/-! ## Adding, writing and reading a rule -/

/-- The check of a justification. -/
def checkJustification (justification : Option Text) : Except RuleError Unit :=
  if justification.any fun raw => raw.trim = [] then .error .emptyJustification else .ok ()

/-- `Policy::add_network_rule`. -/
def addNetworkRule (networkRules : List NetworkRule) (host : Text) (protocol : NetworkRuleProtocol)
    (decision : Decision) (justification : Option Text) : Except RuleError (List NetworkRule) := do
  let host ← normalizeNetworkRuleHost host
  checkJustification justification
  return networkRules ++ [⟨host, protocol, decision, justification⟩]

/-- The line of `blocking_append_network_rule`. -/
def networkRuleLine (host : Text) (protocol : NetworkRuleProtocol) (decision : Decision)
    (justification : Option Text) : Except RuleError RuleLine := do
  let host ← normalizeNetworkRuleHost host
  checkJustification justification
  return networkRule host protocol.asPolicyString (networkRuleDecision decision) justification

/-- The arguments of a call of `network_rule` in a policy file. -/
structure NetworkRuleCall where
  host : Text
  protocol : Text
  decision : Text
  justification : Option Text

/-- The builtin `network_rule` of policy files. -/
def readNetworkRule (call : NetworkRuleCall) : Except RuleError NetworkRule := do
  let protocol ← NetworkRuleProtocol.parse call.protocol
  let decision ← parseNetworkRuleDecision call.decision
  checkJustification call.justification
  let host ← normalizeNetworkRuleHost call.host
  return ⟨host, protocol, decision, call.justification⟩

/-- The rule of a line of a policy file, whose call is evaluated by Starlark. -/
def reloadNetworkRule (evaluate : Text → Option NetworkRuleCall) (line : RuleLine) :
    Option NetworkRule :=
  (evaluate line.text).bind fun call => (readNetworkRule call).toOption

/-! ## Memory and file -/

section Agreement

variable {evaluate : Text → Option NetworkRuleCall} {networkRules : List NetworkRule}
  {raw host : Text} {protocol : NetworkRuleProtocol} {decision : Decision}
  {justification : Option Text}

/-- A rule that is added to the policy and appended to the file has one host in both. -/
def HostsAgree (evaluate : Text → Option NetworkRuleCall) (networkRules : List NetworkRule)
    (raw : Text) (protocol : NetworkRuleProtocol) (decision : Decision)
    (justification : Option Text) : Prop :=
  ∃ line rule reloaded,
    networkRuleLine raw protocol decision justification = .ok line ∧
    addNetworkRule networkRules raw protocol decision justification =
      .ok (networkRules ++ [rule]) ∧
    reloadNetworkRule evaluate line = some reloaded ∧ reloaded.host = rule.host

theorem readNetworkRule_written (justified : checkJustification justification = .ok ()) :
    readNetworkRule
        ⟨host, protocol.asPolicyString, networkRuleDecision decision, justification⟩ =
      (normalizeNetworkRuleHost host).map (⟨·, protocol, decision, justification⟩) := by
  rw [readNetworkRule, NetworkRuleProtocol.parse_asPolicyString,
    parseNetworkRuleDecision_networkRuleDecision, justified]
  cases normalizeNetworkRuleHost host <;> rfl

theorem hostsAgree_iff (normalized : normalizeNetworkRuleHost raw = .ok host)
    (justified : checkJustification justification = .ok ())
    (evaluated : evaluate (networkRule host protocol.asPolicyString (networkRuleDecision decision)
        justification).text =
      some ⟨host, protocol.asPolicyString, networkRuleDecision decision, justification⟩) :
    HostsAgree evaluate networkRules raw protocol decision justification ↔
      normalizeNetworkRuleHost host = .ok host := by
  have written : networkRuleLine raw protocol decision justification =
      .ok (networkRule host protocol.asPolicyString (networkRuleDecision decision)
        justification) := by
    rw [networkRuleLine, normalized, justified]
    rfl
  have added : addNetworkRule networkRules raw protocol decision justification =
      .ok (networkRules ++ [⟨host, protocol, decision, justification⟩]) := by
    rw [addNetworkRule, normalized, justified]
    rfl
  have reloads : reloadNetworkRule evaluate
      (networkRule host protocol.asPolicyString (networkRuleDecision decision) justification) =
      ((normalizeNetworkRuleHost host).map (⟨·, protocol, decision, justification⟩)).toOption := by
    rw [reloadNetworkRule, evaluated, Option.bind_some, readNetworkRule_written justified]
  constructor
  · rintro ⟨line, rule, reloaded, appended, stored, reread, same⟩
    rw [written] at appended
    rw [added] at stored
    cases appended
    obtain rfl := List.singleton_inj.mp (List.append_cancel_left (Except.ok.inj stored))
    rw [reloads] at reread
    cases again : normalizeNetworkRuleHost host with
    | error error =>
        rw [again] at reread
        cases reread
    | ok host' =>
        rw [again] at reread
        cases reread
        rw [show host' = host from same]
  · intro again
    refine ⟨_, _, ⟨host, protocol, decision, justification⟩, written, added, ?_, rfl⟩
    rw [reloads, again]
    rfl

/-- The host part and what the trimming of it leaves say what a second normalization does. -/
theorem normalize_again_iff (normalized : normalizeNetworkRuleHost raw = .ok host) :
    normalizeNetworkRuleHost host = .ok host ↔ ∀ part, HostPart raw.trim part → ¬Hidden part := by
  rw [normalize_normalized_iff (normalized_of_ok normalized)]
  obtain ⟨-, -, part, isPart, checked⟩ := normalizeNetworkRuleHost_eq_ok_iff.mp normalized
  rw [(checkHost_eq_ok_iff.mp checked).1]
  constructor
  · intro stable part' isPart' hidden
    have first : hostPart raw raw.trim = .ok part := hostPart_eq_ok_iff.mpr isPart
    rw [hostPart_eq_ok_iff.mpr isPart'] at first
    obtain rfl := Except.ok.inj first
    exact (hidden_iff part').mp hidden stable
  · intro shown
    by_contra changed
    exact shown part isPart ((hidden_iff part).mpr changed)

/-- A host is in normal form, and is the same in memory and in the file, when the dots and the white
space around its host part hide nothing that is taken off before them. -/
theorem normalForm_iff (normalized : normalizeNetworkRuleHost raw = .ok host) :
    (normalizeNetworkRuleHost host = .ok host ↔ ∀ part, HostPart raw.trim part → ¬Hidden part) ∧
      ∀ evaluate networkRules protocol decision justification,
        checkJustification justification = .ok () →
        evaluate (networkRule host protocol.asPolicyString (networkRuleDecision decision)
            justification).text =
          some ⟨host, protocol.asPolicyString, networkRuleDecision decision, justification⟩ →
        (HostsAgree evaluate networkRules raw protocol decision justification ↔
          ∀ part, HostPart raw.trim part → ¬Hidden part) := by
  refine ⟨normalize_again_iff normalized, ?_⟩
  intro evaluate networkRules protocol decision justification justified evaluated
  rw [hostsAgree_iff normalized justified evaluated]
  exact normalize_again_iff normalized

/-- One line, evaluated. -/
def evaluateLine (line : Text) : Option NetworkRuleCall :=
  if line =
      "network_rule(host=\"example.com\", protocol=\"http\", decision=\"allow\")".toList then
    some ⟨"example.com".toList, "http".toList, "allow".toList, none⟩
  else none

theorem normalForm_iff_hostname :
    (normalizeNetworkRuleHost "example.com".toList = .ok "example.com".toList ↔
        ∀ part, HostPart (trim "Example.com:443".toList) part → ¬Hidden part) ∧
      (HostsAgree evaluateLine [] "Example.com:443".toList .http .allow none ↔
        ∀ part, HostPart (trim "Example.com:443".toList) part → ¬Hidden part) := by
  have stable := @normalForm_iff "Example.com:443".toList "example.com".toList rfl
  exact ⟨stable.1, stable.2 evaluateLine [] .http .allow none rfl rfl⟩

/-- The dot hides the port until the host is in the file. -/
theorem hidden_port_changes :
    normalizeNetworkRuleHost "a.com:80.".toList = .ok "a.com:80".toList ∧
      normalizeNetworkRuleHost "a.com:80".toList = .ok "a.com".toList ∧
      addNetworkRule [] "a.com:80.".toList .http .allow none =
        .ok [⟨"a.com:80".toList, .http, .allow, none⟩] ∧
      ∃ line, networkRuleLine "a.com:80.".toList .http .allow none = .ok line ∧
        ∀ evaluate, evaluate line.text =
            some ⟨"a.com:80".toList, "http".toList, "allow".toList, none⟩ →
          reloadNetworkRule evaluate line = some ⟨"a.com".toList, .http, .allow, none⟩ := by
  refine ⟨rfl, rfl, rfl, _, rfl, ?_⟩
  intro evaluate evaluated
  rw [reloadNetworkRule, evaluated]
  rfl

end Agreement

end CodexPilot.ExecPolicy
