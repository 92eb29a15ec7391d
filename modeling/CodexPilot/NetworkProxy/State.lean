import CodexPilot.RustStd.Path
import CodexPilot.RustStd.Result
import Mathlib.Algebra.Group.Nat.Defs

/-!
# Configurations of the network proxy

Hosts and patterns are normalized before they are matched.  A pattern is read twice: as globs, which
decide whether a host matches, and as a `DomainPattern`, by which a managed configuration limits the
patterns of the user.  The crates behind globs and URL hosts are parameters.  A configuration lists
domains with a permission each; the strictest one that a pattern is listed with counts.
-/

namespace CodexPilot.NetworkProxy

open RustStd

/-- What the proxy uses of the crates `globset` and `url`. -/
structure Crates where
  /-- `GlobBuilder::build` succeeds, case insensitively. -/
  globBuilds : Text → Bool
  /-- `GlobSetBuilder::build` succeeds for these globs. -/
  globSetBuilds : List Text → Bool
  /-- A glob matches a host. -/
  globMatches : Text → Text → Bool
  /-- `url::Host::parse`, written as text again. -/
  urlHostParse : Text → Option Text

/-- The crates on hosts of letters, digits, hyphens and dots, and on the globs that the proxy makes
of such hosts. -/
def Crates.plain : Crates where
  globBuilds _ := true
  globSetBuilds _ := true
  globMatches glob host :=
    match glob.stripPrefix ['?', '*', '.'] with
    | some domain => host.endsWith ('.' :: domain) && decide (domain.length + 1 < host.length)
    | none => glob == host
  urlHostParse host :=
    if host.all fun c => c.isLower || c.isDigit || c == '-' || c == '.' then some host else none

/-! ## Normalization -/

/-- Lower case, without trailing dots. -/
def normalizeDnsHost (host : Text) : Text := host.toAsciiLowercase.trimEndMatches '.'

/-- Strip the port of a host with a single colon. -/
def stripPort (host : Text) : Text :=
  if host.count ':' = 1 then host.takeWhile (· != ':') else host

/-- Strip white space, brackets and ports of a host. -/
def normalizeHost (host : Text) : Text :=
  match host.trim with
  | '[' :: rest =>
      if rest.contains ']' then normalizeDnsHost (rest.takeWhile (· != ']'))
      else normalizeDnsHost (stripPort ('[' :: rest))
  | trimmed => normalizeDnsHost (stripPort trimmed)

def anyMarker : Text := ['*', '*', '.']

def subMarker : Text := ['*', '.']

/-- Normalize the domain of a pattern. -/
def normalizePattern (pattern : Text) : Text :=
  let pattern := pattern.trim
  if pattern = ['*'] then ['*']
  else
    match pattern.stripPrefix anyMarker with
    | some domain => anyMarker ++ normalizeHost domain
    | none =>
        match pattern.stripPrefix subMarker with
        | some domain => subMarker ++ normalizeHost domain
        | none => normalizeHost pattern

/-! ## Patterns -/

/-- A pattern, by its wildcard prefix. -/
inductive DomainPattern where
  | apexAndSubdomains (domain : Text)
  | subdomainsOnly (domain : Text)
  | exact (domain : Text)
  deriving DecidableEq

namespace DomainPattern

/-- A domain behind a wildcard prefix; without a domain there is no wildcard. -/
def parseDomain (domain : Text) (build : Text → DomainPattern) : DomainPattern :=
  let domain := domain.trim
  if domain = [] then .exact [] else build domain

/-- Read a pattern by its wildcard prefix. -/
def parse (input : Text) : DomainPattern :=
  let input := input.trim
  if input = [] then .exact []
  else
    match input.stripPrefix anyMarker with
    | some domain => parseDomain domain .apexAndSubdomains
    | none =>
        match input.stripPrefix subMarker with
        | some domain => parseDomain domain .subdomainsOnly
        | none => .exact input

end DomainPattern

/-- The domain of a pattern for the comparison with other patterns.  A domain that is no URL host
becomes empty. -/
def parseDomainForConstraints (crates : Crates) (domain : Text) : Text :=
  let domain := domain.trim.trimEndMatches '.'
  if domain = [] then []
  else
    let host := if domain.startsWith ['['] && domain.endsWith [']'] then
      (domain.drop 1).take (domain.length - 1 - 1) else domain
    if host.contains '*' || host.contains '?' || host.contains '%' then domain
    else (crates.urlHostParse host).getD []

namespace DomainPattern

/-- Read a pattern for the comparison with other patterns. -/
def parseForConstraints (crates : Crates) (input : Text) : DomainPattern :=
  let input := input.trim
  if input = [] then .exact []
  else
    match input.stripPrefix anyMarker with
    | some domain => .apexAndSubdomains (parseDomainForConstraints crates domain)
    | none =>
        match input.stripPrefix subMarker with
        | some domain => .subdomainsOnly (parseDomainForConstraints crates domain)
        | none => .exact (parseDomainForConstraints crates input)

end DomainPattern

/-- `normalize_domain`. -/
def normalizeDomain (domain : Text) : Text := (domain.trimEndMatches '.').toAsciiLowercase

def domainEq (left right : Text) : Bool := normalizeDomain left == normalizeDomain right

def isSubdomainOrEqual (child parent : Text) : Bool :=
  normalizeDomain child == normalizeDomain parent ||
    (normalizeDomain child).endsWith ('.' :: normalizeDomain parent)

/-- `is_strict_subdomain`. -/
def isStrictSubdomain (child parent : Text) : Bool :=
  normalizeDomain child != normalizeDomain parent &&
    (normalizeDomain child).endsWith ('.' :: normalizeDomain parent)

/-- Whether a pattern covers another one. -/
def DomainPattern.allows : DomainPattern → DomainPattern → Bool
  | .exact domain, .exact candidate => domainEq candidate domain
  | .exact _, _ => false
  | .subdomainsOnly domain, .exact candidate => isStrictSubdomain candidate domain
  | .subdomainsOnly domain, .subdomainsOnly candidate => isSubdomainOrEqual candidate domain
  | .subdomainsOnly domain, .apexAndSubdomains candidate => isStrictSubdomain candidate domain
  | .apexAndSubdomains domain, .exact candidate => isSubdomainOrEqual candidate domain
  | .apexAndSubdomains domain, .subdomainsOnly candidate => isSubdomainOrEqual candidate domain
  | .apexAndSubdomains domain, .apexAndSubdomains candidate => isSubdomainOrEqual candidate domain

/-! ## Globs -/

/-- The beginning of a glob for the subdomains of a domain. -/
def subdomainGlob (domain : Text) : Text := ['?', '*', '.'] ++ domain

/-- The globs of a pattern. -/
def expandDomainPattern (pattern : Text) : List Text :=
  match DomainPattern.parse pattern with
  | .exact domain => [domain]
  | .subdomainsOnly domain => [subdomainGlob domain]
  | .apexAndSubdomains domain => [domain, subdomainGlob domain]

/-- The globs that a pattern of a configuration is compiled to. -/
def globsOf (pattern : Text) : List Text := expandDomainPattern (normalizePattern pattern)

/-- A pattern for every host. -/
def isGlobalWildcardDomainPattern (pattern : Text) : Bool := (globsOf pattern).any (· == ['*'])

/-- What a list does with patterns for every host. -/
inductive GlobalWildcard where
  | allow
  | reject
  deriving DecidableEq

/-- A compiled set, by its globs. -/
abbrev GlobSet := List Text

/-- Why a list of patterns cannot be compiled. -/
inductive CompileError where
  | globalWildcard
  | invalidGlob (candidate : Text)
  | globSet

def globalWildcardMessage : Text :=
  ("unsupported global wildcard domain pattern \"*\"; use exact hosts or scoped wildcards like " ++
    "*.example.com or **.example.com").toList

def invalidGlobMessage : Text := "invalid glob pattern: ".toList

/-- The message of a compile error; the crate words the last one. -/
def CompileError.message : CompileError → Option Text
  | .globalWildcard => some globalWildcardMessage
  | .invalidGlob candidate => some (invalidGlobMessage ++ candidate)
  | .globSet => none

section Compile

variable (crates : Crates)

/-- Add a glob unless it was seen before. -/
def addCandidate (seen : GlobSet) (candidate : Text) : Except CompileError GlobSet :=
  if seen.contains candidate then .ok seen
  else if crates.globBuilds candidate then .ok (seen ++ [candidate])
  else .error (.invalidGlob candidate)

/-- Add the globs of a pattern. -/
def addPattern (globalWildcard : GlobalWildcard) (seen : GlobSet) (pattern : Text) :
    Except CompileError GlobSet :=
  if globalWildcard = .reject ∧ isGlobalWildcardDomainPattern pattern = true then
    .error .globalWildcard
  else (globsOf pattern).foldlM (addCandidate crates) seen

/-- `compile_globset_with_policy`. -/
def compileGlobsetWithPolicy (patterns : List Text) (globalWildcard : GlobalWildcard) :
    Except CompileError GlobSet := do
  let globs ← patterns.foldlM (addPattern crates globalWildcard) []
  if crates.globSetBuilds globs then .ok globs else .error .globSet

def compileAllowlistGlobset (patterns : List Text) : Except CompileError GlobSet :=
  compileGlobsetWithPolicy crates patterns .allow

def compileDenylistGlobset (patterns : List Text) : Except CompileError GlobSet :=
  compileGlobsetWithPolicy crates patterns .reject

/-- A compiled set matches a host when one of its globs does. -/
def GlobSet.isMatch (globs : GlobSet) (host : Text) : Bool := globs.any (crates.globMatches · host)

end Compile

/-! ## Settings -/

/-- From the weakest to the strictest. -/
inductive NetworkDomainPermission where
  | none
  | allow
  | deny
  deriving DecidableEq

/-- The precedence of a permission. -/
def NetworkDomainPermission.rank : NetworkDomainPermission → ℕ
  | .none => 0
  | .allow => 1
  | .deny => 2

/-- A pattern with its permission. -/
structure NetworkDomainPermissionEntry where
  pattern : Text
  permission : NetworkDomainPermission
  deriving DecidableEq

/-- Take the stricter permission for a pattern; a new pattern comes last. -/
def recordEntry (effective : List NetworkDomainPermissionEntry)
    (entry : NetworkDomainPermissionEntry) : List NetworkDomainPermissionEntry :=
  if effective.any (·.pattern == entry.pattern) then
    effective.map fun existing =>
      if existing.pattern = entry.pattern ∧ existing.permission.rank < entry.permission.rank then
        entry
      else existing
  else effective ++ [entry]

/-- Every pattern once, with its strictest permission. -/
def effectiveEntries (entries : List NetworkDomainPermissionEntry) :
    List NetworkDomainPermissionEntry :=
  entries.foldl recordEntry []

/-- The permission for a socket. -/
inductive NetworkUnixSocketPermission where
  | allow
  | none
  deriving DecidableEq

/-- The mode of the proxy. -/
inductive NetworkMode where
  | limited
  | full
  deriving DecidableEq

/-- The settings of the proxy. -/
structure NetworkProxySettings where
  enabled : Bool
  proxyUrl : Text
  enableSocks5 : Bool
  socksUrl : Text
  enableSocks5Udp : Bool
  allowUpstreamProxy : Bool
  dangerouslyAllowNonLoopbackProxy : Bool
  dangerouslyAllowAllUnixSockets : Bool
  mode : NetworkMode
  domains : Option (List NetworkDomainPermissionEntry)
  unixSockets : Option (List (Text × NetworkUnixSocketPermission))
  allowLocalBinding : Bool
  mitm : Bool
  deriving DecidableEq

namespace NetworkProxySettings

def defaultProxyUrl : Text := "http://127.0.0.1:3128".toList

def defaultSocksUrl : Text := "http://127.0.0.1:8081".toList

/-- The settings of an empty configuration file. -/
def default : NetworkProxySettings where
  enabled := false
  proxyUrl := defaultProxyUrl
  enableSocks5 := true
  socksUrl := defaultSocksUrl
  enableSocks5Udp := true
  allowUpstreamProxy := true
  dangerouslyAllowNonLoopbackProxy := false
  dangerouslyAllowAllUnixSockets := false
  mode := .full
  domains := none
  unixSockets := none
  allowLocalBinding := false
  mitm := false

/-- The patterns with a given effective permission, if there are any. -/
def domainEntries (settings : NetworkProxySettings) (permission : NetworkDomainPermission) :
    Option (List Text) :=
  (settings.domains.map fun entries =>
    ((effectiveEntries entries).filter (·.permission = permission)).map (·.pattern)).filter
      (!·.isEmpty)

/-- `allowed_domains`. -/
def allowedDomains (settings : NetworkProxySettings) : Option (List Text) :=
  settings.domainEntries .allow

def deniedDomains (settings : NetworkProxySettings) : Option (List Text) :=
  settings.domainEntries .deny

def allowUnixSockets (settings : NetworkProxySettings) : List Text :=
  (settings.unixSockets.map fun entries =>
    (entries.filter (·.2 = .allow)).map Prod.fst).getD []

/-- Replace the entries of a host. -/
def upsertDomainPermission (settings : NetworkProxySettings) (host : Text)
    (permission : NetworkDomainPermission) (normalize : Text → Text) : NetworkProxySettings :=
  let entries := ((settings.domains.getD []).filter fun entry =>
    normalize entry.pattern ≠ normalize host) ++ [⟨host, permission⟩]
  { settings with domains := if entries.isEmpty then none else some entries }

end NetworkProxySettings

/-- The configuration of the proxy. -/
structure NetworkProxyConfig where
  network : NetworkProxySettings
  deriving DecidableEq

/-! ## Constraints -/

/-- What a managed configuration fixes. -/
structure NetworkProxyConstraints where
  enabled : Option Bool
  mode : Option NetworkMode
  allowUpstreamProxy : Option Bool
  dangerouslyAllowNonLoopbackProxy : Option Bool
  dangerouslyAllowAllUnixSockets : Option Bool
  allowedDomains : Option (List Text)
  allowlistExpansionEnabled : Option Bool
  deniedDomains : Option (List Text)
  denylistExpansionEnabled : Option Bool
  allowUnixSockets : Option (List Text)
  allowLocalBinding : Option Bool
  deriving DecidableEq

/-- Constraints that fix nothing. -/
def NetworkProxyConstraints.default : NetworkProxyConstraints :=
  ⟨none, none, none, none, none, none, none, none, none, none, none⟩

/-- The fields that errors name. -/
inductive Field where
  | enabled
  | mode
  | allowUpstreamProxy
  | dangerouslyAllowNonLoopbackProxy
  | dangerouslyAllowAllUnixSockets
  | allowLocalBinding
  | allowedDomains
  | deniedDomains
  | allowUnixSockets
  deriving DecidableEq

/-- The path of a field in a configuration. -/
def Field.name : Field → String
  | .enabled => "network.enabled"
  | .mode => "network.mode"
  | .allowUpstreamProxy => "network.allow_upstream_proxy"
  | .dangerouslyAllowNonLoopbackProxy => "network.dangerously_allow_non_loopback_proxy"
  | .dangerouslyAllowAllUnixSockets => "network.dangerously_allow_all_unix_sockets"
  | .allowLocalBinding => "network.allow_local_binding"
  | .allowedDomains => "network.allowed_domains"
  | .deniedDomains => "network.denied_domains"
  | .allowUnixSockets => "network.allow_unix_sockets"

/-- A value in an error message: a text, or the debug form of a list of texts. -/
inductive Shown where
  | message (text : String)
  | pattern (text : Text)
  | debugList (items : List Text)

/-- A field that breaks a constraint. -/
structure NetworkProxyConstraintError where
  field : Field
  candidate : Shown
  allowed : Shown

/-- The debug form of a mode. -/
def NetworkMode.debug : NetworkMode → String
  | .limited => "Limited"
  | .full => "Full"

/-- `network_mode_rank`. -/
def networkModeRank : NetworkMode → ℕ
  | .limited => 0
  | .full => 1

/-- The outcome of a check. -/
abbrev Checked := Except NetworkProxyConstraintError Unit

/-- Reject a value. -/
def invalidUnless (holds : Bool) (field : Field) (candidate allowed : Shown) : Checked :=
  if holds then .ok () else .error ⟨field, candidate, allowed⟩

/-- Reject a flag that the managed configuration turns off. -/
def checkFlag (field : Field) (candidate allowed : Bool) : Checked :=
  invalidUnless (!candidate || allowed) field (.message "true")
    (.message "false (disabled by managed config)")

/-- Two lists with the same entries, up to the case of letters. -/
def sameEntries (left right : List Text) : Bool :=
  left.all right.contains && right.all left.contains

/-- The entries of a list in lower case. -/
def lowered (entries : List Text) : List Text := entries.map Text.toAsciiLowercase

/-- The entries that another list misses, up to the case of letters. -/
def missingFrom (required present : List Text) : List Text :=
  (lowered required).dedup.filter (!present.contains ·)

section Validate

variable (crates : Crates) (config : NetworkProxyConfig) (constraints : NetworkProxyConstraints)

def configAllowedDomains : List Text := config.network.allowedDomains.getD []

def configDeniedDomains : List Text := config.network.deniedDomains.getD []

def validateNonGlobalWildcardDomainPatterns (field : Field) (patterns : List Text) : Checked :=
  match patterns.find? isGlobalWildcardDomainPattern with
  | some pattern => .error ⟨field, .pattern pattern.trim,
      .message "exact hosts or scoped wildcards like *.example.com or **.example.com"⟩
  | none => .ok ()

def checkEnabled : Checked :=
  match constraints.enabled with
  | some maxEnabled => checkFlag .enabled config.network.enabled maxEnabled
  | none => .ok ()

def checkMode : Checked :=
  match constraints.mode with
  | some maxMode =>
      invalidUnless (decide (networkModeRank config.network.mode ≤ networkModeRank maxMode)) .mode
        (.message config.network.mode.debug) (.message (maxMode.debug ++ " or more restrictive"))
  | none => .ok ()

def checkUpstreamProxy : Checked :=
  checkFlag .allowUpstreamProxy config.network.allowUpstreamProxy
    (constraints.allowUpstreamProxy.getD true)

def checkNonLoopbackProxy : Checked :=
  checkFlag .dangerouslyAllowNonLoopbackProxy config.network.dangerouslyAllowNonLoopbackProxy
    (constraints.dangerouslyAllowNonLoopbackProxy.getD true)

def checkAllUnixSockets : Checked :=
  checkFlag .dangerouslyAllowAllUnixSockets config.network.dangerouslyAllowAllUnixSockets
    (constraints.dangerouslyAllowAllUnixSockets.getD constraints.allowUnixSockets.isNone)

def checkLocalBinding : Checked :=
  match constraints.allowLocalBinding with
  | some allowed => checkFlag .allowLocalBinding config.network.allowLocalBinding allowed
  | none => .ok ()

/-- The patterns of the user that no managed pattern covers. -/
def uncovered (managed candidates : List Text) : List Text :=
  candidates.filter fun entry =>
    !(managed.any fun allowed => (DomainPattern.parseForConstraints crates allowed).allows
      (DomainPattern.parseForConstraints crates entry))

/-- The allowed domains: all of the managed ones and more, exactly these, or only such ones. -/
def checkAllowedDomains : Checked :=
  match constraints.allowedDomains with
  | none => .ok ()
  | some managed => do
      validateNonGlobalWildcardDomainPatterns .allowedDomains managed
      let candidate := configAllowedDomains config
      let overrides := lowered (configDeniedDomains config)
      match constraints.allowlistExpansionEnabled with
      | some true =>
          let missing := missingFrom managed (lowered candidate ++ overrides)
          invalidUnless missing.isEmpty .allowedDomains
            (.message "missing managed allowed_domains entries") (.debugList missing)
      | some false =>
          invalidUnless
            (sameEntries (lowered candidate) ((lowered managed).filter (!overrides.contains ·)))
            .allowedDomains (.debugList candidate) (.message "must match managed allowed_domains")
      | none =>
          let invalid := uncovered crates managed candidate
          invalidUnless invalid.isEmpty .allowedDomains (.debugList invalid)
            (.message "subset of managed allowed_domains")

def checkDeniedDomains : Checked :=
  match constraints.deniedDomains with
  | none => .ok ()
  | some managed => do
      validateNonGlobalWildcardDomainPatterns .deniedDomains managed
      let candidate := configDeniedDomains config
      match constraints.denylistExpansionEnabled with
      | some false =>
          invalidUnless (sameEntries (lowered candidate) (lowered managed)) .deniedDomains
            (.debugList candidate) (.message "must match managed denied_domains")
      | some true | none =>
          let missing := missingFrom managed (lowered candidate)
          invalidUnless missing.isEmpty .deniedDomains
            (.message "missing managed denied_domains entries") (.debugList missing)

def checkUnixSockets : Checked :=
  match constraints.allowUnixSockets with
  | none => .ok ()
  | some allowed =>
      let invalid := config.network.allowUnixSockets.filter fun entry =>
        !(lowered allowed).contains entry.toAsciiLowercase
      invalidUnless invalid.isEmpty .allowUnixSockets (.debugList invalid)
        (.message "subset of managed allow_unix_sockets")

/-- Check a configuration against the managed constraints. -/
def validatePolicyAgainstConstraints : Checked := do
  validateNonGlobalWildcardDomainPatterns .deniedDomains (configDeniedDomains config)
  checkEnabled config constraints
  checkMode config constraints
  checkUpstreamProxy config constraints
  checkNonLoopbackProxy config constraints
  checkAllUnixSockets config constraints
  checkLocalBinding config constraints
  checkAllowedDomains crates config constraints
  checkDeniedDomains config constraints
  checkUnixSockets config constraints

/-- A configuration is valid when it passes every check. -/
theorem validate_eq_ok_iff {crates : Crates} {config : NetworkProxyConfig}
    {constraints : NetworkProxyConstraints} :
    validatePolicyAgainstConstraints crates config constraints = .ok () ↔
      validateNonGlobalWildcardDomainPatterns .deniedDomains (configDeniedDomains config) =
          .ok () ∧
        checkEnabled config constraints = .ok () ∧
        checkMode config constraints = .ok () ∧
        checkUpstreamProxy config constraints = .ok () ∧
        checkNonLoopbackProxy config constraints = .ok () ∧
        checkAllUnixSockets config constraints = .ok () ∧
        checkLocalBinding config constraints = .ok () ∧
        checkAllowedDomains crates config constraints = .ok () ∧
        checkDeniedDomains config constraints = .ok () ∧
        checkUnixSockets config constraints = .ok () := by
  simp only [validatePolicyAgainstConstraints, andThen_eq_ok_iff]

end Validate

/-! ## Compiled states -/

/-- Why no state can be built from a configuration. -/
inductive BuildError where
  | unixSocket (index : ℕ) (path : Text)
  | constraint (error : NetworkProxyConstraintError)
  | compile (error : CompileError)
  | mitm

/-- The first entry that is no absolute path. -/
def firstRelativePath : ℕ → List Text → Option (ℕ × Text)
  | _, [] => none
  | index, path :: paths =>
      if path.startsWith ['/'] then firstRelativePath (index + 1) paths else some (index, path)

def validateUnixSocketAllowlistPaths (config : NetworkProxyConfig) : Except BuildError Unit :=
  match firstRelativePath 0 config.network.allowUnixSockets with
  | some (index, path) => .error (.unixSocket index path)
  | none => .ok ()

/-- A request that the proxy has blocked. -/
structure BlockedRequest where
  host : Text
  reason : Text
  client : Option Text
  method : Option Text
  mode : Option NetworkMode
  protocol : Text
  decision : Option Text
  source : Option Text
  port : Option (Fin (2 ^ 16))
  timestamp : ℤ

/-- A configuration with its compiled sets, its constraints and the telemetry of blocked
requests. -/
structure ConfigState (Mitm : Type) where
  config : NetworkProxyConfig
  allowSet : GlobSet
  denySet : GlobSet
  mitm : Option Mitm
  constraints : NetworkProxyConstraints
  blocked : List BlockedRequest
  blockedTotal : ℕ

section Build

variable {Mitm : Type} (crates : Crates) (mitmNew : Bool → Option Mitm)

/-- The interception of encrypted traffic; `mitmNew` loads its certificates. -/
def buildMitm (settings : NetworkProxySettings) : Except BuildError (Option Mitm) :=
  if settings.mitm then
    match mitmNew settings.allowUpstreamProxy with
    | some mitm => .ok (some mitm)
    | none => .error .mitm
  else .ok none

/-- `build_config_state`. -/
def buildConfigState (config : NetworkProxyConfig) (constraints : NetworkProxyConstraints) :
    Except BuildError (ConfigState Mitm) := do
  validateUnixSocketAllowlistPaths config
  (validateNonGlobalWildcardDomainPatterns .deniedDomains (configDeniedDomains config)).mapError
    .constraint
  let denySet ← (compileDenylistGlobset crates (configDeniedDomains config)).mapError .compile
  let allowSet ← (compileAllowlistGlobset crates (configAllowedDomains config)).mapError .compile
  let mitm ← buildMitm mitmNew config.network
  .ok ⟨config, allowSet, denySet, mitm, constraints, [], 0⟩

/-- The configuration of a state is valid and the sets are compiled from its lists. -/
structure Respects (state : ConfigState Mitm) : Prop where
  valid : validatePolicyAgainstConstraints crates state.config state.constraints = .ok ()
  allowSet : compileAllowlistGlobset crates (configAllowedDomains state.config) = .ok state.allowSet
  denySet : compileDenylistGlobset crates (configDeniedDomains state.config) = .ok state.denySet

variable {crates mitmNew}

/-- What is built from a valid configuration respects its constraints. -/
theorem respects_of_build {config : NetworkProxyConfig} {constraints : NetworkProxyConstraints}
    {newState : ConfigState Mitm}
    (valid : validatePolicyAgainstConstraints crates config constraints = .ok ())
    (built : buildConfigState crates mitmNew config constraints = .ok newState) :
    Respects crates newState ∧ newState.constraints = constraints := by
  simp only [buildConfigState, bind_eq_ok_iff, mapError_eq_ok_iff, Except.ok.injEq] at built
  obtain ⟨-, -, -, -, denySet, denied, allowSet, allowed, mitm, -, rfl⟩ := built
  exact ⟨⟨valid, allowed, denied⟩, rfl⟩

end Build

end CodexPilot.NetworkProxy
