import CodexPilot.RustStd.Text

/-!
# The auth managers on one credential store

A record of the credential store holds an API key or the tokens of a ChatGPT account.  The id token
is stored as its text and parsed again with every load.

Every process caches what it has loaded.  A refresh holds the lock of its own process: it asks the
authority, merges the answer into the record that the store holds when the answer arrives, saves it,
and reloads the cache.  Each load, save and delete of the store is one step.
-/

namespace CodexPilot.Login

open RustStd

/-- `ApiAuthMode`. -/
inductive ApiAuthMode where
  | ApiKey
  | Chatgpt
  | ChatgptAuthTokens
  deriving DecidableEq

/-- A `DateTime<Utc>`. -/
abbrev DateTime := ℕ

/-! ## Id tokens -/

/-- `AuthClaims`, with the plan by its raw value. -/
structure AuthClaims where
  chatgptPlanType : Option Text
  chatgptUserId : Option Text
  userId : Option Text
  chatgptAccountId : Option Text

/-- `IdClaims`. -/
structure IdClaims where
  email : Option Text
  /-- The email of the profile. -/
  profileEmail : Option Text
  auth : Option AuthClaims

/-- The claims of an id token. -/
structure IdTokenInfo where
  email : Option Text
  chatgptPlanType : Option Text
  chatgptUserId : Option Text
  chatgptAccountId : Option Text
  rawJwt : Text
  deriving DecidableEq

/-- `IdTokenInfo::default`. -/
def IdTokenInfo.default : IdTokenInfo where
  email := none
  chatgptPlanType := none
  chatgptUserId := none
  chatgptAccountId := none
  rawJwt := []

/-- `decode_jwt_payload::<IdClaims>`: what the payload of a token says, or nothing when it is
malformed. -/
abbrev Decoder := Text → Option IdClaims

/-- `parse_chatgpt_jwt_claims`. -/
def parseChatgptJwtClaims (decode : Decoder) (jwt : Text) : Option IdTokenInfo :=
  (decode jwt).map fun claims =>
    match claims.auth with
    | some auth =>
        { email := claims.email.or claims.profileEmail
          rawJwt := jwt
          chatgptPlanType := auth.chatgptPlanType
          chatgptUserId := auth.chatgptUserId.or auth.userId
          chatgptAccountId := auth.chatgptAccountId }
    | none =>
        { email := claims.email.or claims.profileEmail
          rawJwt := jwt
          chatgptPlanType := none
          chatgptUserId := none
          chatgptAccountId := none }

theorem rawJwt_of_parse {decode : Decoder} {jwt : Text} {info : IdTokenInfo}
    (parsed : parseChatgptJwtClaims decode jwt = some info) : info.rawJwt = jwt := by
  obtain ⟨claims, -, rfl⟩ := Option.map_eq_some_iff.mp parsed
  cases claims.auth <;> rfl

/-! ## Records -/

/-- The tokens of a login. -/
structure TokenData where
  idToken : IdTokenInfo
  accessToken : Text
  refreshToken : Text
  accountId : Option Text
  deriving DecidableEq

/-- `TokenData::default`. -/
def TokenData.default : TokenData where
  idToken := .default
  accessToken := []
  refreshToken := []
  accountId := none

/-- The content of `auth.json`. -/
structure AuthDotJson where
  authMode : Option ApiAuthMode
  openaiApiKey : Option Text
  tokens : Option TokenData
  lastRefresh : Option DateTime
  deriving DecidableEq

/-- `resolved_mode`. -/
def AuthDotJson.resolvedMode (record : AuthDotJson) : ApiAuthMode :=
  match record.authMode with
  | some mode => mode
  | none => if record.openaiApiKey.isSome then .ApiKey else .Chatgpt

/-- The record that `login_with_api_key` saves. -/
def loginWithApiKey (apiKey : Text) : AuthDotJson where
  authMode := some .ApiKey
  openaiApiKey := some apiKey
  tokens := none
  lastRefresh := none

/-- The record that `persist_tokens_async` saves behind a login; none when its id token is
malformed. -/
def persistTokensAsync (decode : Decoder) (apiKey : Option Text)
    (idToken accessToken refreshToken : Text) (now : DateTime) : Option AuthDotJson :=
  (parseChatgptJwtClaims decode idToken).map fun info =>
    { authMode := some .Chatgpt
      openaiApiKey := apiKey
      tokens := some
        { idToken := info
          accessToken := accessToken
          refreshToken := refreshToken
          accountId := info.chatgptAccountId }
      lastRefresh := some now }

/-- What a load makes of the tokens of a record; none when the stored id token is malformed. -/
def TokenData.reread (decode : Decoder) (tokens : TokenData) : Option TokenData :=
  (parseChatgptJwtClaims decode tokens.idToken.rawJwt).map fun info =>
    { tokens with idToken := info }

/-- What a load makes of a record. -/
def AuthDotJson.reread (decode : Decoder) (record : AuthDotJson) : Option AuthDotJson :=
  match record.tokens with
  | none => some record
  | some tokens =>
      (tokens.reread decode).map fun tokens =>
        { record with tokens := some tokens }

/-- A load keeps the refresh token of a record. -/
theorem refreshToken_of_reread {decode : Decoder} {record loaded : AuthDotJson}
    (read : record.reread decode = some loaded) :
    loaded.tokens.map TokenData.refreshToken = record.tokens.map TokenData.refreshToken := by
  rw [AuthDotJson.reread] at read
  split at read
  case h_1 => cases read; rfl
  case h_2 tokens present =>
    obtain ⟨reread, rereads, rfl⟩ := Option.map_eq_some_iff.mp read
    obtain ⟨info, parsed, rfl⟩ := Option.map_eq_some_iff.mp rereads
    rw [present]
    rfl

/-- `AuthStorageBackend::load`; an error when the record cannot be read. -/
def load (decode : Decoder) (stored : Option AuthDotJson) : Except Unit (Option AuthDotJson) :=
  match stored with
  | none => .ok none
  | some record =>
      match record.reread decode with
      | some loaded => .ok (some loaded)
      | none => .error ()

theorem load_eq_ok_some {decode : Decoder} {stored : Option AuthDotJson} {loaded : AuthDotJson} :
    load decode stored = .ok (some loaded) ↔
      ∃ record, stored = some record ∧ record.reread decode = some loaded := by
  cases stored with
  | none => simp [load]
  | some record =>
      rw [load]
      cases read : record.reread decode <;> simp [read]

/-! ## Answers -/

/-- `RefreshResponse`. -/
structure RefreshResponse where
  idToken : Option Text
  accessToken : Option Text
  refreshToken : Option Text

/-- The record that `persist_tokens` saves for an answer, given the one that it has loaded; none
when the id token of the answer is malformed. -/
def AuthDotJson.merge (decode : Decoder) (record : AuthDotJson) (response : RefreshResponse)
    (now : DateTime) : Option AuthDotJson :=
  let tokens := record.tokens.getD .default
  let saved (info : IdTokenInfo) : AuthDotJson :=
    { record with
      tokens := some
        { tokens with
          idToken := info
          accessToken := response.accessToken.getD tokens.accessToken
          refreshToken := response.refreshToken.getD tokens.refreshToken }
      lastRefresh := some now }
  match response.idToken with
  | none => some (saved tokens.idToken)
  | some idToken => (parseChatgptJwtClaims decode idToken).map saved

/-! ## Authentication -/

/-- `CodexAuth`: the key, or the record that was loaded. -/
inductive CodexAuth where
  | ApiKey (apiKey : Text)
  | Chatgpt (authDotJson : AuthDotJson)
  | ChatgptAuthTokens (authDotJson : AuthDotJson)
  deriving DecidableEq

namespace CodexAuth

/-- `from_auth_dot_json`; none when API key auth is missing a key. -/
def fromAuthDotJson (record : AuthDotJson) : Option CodexAuth :=
  match record.resolvedMode with
  | .ApiKey => record.openaiApiKey.map ApiKey
  | .Chatgpt => some (Chatgpt record)
  | .ChatgptAuthTokens => some (ChatgptAuthTokens record)

/-- `is_api_key_auth`. -/
def isApiKeyAuth : CodexAuth → Bool
  | ApiKey _ => true
  | Chatgpt _ | ChatgptAuthTokens _ => false

/-- `is_chatgpt_auth`. -/
def isChatgptAuth : CodexAuth → Bool
  | ApiKey _ => false
  | Chatgpt _ | ChatgptAuthTokens _ => true

/-- `is_external_chatgpt_tokens`. -/
def isExternalChatgptTokens : CodexAuth → Bool
  | ChatgptAuthTokens _ => true
  | ApiKey _ | Chatgpt _ => false

/-- `get_current_auth_json`. -/
def currentAuthJson : CodexAuth → Option AuthDotJson
  | ApiKey _ => none
  | Chatgpt record | ChatgptAuthTokens record => some record

/-- `get_current_token_data`. -/
def currentTokenData (auth : CodexAuth) : Option TokenData :=
  auth.currentAuthJson.bind AuthDotJson.tokens

/-- `get_account_id`. -/
def getAccountId (auth : CodexAuth) : Option Text := auth.currentTokenData.bind TokenData.accountId

end CodexAuth

/-- `auths_equal_for_refresh`: the same mode, and the same key or the same record. -/
def authsEqualForRefresh (a b : Option CodexAuth) : Bool := a == b

/-- `load_auth` and `load_auth_from_storage`: a key in the environment takes precedence, and errors
count as no authentication. -/
def loadAuth (decode : Decoder) (envApiKey : Option Text) (stored : Option AuthDotJson) :
    Option CodexAuth :=
  match envApiKey with
  | some apiKey => some (.ApiKey apiKey)
  | none =>
      match load decode stored with
      | .ok (some record) => CodexAuth.fromAuthDotJson record
      | .ok none | .error _ => none

/-! ## Errors -/

/-- `RefreshTokenFailedReason`. -/
inductive RefreshTokenFailedReason where
  | Expired
  | Exhausted
  | Revoked
  | Other
  deriving DecidableEq

/-- `RefreshTokenFailedError`. -/
structure RefreshTokenFailedError where
  reason : RefreshTokenFailedReason
  message : Text
  deriving DecidableEq

/-- The `std::io::Error` of a transient failure. -/
inductive TransientError where
  | other (message : Text)
  /-- An `IdTokenInfoError`. -/
  | idToken
  /-- The record in the store cannot be read. -/
  | storage

/-- `RefreshTokenError`. -/
inductive RefreshTokenError where
  | Permanent (error : RefreshTokenFailedError)
  | Transient (error : TransientError)

/-- `REFRESH_TOKEN_EXPIRED_MESSAGE`. -/
def refreshTokenExpiredMessage : Text :=
  ("Your access token could not be refreshed because your refresh token has expired. " ++
    "Please log out and sign in again.").toList

/-- `REFRESH_TOKEN_REUSED_MESSAGE`. -/
def refreshTokenReusedMessage : Text :=
  ("Your access token could not be refreshed because your refresh token was already used. " ++
    "Please log out and sign in again.").toList

/-- `REFRESH_TOKEN_INVALIDATED_MESSAGE`. -/
def refreshTokenInvalidatedMessage : Text :=
  ("Your access token could not be refreshed because your refresh token was revoked. " ++
    "Please log out and sign in again.").toList

/-- `REFRESH_TOKEN_UNKNOWN_MESSAGE`. -/
def refreshTokenUnknownMessage : Text :=
  "Your access token could not be refreshed. Please log out and sign in again.".toList

def tokenDataNotAvailable : TransientError := .other "Token data is not available.".toList

def externalAuthNotConfigured : TransientError := .other "external auth is not configured".toList

/-- `classify_refresh_token_failure`, from the code that is found in the body of the answer. -/
def classifyRefreshTokenFailure (code : Option Text) : RefreshTokenFailedError :=
  let normalized := code.map Text.toAsciiLowercase
  if normalized = some "refresh_token_expired".toList then
    ⟨.Expired, refreshTokenExpiredMessage⟩
  else if normalized = some "refresh_token_reused".toList then
    ⟨.Exhausted, refreshTokenReusedMessage⟩
  else if normalized = some "refresh_token_invalidated".toList then
    ⟨.Revoked, refreshTokenInvalidatedMessage⟩
  else ⟨.Other, refreshTokenUnknownMessage⟩

/-- What `request_chatgpt_token_refresh` gets: a success, a 401 with its code, or another failure.
-/
inductive RefreshAnswer where
  | success (response : RefreshResponse)
  | unauthorized (code : Option Text)
  | failed (message : Text)

/-! ## Processes -/

/-- `CachedAuth`, with the failure that is recorded for an authentication. -/
structure CachedAuth where
  auth : Option CodexAuth
  permanentRefreshFailure : Option (CodexAuth × RefreshTokenFailedError)

/-- `UnauthorizedRecoveryStep`. -/
inductive UnauthorizedRecoveryStep where
  | Reload
  | RefreshToken
  | ExternalRefresh
  | Done
  deriving DecidableEq

/-- `UnauthorizedRecoveryMode`. -/
inductive UnauthorizedRecoveryMode where
  | Managed
  | External
  deriving DecidableEq

/-- A recovery from an unauthorized answer. -/
structure UnauthorizedRecovery where
  step : UnauthorizedRecoveryStep
  expectedAccountId : Option Text
  mode : UnauthorizedRecoveryMode
  /-- Its `next` waits for the refresh lock, or for the refresh that it has started. -/
  running : Bool

/-- Where the refresh is that holds the lock. -/
inductive RefreshPhase where
  /-- In front of `refresh_token_from_authority_impl`. -/
  | entered
  /-- Its request has been sent. -/
  | requested (attempted : CodexAuth) (refreshToken : Text)
  /-- The authority has answered. -/
  | answered (attempted : CodexAuth) (refreshToken : Text) (answer : RefreshAnswer)
  /-- `persist_tokens` has loaded a record. -/
  | loaded (refreshToken : Text) (response : RefreshResponse) (record : AuthDotJson)
  /-- It has saved it. -/
  | saved

/-- A refresh that is under way. -/
structure Refresh where
  /-- The recovery on whose behalf it runs. -/
  recovery : Option ℕ
  phase : RefreshPhase

/-- A process with its `AuthManager`. -/
structure Process where
  /-- The API key of the environment, where that is enabled. -/
  envApiKey : Option Text
  inner : CachedAuth
  /-- The refresh that holds `refresh_lock`. -/
  refresh : Option Refresh
  recoveries : List UnauthorizedRecovery

/-- `ReloadOutcome`. -/
inductive ReloadOutcome where
  | ReloadedChanged
  | ReloadedNoChange
  | Skipped
  deriving DecidableEq

namespace Process

/-- The account id of the cached authentication. -/
def accountId (process : Process) : Option Text := process.inner.auth.bind CodexAuth.getAccountId

/-- `set_cached_auth`. -/
def setCachedAuth (process : Process) (auth : Option CodexAuth) : Process :=
  { process with
    inner :=
      { auth := auth
        permanentRefreshFailure :=
          if authsEqualForRefresh process.inner.auth auth then
            process.inner.permanentRefreshFailure
          else none } }

/-- `refresh_failure_for_auth`. -/
def refreshFailureForAuth (process : Process) (auth : CodexAuth) : Option RefreshTokenFailedError :=
  (process.inner.permanentRefreshFailure.filter fun failure =>
    authsEqualForRefresh (some auth) (some failure.1)).map Prod.snd

/-- `record_permanent_refresh_failure_if_unchanged`. -/
def recordPermanentRefreshFailureIfUnchanged (process : Process) (attempted : CodexAuth)
    (error : RefreshTokenFailedError) : Process :=
  if authsEqualForRefresh (some attempted) process.inner.auth then
    { process with
      inner :=
        { process.inner with permanentRefreshFailure := some (attempted, error) } }
  else process

/-- `reload`. -/
def reload (decode : Decoder) (process : Process) (stored : Option AuthDotJson) : Process :=
  process.setCachedAuth (loadAuth decode process.envApiKey stored)

/-- `reload_if_account_id_matches`. -/
def reloadIfAccountIdMatches (decode : Decoder) (process : Process) (stored : Option AuthDotJson)
    (expected : Option Text) : ReloadOutcome × Process :=
  match expected with
  | none => (.Skipped, process)
  | some accountId =>
      let auth := loadAuth decode process.envApiKey stored
      if auth.bind CodexAuth.getAccountId = some accountId then
        (if authsEqualForRefresh process.inner.auth auth then .ReloadedNoChange
          else .ReloadedChanged, process.setCachedAuth auth)
      else (.Skipped, process)

/-- Change the recovery with a number. -/
def mapRecovery (process : Process) (index : ℕ)
    (change : UnauthorizedRecovery → UnauthorizedRecovery) : Process :=
  { process with recoveries := process.recoveries.modify index change }

/-- What `next` does behind its refresh: on success it is done, on an error the step stays. -/
def afterRefresh (result : Except RefreshTokenError Unit) (recovery : UnauthorizedRecovery) :
    UnauthorizedRecovery :=
  match result with
  | .ok () =>
      { recovery with step := .Done, running := false }
  | .error _ =>
      { recovery with running := false }

/-- A refresh returns, and releases the lock. -/
def returns (process : Process) (recovery : Option ℕ) (result : Except RefreshTokenError Unit) :
    Process :=
  let released : Process :=
    { process with refresh := none }
  match recovery with
  | none => released
  | some index => released.mapRecovery index (afterRefresh result)

/-- A refresh takes the lock. -/
def enter (process : Process) (recovery : Option ℕ) : Process :=
  { process with refresh := some { recovery := recovery, phase := .entered } }

/-- The refresh goes on to its next phase. -/
def proceed (process : Process) (recovery : Option ℕ) (phase : RefreshPhase) : Process :=
  { process with refresh := some { recovery := recovery, phase := phase } }

/-- `refresh_token`, up to its request. -/
def refreshToken (decode : Decoder) (process : Process) (stored : Option AuthDotJson) : Process :=
  if process.inner.auth.any CodexAuth.isApiKeyAuth then process
  else
    match process.reloadIfAccountIdMatches decode stored process.accountId with
    | (.ReloadedNoChange, reloaded) => reloaded.enter none
    | (.ReloadedChanged, reloaded) => reloaded
    | (.Skipped, _) => process

/-- `UnauthorizedRecovery::new`. -/
def newRecovery (process : Process) : UnauthorizedRecovery :=
  let isExternal := process.inner.auth.any CodexAuth.isExternalChatgptTokens
  { step := if isExternal then .ExternalRefresh else .Reload
    expectedAccountId := process.accountId
    mode := if isExternal then .External else .Managed
    running := false }

/-- `has_next`, where no external authentication is configured. -/
def hasNext (process : Process) (recovery : UnauthorizedRecovery) : Bool :=
  process.inner.auth.any CodexAuth.isChatgptAuth && recovery.mode != .External &&
    recovery.step != .Done

/-- `next`, up to the refresh lock. -/
def next (decode : Decoder) (process : Process) (stored : Option AuthDotJson) (index : ℕ)
    (recovery : UnauthorizedRecovery) : Process :=
  if process.hasNext recovery then
    match recovery.step with
    | .Reload =>
        match process.reloadIfAccountIdMatches decode stored recovery.expectedAccountId with
        | (.Skipped, _) => process.mapRecovery index fun recovery =>
            { recovery with step := .Done }
        | (.ReloadedChanged, reloaded) | (.ReloadedNoChange, reloaded) =>
            reloaded.mapRecovery index fun recovery =>
              { recovery with step := .RefreshToken }
    | .RefreshToken => process.mapRecovery index fun recovery =>
        { recovery with running := true }
    | .ExternalRefresh | .Done => process
  else process

/-- `refresh_token_from_authority_impl`, up to the answer of the authority. -/
def request (process : Process) (recovery : Option ℕ) : Process :=
  match process.inner.auth with
  | none => process.returns recovery (.ok ())
  | some auth =>
      match process.refreshFailureForAuth auth with
      | some error =>
          process.returns recovery (.error (.Permanent error))
      | none =>
          match auth with
          | .ApiKey _ => process.returns recovery (.ok ())
          | .ChatgptAuthTokens _ =>
              process.returns recovery (.error (.Transient externalAuthNotConfigured))
          | .Chatgpt record =>
              match record.tokens with
              | none => process.returns recovery (.error (.Transient tokenDataNotAvailable))
              | some tokens => process.proceed recovery (.requested auth tokens.refreshToken)

/-- The answer arrives, and `persist_tokens` loads what the store holds. -/
def arrive (decode : Decoder) (process : Process) (stored : Option AuthDotJson)
    (recovery : Option ℕ) (attempted : CodexAuth) (token : Text) : RefreshAnswer → Process
  | .success response =>
      match load decode stored with
      | .ok (some record) => process.proceed recovery (.loaded token response record)
      | .ok none => process.returns recovery (.error (.Transient tokenDataNotAvailable))
      | .error _ => process.returns recovery (.error (.Transient .storage))
  | .unauthorized code =>
      let error := classifyRefreshTokenFailure code
      (process.recordPermanentRefreshFailureIfUnchanged attempted error).returns recovery
        (.error (.Permanent error))
  | .failed message => process.returns recovery (.error (.Transient (.other message)))

section Fields

variable {decode : Decoder} {stored : Option AuthDotJson} (process : Process)

@[simp]
theorem refresh_setCachedAuth (auth : Option CodexAuth) :
    (process.setCachedAuth auth).refresh = process.refresh := rfl

@[simp]
theorem accountId_setCachedAuth (auth : Option CodexAuth) :
    (process.setCachedAuth auth).accountId = auth.bind CodexAuth.getAccountId := rfl

@[simp]
theorem refresh_reload : (process.reload decode stored).refresh = process.refresh := rfl

@[simp]
theorem accountId_reload :
    (process.reload decode stored).accountId =
      (loadAuth decode process.envApiKey stored).bind CodexAuth.getAccountId := rfl

@[simp]
theorem refresh_mapRecovery (index : ℕ) (change : UnauthorizedRecovery → UnauthorizedRecovery) :
    (process.mapRecovery index change).refresh = process.refresh := rfl

@[simp]
theorem refresh_enter (recovery : Option ℕ) :
    (process.enter recovery).refresh = some ⟨recovery, .entered⟩ := rfl

@[simp]
theorem accountId_enter (recovery : Option ℕ) :
    (process.enter recovery).accountId = process.accountId := rfl

@[simp]
theorem refresh_proceed (recovery : Option ℕ) (phase : RefreshPhase) :
    (process.proceed recovery phase).refresh = some ⟨recovery, phase⟩ := rfl

@[simp]
theorem accountId_proceed (recovery : Option ℕ) (phase : RefreshPhase) :
    (process.proceed recovery phase).accountId = process.accountId := rfl

@[simp]
theorem refresh_returns (recovery : Option ℕ) (result : Except RefreshTokenError Unit) :
    (process.returns recovery result).refresh = none := by
  cases recovery <;> rfl

@[simp]
theorem accountId_returns (recovery : Option ℕ) (result : Except RefreshTokenError Unit) :
    (process.returns recovery result).accountId = process.accountId := by
  cases recovery <;> rfl

@[simp]
theorem accountId_recordPermanentRefreshFailureIfUnchanged (attempted : CodexAuth)
    (error : RefreshTokenFailedError) :
    (process.recordPermanentRefreshFailureIfUnchanged attempted error).accountId =
      process.accountId := by
  rw [recordPermanentRefreshFailureIfUnchanged]
  split <;> rfl

/-- A guarded reload is skipped, or leaves the process with the account id that it expects. -/
theorem reloadIfAccountIdMatches_cases (decode : Decoder) (stored : Option AuthDotJson)
    (expected : Option Text) :
    process.reloadIfAccountIdMatches decode stored expected = (.Skipped, process) ∨
      ∃ outcome auth, outcome ≠ .Skipped ∧ auth.bind CodexAuth.getAccountId = expected ∧
        process.reloadIfAccountIdMatches decode stored expected =
          (outcome, process.setCachedAuth auth) := by
  cases expected with
  | none => exact .inl rfl
  | some accountId =>
      simp only [reloadIfAccountIdMatches]
      split
      case isTrue found =>
        refine .inr ⟨_, _, ?_, found, rfl⟩
        split <;> simp
      case isFalse => exact .inl rfl

/-- The guarded reload of `refresh_token` lets the refresh enter or leaves it out; the account id
stays. -/
theorem refreshToken_spec (decode : Decoder) (stored : Option AuthDotJson) :
    ((process.refreshToken decode stored).refresh = process.refresh ∨
        (process.refreshToken decode stored).refresh = some ⟨none, .entered⟩) ∧
      (process.refreshToken decode stored).accountId = process.accountId := by
  rw [refreshToken]
  split
  case isTrue => exact ⟨.inl rfl, rfl⟩
  case isFalse =>
    obtain skipped | ⟨outcome, auth, reloaded, found, reloads⟩ :=
      process.reloadIfAccountIdMatches_cases decode stored process.accountId
    · rw [skipped]
      exact ⟨.inl rfl, rfl⟩
    · rw [reloads]
      cases outcome with
      | ReloadedChanged => exact ⟨.inl rfl, found⟩
      | ReloadedNoChange => exact ⟨.inr rfl, found⟩
      | Skipped => exact absurd rfl reloaded

/-- `next` leaves the refresh as it is. -/
@[simp]
theorem refresh_next (index : ℕ) (recovery : UnauthorizedRecovery) :
    (process.next decode stored index recovery).refresh = process.refresh := by
  rw [next]
  split
  case isFalse => rfl
  case isTrue =>
    cases recovery.step with
    | RefreshToken | ExternalRefresh | Done => rfl
    | Reload =>
        obtain skipped | ⟨outcome, auth, reloaded, found, reloads⟩ :=
          process.reloadIfAccountIdMatches_cases decode stored recovery.expectedAccountId
        · simp only [skipped, refresh_mapRecovery]
        · simp only [reloads]
          cases outcome with
          | ReloadedChanged | ReloadedNoChange => rfl
          | Skipped => exact absurd rfl reloaded

/-- A refresh sends the refresh token of the cached record, or returns; the account id stays. -/
theorem request_spec (recovery : Option ℕ) :
    ((process.request recovery).refresh = none ∨
        ∃ record tokens, process.inner.auth = some (.Chatgpt record) ∧
          process.refreshFailureForAuth (.Chatgpt record) = none ∧ record.tokens = some tokens ∧
          (process.request recovery).refresh =
            some ⟨recovery, .requested (.Chatgpt record) tokens.refreshToken⟩) ∧
      (process.request recovery).accountId = process.accountId := by
  rw [request]
  split
  case h_1 => exact ⟨.inl (process.refresh_returns ..), process.accountId_returns ..⟩
  case h_2 auth cached =>
    split
    case h_1 => exact ⟨.inl (process.refresh_returns ..), process.accountId_returns ..⟩
    case h_2 noFailure =>
      cases auth with
      | ApiKey apiKey => exact ⟨.inl (process.refresh_returns ..), process.accountId_returns ..⟩
      | ChatgptAuthTokens record =>
          exact ⟨.inl (process.refresh_returns ..), process.accountId_returns ..⟩
      | Chatgpt record =>
          dsimp only
          split
          case h_1 => exact ⟨.inl (process.refresh_returns ..), process.accountId_returns ..⟩
          case h_2 tokens found => exact ⟨.inr ⟨record, tokens, cached, noFailure, found, rfl⟩, rfl⟩

/-- A success is loaded for, where there is a record to load; every other answer ends the refresh.
The account id stays. -/
theorem arrive_spec (decode : Decoder) (stored : Option AuthDotJson) (recovery : Option ℕ)
    (attempted : CodexAuth) (token : Text) (answer : RefreshAnswer) :
    ((process.arrive decode stored recovery attempted token answer).refresh = none ∧
          (∀ response, answer = .success response →
            ∀ record, load decode stored ≠ .ok (some record)) ∨
        ∃ response record, answer = .success response ∧ load decode stored = .ok (some record) ∧
          (process.arrive decode stored recovery attempted token answer).refresh =
            some ⟨recovery, .loaded token response record⟩) ∧
      (process.arrive decode stored recovery attempted token answer).accountId =
        process.accountId := by
  cases answer with
  | success response =>
      rw [arrive]
      split
      case h_1 record found => exact ⟨.inr ⟨response, record, rfl, found, rfl⟩, rfl⟩
      case h_2 found | h_3 found =>
        refine ⟨.inl ⟨process.refresh_returns .., fun _ _ record loaded => ?_⟩,
          process.accountId_returns ..⟩
        cases found.symm.trans loaded
  | unauthorized code =>
      refine ⟨.inl ⟨refresh_returns .., fun response same => by cases same⟩, ?_⟩
      simp [arrive]
  | failed message =>
      exact ⟨.inl ⟨refresh_returns .., fun response same => by cases same⟩,
        process.accountId_returns ..⟩

end Fields

end Process

/-- The processes, the credential store that they share, and the refresh tokens that the authority
has exchanged. -/
structure World (ι : Type*) where
  stored : Option AuthDotJson
  exchanged : List Text
  processes : ι → Process

/-- One step of a process, of the authority, or of a login elsewhere. -/
inductive Event (ι : Type*) where
  /-- A ChatGPT login is saved. -/
  | login (apiKey : Option Text) (idToken accessToken refreshToken : Text) (now : DateTime)
  /-- An API key is saved. -/
  | loginWithApiKey (apiKey : Text)
  /-- The record is deleted, which is the first half of a logout. -/
  | delete
  /-- `reload`, which is also the second half of a logout. -/
  | reload (process : ι)
  /-- `refresh_token` takes the lock and does its guarded reload. -/
  | refreshToken (process : ι)
  /-- `refresh_token_from_authority` takes the lock. -/
  | refreshTokenFromAuthority (process : ι)
  /-- `unauthorized_recovery`. -/
  | unauthorizedRecovery (process : ι)
  /-- `next` is called on a recovery. -/
  | next (process : ι) (index : ℕ)
  /-- The refresh of a recovery takes the lock. -/
  | enter (process : ι) (index : ℕ)
  /-- A refresh sends its request, or returns without one. -/
  | request (process : ι)
  /-- The authority receives the request and answers it. -/
  | receive (process : ι) (answer : RefreshAnswer)
  /-- The answer arrives. -/
  | arrive (process : ι)
  /-- The merged record is saved. -/
  | save (process : ι) (now : DateTime)
  /-- The refresh reloads the cache and returns. -/
  | finish (process : ι)

namespace World

variable {ι : Type*} [DecidableEq ι]

/-- Change one process. -/
def set (world : World ι) (p : ι) (process : Process) : World ι :=
  { world with processes := Function.update world.processes p process }

/-- Change what the store holds. -/
def store (world : World ι) (record : Option AuthDotJson) : World ι :=
  { world with stored := record }

@[simp]
theorem processes_set_self (world : World ι) (p : ι) (process : Process) :
    (world.set p process).processes p = process :=
  Function.update_self ..

@[simp]
theorem processes_set_of_ne (world : World ι) {p q : ι} (process : Process) (apart : q ≠ p) :
    (world.set p process).processes q = world.processes q :=
  Function.update_of_ne apart ..

/-- What the authority has exchanged behind its answer. -/
def exchangedBehind (exchanged : List Text) (token : Text) : RefreshAnswer → List Text
  | .success _ => token :: exchanged
  | .unauthorized _ | .failed _ => exchanged

/-- One step; none where the event is not possible. -/
def step (decode : Decoder) (world : World ι) : Event ι → Option (World ι)
  | .login apiKey idToken accessToken refreshToken now =>
      (persistTokensAsync decode apiKey idToken accessToken refreshToken now).map fun record =>
        world.store (some record)
  | .loginWithApiKey apiKey => some (world.store (some (Login.loginWithApiKey apiKey)))
  | .delete => some (world.store none)
  | .reload p => some (world.set p ((world.processes p).reload decode world.stored))
  | .refreshToken p =>
      if (world.processes p).refresh = none then
        some (world.set p ((world.processes p).refreshToken decode world.stored))
      else none
  | .refreshTokenFromAuthority p =>
      if (world.processes p).refresh = none then
        some (world.set p ((world.processes p).enter none))
      else none
  | .unauthorizedRecovery p =>
      let process := world.processes p
      some (world.set p
        { process with recoveries := process.recoveries ++ [process.newRecovery] })
  | .next p index =>
      match (world.processes p).recoveries[index]? with
      | some recovery =>
          if recovery.running then none
          else some (world.set p ((world.processes p).next decode world.stored index recovery))
      | none => none
  | .enter p index =>
      if (world.processes p).refresh = none ∧
          ((world.processes p).recoveries[index]?).any UnauthorizedRecovery.running then
        some (world.set p ((world.processes p).enter (some index)))
      else none
  | .request p =>
      match (world.processes p).refresh with
      | some ⟨recovery, .entered⟩ => some (world.set p ((world.processes p).request recovery))
      | _ => none
  | .receive p answer =>
      match (world.processes p).refresh with
      | some ⟨recovery, .requested attempted token⟩ =>
          some
            { world.set p ((world.processes p).proceed recovery
                (.answered attempted token answer)) with
              exchanged := exchangedBehind world.exchanged token answer }
      | _ => none
  | .arrive p =>
      match (world.processes p).refresh with
      | some ⟨recovery, .answered attempted token answer⟩ =>
          some (world.set p
            ((world.processes p).arrive decode world.stored recovery attempted token answer))
      | _ => none
  | .save p now =>
      match (world.processes p).refresh with
      | some ⟨recovery, .loaded _ response record⟩ =>
          match record.merge decode response now with
          | some merged =>
              some ((world.store (some merged)).set p
                ((world.processes p).proceed recovery .saved))
          | none =>
              some (world.set p ((world.processes p).returns recovery
                (.error (.Transient .idToken))))
      | _ => none
  | .finish p =>
      match (world.processes p).refresh with
      | some ⟨recovery, .saved⟩ =>
          some (world.set p (((world.processes p).reload decode world.stored).returns recovery
            (.ok ())))
      | _ => none

/-- What one step finds and does. -/
inductive Stepped (decode : Decoder) (world : World ι) : Event ι → World ι → Prop
  | login {apiKey : Option Text} {idToken accessToken refreshToken : Text} {now : DateTime}
      {record : AuthDotJson}
      (persists :
        persistTokensAsync decode apiKey idToken accessToken refreshToken now = some record) :
      Stepped decode world (.login apiKey idToken accessToken refreshToken now)
        (world.store (some record))
  | loginWithApiKey (apiKey : Text) :
      Stepped decode world (.loginWithApiKey apiKey)
        (world.store (some (Login.loginWithApiKey apiKey)))
  | delete : Stepped decode world .delete (world.store none)
  | reload (p : ι) :
      Stepped decode world (.reload p)
        (world.set p ((world.processes p).reload decode world.stored))
  | refreshToken {p : ι} (idle : (world.processes p).refresh = none) :
      Stepped decode world (.refreshToken p)
        (world.set p ((world.processes p).refreshToken decode world.stored))
  | refreshTokenFromAuthority {p : ι} (idle : (world.processes p).refresh = none) :
      Stepped decode world (.refreshTokenFromAuthority p)
        (world.set p ((world.processes p).enter none))
  | unauthorizedRecovery (p : ι) :
      Stepped decode world (.unauthorizedRecovery p)
        (world.set p { world.processes p with
          recoveries := (world.processes p).recoveries ++ [(world.processes p).newRecovery] })
  | next {p : ι} {index : ℕ} {recovery : UnauthorizedRecovery}
      (found : (world.processes p).recoveries[index]? = some recovery)
      (idle : recovery.running = false) :
      Stepped decode world (.next p index)
        (world.set p ((world.processes p).next decode world.stored index recovery))
  | enter {p : ι} {index : ℕ} (idle : (world.processes p).refresh = none)
      (runs : ((world.processes p).recoveries[index]?).any UnauthorizedRecovery.running = true) :
      Stepped decode world (.enter p index) (world.set p ((world.processes p).enter (some index)))
  | request {p : ι} {recovery : Option ℕ}
      (entered : (world.processes p).refresh = some ⟨recovery, .entered⟩) :
      Stepped decode world (.request p) (world.set p ((world.processes p).request recovery))
  | receive {p : ι} {answer : RefreshAnswer} {recovery : Option ℕ} {attempted : CodexAuth}
      {token : Text}
      (requested : (world.processes p).refresh = some ⟨recovery, .requested attempted token⟩) :
      Stepped decode world (.receive p answer)
        { world.set p ((world.processes p).proceed recovery (.answered attempted token answer)) with
          exchanged := exchangedBehind world.exchanged token answer }
  | arrive {p : ι} {recovery : Option ℕ} {attempted : CodexAuth} {token : Text}
      {answer : RefreshAnswer}
      (answered :
        (world.processes p).refresh = some ⟨recovery, .answered attempted token answer⟩) :
      Stepped decode world (.arrive p)
        (world.set p
          ((world.processes p).arrive decode world.stored recovery attempted token answer))
  | save {p : ι} {now : DateTime} {recovery : Option ℕ} {token : Text} {response : RefreshResponse}
      {record merged : AuthDotJson}
      (loaded : (world.processes p).refresh = some ⟨recovery, .loaded token response record⟩)
      (merges : record.merge decode response now = some merged) :
      Stepped decode world (.save p now)
        ((world.store (some merged)).set p ((world.processes p).proceed recovery .saved))
  | saveFails {p : ι} {now : DateTime} {recovery : Option ℕ} {token : Text}
      {response : RefreshResponse} {record : AuthDotJson}
      (loaded : (world.processes p).refresh = some ⟨recovery, .loaded token response record⟩)
      (fails : record.merge decode response now = none) :
      Stepped decode world (.save p now)
        (world.set p ((world.processes p).returns recovery (.error (.Transient .idToken))))
  | finish {p : ι} {recovery : Option ℕ}
      (saved : (world.processes p).refresh = some ⟨recovery, .saved⟩) :
      Stepped decode world (.finish p)
        (world.set p (((world.processes p).reload decode world.stored).returns recovery (.ok ())))

theorem stepped_of_step {decode : Decoder} {world next : World ι} {event : Event ι}
    (stepped : world.step decode event = some next) : Stepped decode world event next := by
  cases event with
  | login apiKey idToken accessToken refreshToken now =>
      obtain ⟨record, persists, rfl⟩ := Option.map_eq_some_iff.mp stepped
      exact .login persists
  | loginWithApiKey apiKey =>
      cases stepped
      exact .loginWithApiKey apiKey
  | delete =>
      cases stepped
      exact .delete
  | reload p =>
      cases stepped
      exact .reload p
  | refreshToken p =>
      simp only [step] at stepped
      split at stepped
      case isFalse => cases stepped
      case isTrue idle =>
        cases stepped
        exact .refreshToken idle
  | refreshTokenFromAuthority p =>
      simp only [step] at stepped
      split at stepped
      case isFalse => cases stepped
      case isTrue idle =>
        cases stepped
        exact .refreshTokenFromAuthority idle
  | unauthorizedRecovery p =>
      cases stepped
      exact .unauthorizedRecovery p
  | next p index =>
      simp only [step] at stepped
      split at stepped
      case h_2 => cases stepped
      case h_1 recovery found =>
        split at stepped
        case isTrue => cases stepped
        case isFalse idle =>
          cases stepped
          exact .next found (Bool.eq_false_iff.mpr idle)
  | enter p index =>
      simp only [step] at stepped
      split at stepped
      case isFalse => cases stepped
      case isTrue idle =>
        cases stepped
        exact .enter idle.1 idle.2
  | request p =>
      simp only [step] at stepped
      split at stepped
      case h_2 => cases stepped
      case h_1 recovery entered =>
        cases stepped
        exact .request entered
  | receive p answer =>
      simp only [step] at stepped
      split at stepped
      case h_2 => cases stepped
      case h_1 recovery attempted token requested =>
        cases stepped
        exact .receive requested
  | arrive p =>
      simp only [step] at stepped
      split at stepped
      case h_2 => cases stepped
      case h_1 recovery attempted token answer answered =>
        cases stepped
        exact .arrive answered
  | save p now =>
      simp only [step] at stepped
      split at stepped
      case h_2 => cases stepped
      case h_1 recovery token response record loaded =>
        split at stepped
        case h_1 merged merges =>
          cases stepped
          exact .save loaded merges
        case h_2 fails =>
          cases stepped
          exact .saveFails loaded fails
  | finish p =>
      simp only [step] at stepped
      split at stepped
      case h_2 => cases stepped
      case h_1 recovery saved =>
        cases stepped
        exact .finish saved

end World

end CodexPilot.Login
