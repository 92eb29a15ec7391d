import CodexPilot.Library.Transitions
import CodexPilot.Login.AuthManager

/-!
# The accounts of stored records

The guarded reload of a refresh checks the account before the request; the answer is merged into
whatever record the store holds when it arrives, and the reload that closes the refresh checks
nothing.  No account is mixed with another one as long as the record that the answer meets is of the
account that was asked for, and the closing reload finds the account of the cache.
-/

namespace CodexPilot.Login

open RustStd Transitions

variable {ι : Type*}

/-! ## Tokens of one account -/

section Owners

variable (owner : Text → Text)

/-- The tokens and the account id belong to an account. -/
structure TokenData.OfAccount (account : Text) (tokens : TokenData) : Prop where
  idToken : owner tokens.idToken.rawJwt = account
  accessToken : owner tokens.accessToken = account
  refreshToken : owner tokens.refreshToken = account
  accountId : ∀ id ∈ tokens.accountId, id = account

/-- The tokens that a record carries belong to one account. -/
def AuthDotJson.OneAccount (record : AuthDotJson) : Prop :=
  ∀ tokens ∈ record.tokens, tokens.OfAccount owner (owner tokens.refreshToken)

/-- The tokens that an answer carries belong to an account. -/
structure RefreshResponse.OfAccount (account : Text) (response : RefreshResponse) : Prop where
  idToken : ∀ token ∈ response.idToken, owner token = account
  accessToken : ∀ token ∈ response.accessToken, owner token = account
  refreshToken : ∀ token ∈ response.refreshToken, owner token = account

instance decidableOfAccount (account : Text) (tokens : TokenData) :
    Decidable (tokens.OfAccount owner account) :=
  decidable_of_iff
    (owner tokens.idToken.rawJwt = account ∧ owner tokens.accessToken = account ∧
      owner tokens.refreshToken = account ∧ ∀ id ∈ tokens.accountId, id = account)
    ⟨fun ⟨idToken, accessToken, refreshToken, accountId⟩ =>
        ⟨idToken, accessToken, refreshToken, accountId⟩,
      fun ofAccount => ⟨ofAccount.idToken, ofAccount.accessToken, ofAccount.refreshToken,
        ofAccount.accountId⟩⟩

instance decidableOneAccount (record : AuthDotJson) : Decidable (record.OneAccount owner) :=
  inferInstanceAs (Decidable (∀ tokens ∈ record.tokens,
    tokens.OfAccount owner (owner tokens.refreshToken)))

instance decidableResponseOfAccount (account : Text) (response : RefreshResponse) :
    Decidable (response.OfAccount owner account) :=
  decidable_of_iff
    ((∀ token ∈ response.idToken, owner token = account) ∧
      (∀ token ∈ response.accessToken, owner token = account) ∧
      ∀ token ∈ response.refreshToken, owner token = account)
    ⟨fun ⟨idToken, accessToken, refreshToken⟩ => ⟨idToken, accessToken, refreshToken⟩,
      fun ofAccount => ⟨ofAccount.idToken, ofAccount.accessToken, ofAccount.refreshToken⟩⟩

/-- The record of a process's refresh that the answer is merged into. -/
def Process.loadedRecord (process : Process) : Option AuthDotJson :=
  match process.refresh with
  | some ⟨_, .loaded _ _ record⟩ => some record
  | _ => none

/-- The refresh token whose answer is on its way, and the answer when it is known. -/
def Process.asked (process : Process) : Option (Text × Option RefreshResponse) :=
  match process.refresh with
  | some ⟨_, .requested _ token⟩ => some (token, none)
  | some ⟨_, .answered _ token (.success response)⟩ => some (token, some response)
  | _ => none

/-- Logins save tokens of one account, and the authority answers with tokens of the account whose
refresh token it was sent. -/
def Honest (decode : Decoder) (world : World ι) : Event ι → Prop
  | .login apiKey idToken accessToken refreshToken now =>
      ∀ record ∈ persistTokensAsync decode apiKey idToken accessToken refreshToken now,
        record.OneAccount owner
  | .receive p (.success response) =>
      ∀ asked ∈ (world.processes p).asked, response.OfAccount owner (owner asked.1)
  | _ => True

/-- The record that an answer meets is a ChatGPT record of the account whose refresh token was sent,
and the reload that closes a refresh finds the account id of the cache. -/
def KeepsAccount (decode : Decoder) (world : World ι) : Event ι → Prop
  | .arrive p => ∀ asked ∈ (world.processes p).asked, ∀ record ∈ world.stored,
      ∃ tokens ∈ record.tokens, owner tokens.refreshToken = owner asked.1
  | .finish p => (loadAuth decode (world.processes p).envApiKey world.stored).bind
      CodexAuth.getAccountId = (world.processes p).accountId
  | _ => True

instance decidableHonest (decode : Decoder) (world : World ι) :
    (event : Event ι) → Decidable (Honest owner decode world event)
  | .login apiKey idToken accessToken refreshToken now =>
      inferInstanceAs (Decidable (∀ record ∈
        persistTokensAsync decode apiKey idToken accessToken refreshToken now,
        record.OneAccount owner))
  | .receive p (.success response) =>
      inferInstanceAs (Decidable (∀ asked ∈ (world.processes p).asked,
        response.OfAccount owner (owner asked.1)))
  | .receive _ (.unauthorized _) | .receive _ (.failed _) | .loginWithApiKey _ | .delete
  | .reload _ | .refreshToken _ | .refreshTokenFromAuthority _ | .unauthorizedRecovery _
  | .next _ _ | .enter _ _ | .request _ | .arrive _ | .save _ _ | .finish _ => isTrue trivial

instance decidableKeepsAccount (decode : Decoder) (world : World ι) :
    (event : Event ι) → Decidable (KeepsAccount owner decode world event)
  | .arrive p => inferInstanceAs (Decidable (∀ asked ∈ (world.processes p).asked,
      ∀ record ∈ world.stored, ∃ tokens ∈ record.tokens, owner tokens.refreshToken = owner asked.1))
  | .finish p => inferInstanceAs (Decidable ((loadAuth decode (world.processes p).envApiKey
      world.stored).bind CodexAuth.getAccountId = (world.processes p).accountId))
  | .login .. | .receive _ _ | .loginWithApiKey _ | .delete | .reload _ | .refreshToken _
  | .refreshTokenFromAuthority _ | .unauthorizedRecovery _ | .next _ _ | .enter _ _ | .request _
  | .save _ _ => isTrue trivial

/-- What a step may not do: store tokens of several accounts, give tokens to a record with an API
key, or change the account id of a cache other than by a reload. -/
structure Unmixed (world next : World ι) (event : Event ι) : Prop where
  stored : ∀ record ∈ next.stored, record.OneAccount owner
  apiKeys : ∀ p now, event = .save p now → ∀ record ∈ (world.processes p).loadedRecord,
    record.resolvedMode = .ApiKey → record.tokens = none →
    next.stored = world.stored ∨ ∀ saved ∈ next.stored, saved.tokens = none
  accountIds : ∀ p, event ≠ .reload p → (∀ index, event ≠ .next p index) →
    (next.processes p).accountId = (world.processes p).accountId

end Owners

section Merge

variable {owner : Text → Text} {decode : Decoder} {record merged loaded : AuthDotJson}
  {response : RefreshResponse} {account : Text} {now : DateTime}

theorem AuthDotJson.OneAccount.reread (one : record.OneAccount owner)
    (read : record.reread decode = some loaded) : loaded.OneAccount owner := by
  intro tokens found
  rw [AuthDotJson.reread] at read
  split at read
  case h_1 absent =>
    cases read
    cases absent.symm.trans found
  case h_2 before present =>
    obtain ⟨reread, rereads, rfl⟩ := Option.map_eq_some_iff.mp read
    obtain ⟨info, parsed, rfl⟩ := Option.map_eq_some_iff.mp rereads
    cases found
    have own := one before present
    exact
      { own with idToken := (congrArg owner (rawJwt_of_parse parsed)).trans own.idToken }

theorem OfAccount.getD {token : Option Text} {before : Text}
    (own : ∀ text ∈ token, owner text = account) (same : owner before = account) :
    owner (token.getD before) = account := by
  cases token with
  | none => exact same
  | some text => exact own text rfl

/-- An answer that meets a record of its own account leaves a record of that account. -/
theorem AuthDotJson.OneAccount.merge (one : record.OneAccount owner)
    (own : response.OfAccount owner account) {tokens : TokenData}
    (present : record.tokens = some tokens) (same : owner tokens.refreshToken = account)
    (merges : record.merge decode response now = some merged) : merged.OneAccount owner := by
  have before := one tokens present
  rw [same] at before
  have after (info : IdTokenInfo) (idToken : owner info.rawJwt = account) :
      TokenData.OfAccount owner (owner (response.refreshToken.getD tokens.refreshToken))
        { tokens with
          idToken := info
          accessToken := response.accessToken.getD tokens.accessToken
          refreshToken := response.refreshToken.getD tokens.refreshToken } := by
    rw [OfAccount.getD own.refreshToken before.refreshToken]
    exact
      { idToken := idToken
        accessToken := OfAccount.getD own.accessToken before.accessToken
        refreshToken := OfAccount.getD own.refreshToken before.refreshToken
        accountId := before.accountId }
  simp only [AuthDotJson.merge, present, Option.getD_some] at merges
  split at merges
  case h_1 =>
    cases merges
    intro found same
    cases same
    exact after tokens.idToken before.idToken
  case h_2 idToken carries =>
    obtain ⟨info, parsed, rfl⟩ := Option.map_eq_some_iff.mp merges
    intro found same
    cases same
    refine after info ?_
    rw [rawJwt_of_parse parsed]
    exact own.idToken idToken carries

theorem oneAccount_loginWithApiKey (apiKey : Text) : (loginWithApiKey apiKey).OneAccount owner :=
  fun _ carries => nomatch carries

end Merge

/-! ## The invariant -/

section Steps

variable {owner : Text → Text} {decode : Decoder} {world next : World ι} {event : Event ι}

/-- What the refresh of a process carries belongs to the account whose refresh token was sent. -/
structure Process.Fits (owner : Text → Text) (process : Process) : Prop where
  answered : ∀ token response, process.asked = some (token, some response) →
    response.OfAccount owner (owner token)
  loaded : ∀ recovery token response record,
    process.refresh = some ⟨recovery, .loaded token response record⟩ →
    response.OfAccount owner (owner token) ∧ record.OneAccount owner ∧
      ∃ tokens ∈ record.tokens, owner tokens.refreshToken = owner token

/-- A refresh that carries no answer fits. -/
theorem Process.Fits.of_asked {process : Process}
    (asked : ∀ token response, process.asked ≠ some (token, some response))
    (loaded : process.loadedRecord = none) : process.Fits owner where
  answered token response same := absurd same (asked token response)
  loaded recovery token response record same := by
    simp [Process.loadedRecord, same] at loaded

theorem Process.Fits.of_refresh_eq {process process' : Process} (fits : process.Fits owner)
    (same : process'.refresh = process.refresh) : process'.Fits owner where
  answered token response asked := by
    refine fits.answered token response ?_
    rw [← asked, Process.asked, Process.asked, same]
  loaded recovery token response record loaded :=
    fits.loaded recovery token response record (same ▸ loaded)

theorem Process.Fits.of_none {process : Process} (none : process.refresh = none) :
    process.Fits owner :=
  .of_asked (by simp [Process.asked, none]) (by simp [Process.loadedRecord, none])

theorem Process.Fits.of_entered {process : Process} {recovery : Option ℕ}
    (entered : process.refresh = some ⟨recovery, .entered⟩) : process.Fits owner :=
  .of_asked (by simp [Process.asked, entered]) (by simp [Process.loadedRecord, entered])

/-- What the store holds and what the refreshes carry is not mixed. -/
structure Separate (owner : Text → Text) (world : World ι) : Prop where
  stored : ∀ record ∈ world.stored, record.OneAccount owner
  fits : ∀ p, (world.processes p).Fits owner

theorem Separate.store (separate : Separate owner world) {record : Option AuthDotJson}
    (one : ∀ stored ∈ record, stored.OneAccount owner) : Separate owner (world.store record) where
  stored := one
  fits := separate.fits

variable [DecidableEq ι]

theorem Separate.set (separate : Separate owner world) {p : ι} {process : Process}
    (fits : process.Fits owner) : Separate owner (world.set p process) where
  stored := separate.stored
  fits q := by
    obtain rfl | apart := eq_or_ne q p
    · simpa using fits
    · simpa [apart] using separate.fits q

/-- Every honest step whose answer meets its own account keeps the accounts apart. -/
theorem Separate.step (separate : Separate owner world) (honest : Honest owner decode world event)
    (keeps : KeepsAccount owner decode world event)
    (stepped : world.step decode event = some next) : Separate owner next := by
  cases World.stepped_of_step stepped with
  | login persists =>
      refine separate.store fun stored same => ?_
      cases same
      exact honest _ persists
  | loginWithApiKey apiKey =>
      refine separate.store fun stored same => ?_
      cases same
      exact oneAccount_loginWithApiKey apiKey
  | delete => exact separate.store fun _ same => nomatch same
  | reload p => exact separate.set ((separate.fits p).of_refresh_eq rfl)
  | @refreshToken p =>
      obtain ⟨same | entered, -⟩ := (world.processes p).refreshToken_spec decode world.stored
      · exact separate.set ((separate.fits p).of_refresh_eq same)
      · exact separate.set (.of_entered entered)
  | refreshTokenFromAuthority | enter => exact separate.set (.of_entered (Process.refresh_enter ..))
  | unauthorizedRecovery p => exact separate.set ((separate.fits p).of_refresh_eq rfl)
  | @next p => exact separate.set ((separate.fits p).of_refresh_eq (Process.refresh_next ..))
  | @request p recovery entered =>
      obtain ⟨none | ⟨record, tokens, -, -, -, requested⟩, -⟩ :=
        (world.processes p).request_spec recovery
      · exact separate.set (.of_none none)
      · exact separate.set (.of_asked (by simp [Process.asked, requested])
          (by simp [Process.loadedRecord, requested]))
  | @receive p answer recovery attempted token requested =>
      have fits : ((world.processes p).proceed recovery
          (.answered attempted token answer)).Fits owner := by
        refine ⟨fun token' response same => ?_, fun _ _ _ _ same => nomatch same⟩
        cases answer with
        | success response' =>
            cases same
            exact honest (token, none) (by simp [Process.asked, requested])
        | unauthorized code | failed message => cases same
      have set := separate.set (p := p) fits
      exact ⟨set.stored, set.fits⟩
  | @arrive p recovery attempted token answer answered =>
      obtain ⟨⟨none, -⟩ | ⟨response, loaded, rfl, loads, carries⟩, -⟩ :=
        (world.processes p).arrive_spec decode world.stored recovery attempted token answer
      · exact separate.set (.of_none none)
      · have asked : (world.processes p).asked = some (token, some response) := by
          simp [Process.asked, answered]
        obtain ⟨record, held, rereads⟩ := load_eq_ok_some.mp loads
        obtain ⟨tokens, present, same⟩ := keeps _ asked record held
        obtain ⟨tokens', present', same'⟩ : ∃ tokens' ∈ loaded.tokens,
            tokens'.refreshToken = tokens.refreshToken := by
          refine Option.map_eq_some_iff.mp ((refreshToken_of_reread rereads).trans ?_)
          rw [Option.mem_def.mp present]
          rfl
        refine separate.set ⟨fun token' response' asked' => ?_, ?_⟩
        · simp [Process.asked, carries] at asked'
        · intro recovery' token' response' record' loaded'
          cases carries.symm.trans loaded'
          refine ⟨(separate.fits p).answered token response asked,
            (separate.stored record held).reread rereads, tokens', present', ?_⟩
          rw [same', same]
  | @save p now recovery token response record merged loaded merges =>
      obtain ⟨own, one, tokens, present, same⟩ :=
        (separate.fits p).loaded recovery token response record loaded
      refine set (separate.store fun stored held => ?_)
        (.of_asked (by simp [Process.asked]) (by simp [Process.loadedRecord]))
      cases held
      exact one.merge own present same merges
  | saveFails | finish => exact separate.set (.of_none (Process.refresh_returns ..))

/-- A process that a step does not replace keeps its account id, and so does one that is replaced by
one with the same account id. -/
theorem World.accountId_set {p : ι} {process : Process}
    (same : process.accountId = (world.processes p).accountId) (q : ι) :
    ((world.set p process).processes q).accountId = (world.processes q).accountId := by
  obtain rfl | apart := eq_or_ne q p
  · simpa using same
  · simp [apart]

theorem World.accountId_set_of_ne {p q : ι} (process : Process) (apart : q ≠ p) :
    ((world.set p process).processes q).accountId = (world.processes q).accountId := by
  simp [apart]

/-- No step but a reload changes the account id of a cache. -/
theorem accountId_step (keeps : KeepsAccount owner decode world event)
    (stepped : world.step decode event = some next) (q : ι) (notReload : event ≠ .reload q)
    (notNext : ∀ index, event ≠ .next q index) :
    (next.processes q).accountId = (world.processes q).accountId := by
  cases World.stepped_of_step stepped with
  | login | loginWithApiKey | delete => rfl
  | reload p =>
      have apart : q ≠ p := fun same => notReload (by rw [same])
      exact World.accountId_set_of_ne _ apart
  | @next p index =>
      have apart : q ≠ p := fun same => notNext index (by rw [same])
      exact World.accountId_set_of_ne _ apart
  | refreshToken => exact World.accountId_set (Process.refreshToken_spec _ _ _).2 q
  | refreshTokenFromAuthority | enter => exact World.accountId_set (Process.accountId_enter ..) q
  | unauthorizedRecovery p =>
      refine World.accountId_set ?_ q
      rfl
  | request => exact World.accountId_set (Process.request_spec _ _).2 q
  | receive | save => exact World.accountId_set (Process.accountId_proceed ..) q
  | arrive => exact World.accountId_set (Process.arrive_spec _ _ _ _ _ _ _).2 q
  | saveFails => exact World.accountId_set (Process.accountId_returns ..) q
  | finish =>
      refine World.accountId_set ?_ q
      rw [Process.accountId_returns, Process.accountId_reload]
      exact keeps

/-- A step of a world that is not mixed mixes nothing. -/
theorem Separate.unmixed (separate : Separate owner world)
    (honest : Honest owner decode world event) (keeps : KeepsAccount owner decode world event)
    (stepped : world.step decode event = some next) : Unmixed owner world next event where
  stored := (separate.step honest keeps stepped).stored
  apiKeys := by
    rintro p now rfl record loaded - absent
    rw [Process.loadedRecord] at loaded
    split at loaded
    case h_2 => cases loaded
    case h_1 recovery token response record' found =>
      cases loaded
      obtain ⟨-, -, tokens, present, -⟩ :=
        (separate.fits p).loaded recovery token response record found
      cases absent.symm.trans present
  accountIds := fun q => accountId_step keeps stepped q

end Steps

section Runs

variable [DecidableEq ι] {owner : Text → Text} {decode : Decoder} {start : World ι}
  {events : List (Event ι)}

/-- In a run whose answers meet records of their own accounts, and whose closing reloads find the
accounts of the caches, no step mixes accounts. -/
theorem unmixed_of_run (one : ∀ record ∈ start.stored, record.OneAccount owner)
    (idle : ∀ p, (start.processes p).refresh = none)
    (honest : Along (World.step decode) (Honest owner decode) start events)
    (keeps : Along (World.step decode) (KeepsAccount owner decode) start events)
    (before after : List (Event ι)) (event : Event ι) (split : events = before ++ event :: after)
    (world next : World ι) (ran : run (World.step decode) start before = some world)
    (stepped : world.step decode event = some next) : Unmixed owner world next event := by
  subst split
  have kept : ∀ (world : World ι) event next, Separate owner world →
      Honest owner decode world event ∧ KeepsAccount owner decode world event →
      World.step decode world event = some next → Separate owner next :=
    fun world event next separate met stepped => separate.step met.1 met.2 stepped
  have separate : Separate owner start := ⟨one, fun p => .of_none (idle p)⟩
  obtain ⟨early, late⟩ := along_append ran (along_and honest keeps)
  obtain ⟨⟨honest', keeps'⟩, -⟩ := late next stepped
  have reached : Separate owner world := invariant_of_run kept separate early ran
  exact reached.unmixed honest' keeps' stepped

/-- The id token of account `a`. -/
def idTokenA : Text :=
  ("h.eyJodHRwczovL2FwaS5vcGVuYWkuY29tL2F1dGgiOnsiY2hhdGdwdF9hY2NvdW50X2lkIjoiYSJ9fQ" ++
    ".s").toList

/-- The id token of account `b`. -/
def idTokenB : Text :=
  ("h.eyJodHRwczovL2FwaS5vcGVuYWkuY29tL2F1dGgiOnsiY2hhdGdwdF9hY2NvdW50X2lkIjoiYiJ9fQ" ++
    ".s").toList

/-- Id tokens that say nothing but their account. -/
def decodeAccount (jwt : Text) : Option IdClaims :=
  let claims (account : Text) : IdClaims := ⟨none, none, some ⟨none, none, none, some account⟩⟩
  if jwt = idTokenA then some (claims ['a'])
  else if jwt = idTokenB then some (claims ['b'])
  else none

/-- Other tokens belong to the account that they begin with. -/
def ownerByHead (token : Text) : Text :=
  if token = idTokenA then ['a'] else if token = idTokenB then ['b'] else token.take 1

/-- A process on the record of account `a`. -/
def loggedInToA : World Unit :=
  let record := persistTokensAsync decodeAccount none idTokenA ['a', '1'] ['a', 'r'] 0
  { stored := record
    exchanged := []
    processes := fun _ =>
      { envApiKey := none
        inner := ⟨loadAuth decodeAccount none record, none⟩
        refresh := none
        recoveries := [] } }

/-- The authority answers the refresh token of account `a`. -/
def answeredForA : Event Unit :=
  .receive () (.success ⟨some idTokenA, some ['a', '2'], some ['a', 's']⟩)

/-- A login to account `b`. -/
def loginToB : Event Unit := .login none idTokenB ['b', '1'] ['b', 'r'] 1

/-- A refresh with a login to the other account behind it. -/
def loggedInBehind : List (Event Unit) :=
  [.refreshToken (), .request (), answeredForA, .arrive (), .save () 2, .finish (), loginToB]

theorem unmixed_loggedInBehind :
    ∃ world next, run (World.step decodeAccount) loggedInToA (loggedInBehind.take 4) = some world ∧
      world.step decodeAccount (.save () 2) = some next ∧
      Unmixed ownerByHead world next (.save () 2) := by
  have one : ∀ record ∈ loggedInToA.stored, record.OneAccount ownerByHead := by decide
  have honest : Along (World.step decodeAccount) (Honest ownerByHead decodeAccount) loggedInToA
      loggedInBehind := by decide
  have keeps : Along (World.step decodeAccount) (KeepsAccount ownerByHead decodeAccount) loggedInToA
      loggedInBehind := by decide
  refine ⟨_, _, rfl, rfl, ?_⟩
  exact unmixed_of_run one (fun _ => rfl) honest keeps (loggedInBehind.take 4)
    [.finish (), loginToB] (.save () 2) rfl _ _ rfl rfl

/-- The login comes while the request is on its way. -/
def loggedInMeanwhile : List (Event Unit) :=
  [.refreshToken (), .request (), loginToB, answeredForA, .arrive (), .save () 2]

/-- The key is saved while the request is on its way. -/
def apiKeyMeanwhile : List (Event Unit) :=
  [.refreshToken (), .request (), .loginWithApiKey ['k'], answeredForA, .arrive ()]

/-- The tokens of account `a` are saved under the account id `b`, the reload gives the cache that
account id, and a record with an API key gets tokens. -/
theorem not_unmixed_loggedInMeanwhile :
    (∃ mixed next, Along (World.step decodeAccount) (Honest ownerByHead decodeAccount) loggedInToA
        loggedInMeanwhile ∧
      run (World.step decodeAccount) loggedInToA loggedInMeanwhile = some mixed ∧
      (∃ record ∈ mixed.stored, ¬record.OneAccount ownerByHead) ∧
      mixed.step decodeAccount (.finish ()) = some next ∧
      (mixed.processes ()).accountId = some ['a'] ∧ (next.processes ()).accountId = some ['b']) ∧
    ∃ world next, Along (World.step decodeAccount) (Honest ownerByHead decodeAccount) loggedInToA
        apiKeyMeanwhile ∧
      run (World.step decodeAccount) loggedInToA apiKeyMeanwhile = some world ∧
      world.stored = some (loginWithApiKey ['k']) ∧
      world.step decodeAccount (.save () 2) = some next ∧
      (∃ record ∈ next.stored, record.resolvedMode = .ApiKey ∧ record.tokens.isSome = true) ∧
      ¬Unmixed ownerByHead world next (.save () 2) := by
  constructor
  · refine ⟨_, _, by decide, rfl, ⟨_, rfl, by decide⟩, rfl, by decide, by decide⟩
  · refine ⟨_, _, by decide, rfl, rfl, rfl, ⟨_, rfl, rfl, rfl⟩, fun unmixed => ?_⟩
    obtain same | absent := unmixed.apiKeys () 2 rfl _ rfl rfl rfl
    · exact absurd same (by decide)
    · cases absent _ rfl

end Runs

end CodexPilot.Login
