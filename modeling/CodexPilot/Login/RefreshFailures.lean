import CodexPilot.Library.Transitions
import CodexPilot.Login.AuthManager

/-!
# Failures that are kept for credentials

A refresh that has failed for good is remembered beside the cached credentials, and nothing is asked
for them any more.  The calls of one manager run in any order, cut at every section under the lock
of the cache; only the refreshes exclude each other.  The store may hold anything whenever it is
loaded.
-/

namespace CodexPilot.Login

open RustStd Transitions

/-! ## The cache -/

namespace CodexAuth

/-- `api_auth_mode`. -/
def apiAuthMode : CodexAuth → ApiAuthMode
  | ApiKey _ => .ApiKey
  | Chatgpt _ => .Chatgpt
  | ChatgptAuthTokens _ => .ChatgptAuthTokens

/-- `api_key`. -/
def apiKey : CodexAuth → Option Text
  | ApiKey key => some key
  | Chatgpt _ | ChatgptAuthTokens _ => none

end CodexAuth

/-- The comparison of `auths_equal_for_refresh`, as the code makes it. -/
theorem authsEqualForRefresh_eq (a b : Option CodexAuth) :
    authsEqualForRefresh a b =
      match a, b with
      | none, none => true
      | some a, some b =>
          match a.apiAuthMode, b.apiAuthMode with
          | .ApiKey, .ApiKey => a.apiKey == b.apiKey
          | .Chatgpt, .Chatgpt | .ChatgptAuthTokens, .ChatgptAuthTokens =>
              a.currentAuthJson == b.currentAuthJson
          | _, _ => false
      | _, _ => false := by
  cases a with
  | none => cases b <;> rfl
  | some a =>
      cases b with
      | none => rfl
      | some b =>
          rw [Bool.eq_iff_iff]
          cases a <;> cases b <;> simp [authsEqualForRefresh, CodexAuth.apiAuthMode,
            CodexAuth.apiKey, CodexAuth.currentAuthJson]

/-- `auths_equal`, which compares the modes only. -/
def authsEqual (a b : Option CodexAuth) : Bool :=
  a.map CodexAuth.apiAuthMode == b.map CodexAuth.apiAuthMode

namespace CachedAuth

/-- `set_cached_auth`, with whether the auth value changed. -/
def setCachedAuth (cached : CachedAuth) (auth : Option CodexAuth) : Bool × CachedAuth :=
  (!authsEqual cached.auth auth,
    { auth := auth
      permanentRefreshFailure :=
        if authsEqualForRefresh cached.auth auth then cached.permanentRefreshFailure else none })

/-- `refresh_failure_for_auth`. -/
def refreshFailureForAuth (cached : CachedAuth) (auth : CodexAuth) :
    Option RefreshTokenFailedError :=
  (cached.permanentRefreshFailure.filter fun failure =>
    authsEqualForRefresh (some auth) (some failure.1)).map Prod.snd

/-- `record_permanent_refresh_failure_if_unchanged`. -/
def recordPermanentRefreshFailureIfUnchanged (cached : CachedAuth) (attempted : CodexAuth)
    (error : RefreshTokenFailedError) : CachedAuth :=
  if authsEqualForRefresh (some attempted) cached.auth then
    { cached with permanentRefreshFailure := some (attempted, error) }
  else cached

end CachedAuth

/-- A process does to its cache what is done here to a cache by itself. -/
theorem Process.inner_eq (process : Process) (auth : Option CodexAuth) (attempted : CodexAuth)
    (error : RefreshTokenFailedError) :
    (process.setCachedAuth auth).inner = (process.inner.setCachedAuth auth).2 ∧
      process.refreshFailureForAuth attempted = process.inner.refreshFailureForAuth attempted ∧
      (process.recordPermanentRefreshFailureIfUnchanged attempted error).inner =
        process.inner.recordPermanentRefreshFailureIfUnchanged attempted error := by
  refine ⟨rfl, rfl, ?_⟩
  rw [recordPermanentRefreshFailureIfUnchanged,
    CachedAuth.recordPermanentRefreshFailureIfUnchanged]
  split <;> rfl

/-! ## The calls of one manager -/

/-- What follows when the cache has been set. -/
inductive AfterSet where
  /-- The call returns. -/
  | returns
  /-- The refresh returns, and releases the lock. -/
  | releases
  /-- The refresh goes on to the authority. -/
  | asks
  deriving DecidableEq

/-- Where a call is. -/
inductive Position where
  | idle
  /-- A guarded reload has loaded the expected account; it compares next. -/
  | guarding (auth : Option CodexAuth) (refreshing : Bool)
  /-- The cache is set next. -/
  | setting (auth : Option CodexAuth) (after : AfterSet)
  /-- `refresh_token` has the refresh lock. -/
  | starting
  /-- It has read which account the store must hold. -/
  | expecting (accountId : Option Text)
  /-- `refresh_token_from_authority_impl` begins. -/
  | entered
  /-- It has read the cached authentication. -/
  | holding (auth : CodexAuth)
  /-- No failure was kept for it. -/
  | cleared (attempted : CodexAuth)
  /-- Its request is on the way. -/
  | requested (attempted : CodexAuth)
  /-- The refresh has failed for good. -/
  | failed (attempted : CodexAuth) (error : RefreshTokenFailedError)
  deriving DecidableEq

/-- The call is a refresh that has the refresh lock. -/
def Position.refreshing : Position → Bool
  | idle | guarding _ false | setting _ .returns => false
  | guarding _ true | setting _ .releases | setting _ .asks | starting | expecting _ | entered
  | holding _ | cleared _ | requested _ | failed _ _ => true

/-- Where a call carries nothing that it must have. -/
def Position.Plain (position : Position) : Prop :=
  (∀ attempted error, position ≠ .failed attempted error) ∧
    ∀ attempted, position ≠ .cleared attempted

/-- One `AuthManager` with the calls that run in it, the requests that it has sent, and the
refreshes that have failed for good. -/
structure Manager (τ : Type*) where
  inner : CachedAuth
  /-- The call that has `refresh_lock`. -/
  refreshLock : Option τ
  calls : τ → Position
  requests : List CodexAuth
  failures : List (CodexAuth × RefreshTokenFailedError)

/-- What comes of a request. -/
inductive Outcome where
  /-- The answer has been saved, and the store loaded again. -/
  | saved (loaded : Option CodexAuth)
  | permanent (error : RefreshTokenFailedError)
  /-- A transient failure, or a success that saves nothing. -/
  | transient

namespace Manager

/-- One section of a call. -/
inductive Event (τ : Type*) where
  /-- `reload` loads the store; so does the second half of a logout. -/
  | reload (call : τ) (loaded : Option CodexAuth)
  /-- The guarded reload of an `UnauthorizedRecovery` loads the store. -/
  | guardedReload (call : τ) (expected : Option Text) (loaded : Option CodexAuth)
  /-- `refresh_token` takes the refresh lock. -/
  | refreshToken (call : τ)
  /-- `refresh_token_from_authority` takes the refresh lock. -/
  | refreshTokenFromAuthority (call : τ)
  /-- The guarded reload of `refresh_token` loads the store. -/
  | load (call : τ) (loaded : Option CodexAuth)
  /-- The next section under the lock of the cache. -/
  | locked (call : τ)
  /-- The request is sent. -/
  | send (call : τ)
  /-- The request has been answered. -/
  | answer (call : τ) (outcome : Outcome)
  /-- The future of a refresh is dropped while it waits for the answer. -/
  | cancel (call : τ)

variable {τ : Type*} [DecidableEq τ]

/-- A call moves on. -/
def put (manager : Manager τ) (t : τ) (position : Position) : Manager τ :=
  { manager with calls := Function.update manager.calls t position }

/-- A refresh takes the lock. -/
def acquire (manager : Manager τ) (t : τ) (position : Position) : Manager τ :=
  { manager.put t position with refreshLock := some t }

/-- A refresh returns. -/
def release (manager : Manager τ) (t : τ) : Manager τ :=
  { manager.put t .idle with refreshLock := none }

/-- The cache is set, and the call goes on. -/
def set (manager : Manager τ) (t : τ) (auth : Option CodexAuth) (after : AfterSet) : Manager τ :=
  let manager : Manager τ :=
    { manager with inner := (manager.inner.setCachedAuth auth).2 }
  match after with
  | .returns => manager.put t .idle
  | .releases => manager.release t
  | .asks => manager.put t .entered

/-- What a guarded reload does with what it has loaded: none when it is skipped. -/
def guarded (expected : Option Text) (loaded : Option CodexAuth) (refreshing : Bool) :
    Option Position :=
  match expected with
  | none => none
  | some accountId =>
      if loaded.bind CodexAuth.getAccountId = some accountId then
        some (.guarding loaded refreshing)
      else none

/-- What a guarded reload does behind its comparison. -/
def afterComparison (refreshing changed : Bool) : AfterSet :=
  match refreshing, changed with
  | false, _ => .returns
  | true, true => .releases
  | true, false => .asks

/-- Whether `refresh_token_from_authority_impl` has something to send for an authentication. -/
def sends : CodexAuth → Bool
  | .ApiKey _ => false
  | .Chatgpt record => record.tokens.isSome
  | .ChatgptAuthTokens _ => true

/-- The next section of a call under the lock of the cache. -/
def criticalSection (manager : Manager τ) (t : τ) : Option (Manager τ) :=
  match manager.calls t with
  | .guarding auth refreshing =>
      let changed := !authsEqualForRefresh manager.inner.auth auth
      some (manager.put t (.setting auth (afterComparison refreshing changed)))
  | .setting auth after => some (manager.set t auth after)
  | .starting =>
      if manager.inner.auth.any CodexAuth.isApiKeyAuth then some (manager.release t)
      else some (manager.put t (.expecting (manager.inner.auth.bind CodexAuth.getAccountId)))
  | .entered =>
      match manager.inner.auth with
      | none => some (manager.release t)
      | some auth => some (manager.put t (.holding auth))
  | .holding auth =>
      match manager.inner.refreshFailureForAuth auth with
      | some _ => some (manager.release t)
      | none =>
          if sends auth then some (manager.put t (.cleared auth)) else some (manager.release t)
  | .failed attempted error =>
      some ({ manager with
        inner := manager.inner.recordPermanentRefreshFailureIfUnchanged attempted error }.release t)
  | .idle | .expecting _ | .cleared _ | .requested _ => none

/-- One step; none where it is not possible. -/
def step (manager : Manager τ) : Event τ → Option (Manager τ)
  | .reload t loaded =>
      if manager.calls t = .idle then some (manager.put t (.setting loaded .returns)) else none
  | .guardedReload t expected loaded =>
      if manager.calls t = .idle then
        match guarded expected loaded false with
        | some position => some (manager.put t position)
        | none => some manager
      else none
  | .refreshToken t =>
      if manager.calls t = .idle ∧ manager.refreshLock = none then
        some (manager.acquire t .starting)
      else none
  | .refreshTokenFromAuthority t =>
      if manager.calls t = .idle ∧ manager.refreshLock = none then
        some (manager.acquire t .entered)
      else none
  | .load t loaded =>
      match manager.calls t with
      | .expecting accountId =>
          match guarded accountId loaded true with
          | some position => some (manager.put t position)
          | none => some (manager.release t)
      | _ => none
  | .locked t => manager.criticalSection t
  | .send t =>
      match manager.calls t with
      | .cleared attempted =>
          some { manager.put t (.requested attempted) with
            requests := attempted :: manager.requests }
      | _ => none
  | .answer t outcome =>
      match manager.calls t with
      | .requested attempted =>
          match outcome with
          | .saved loaded => some (manager.put t (.setting loaded .releases))
          | .transient => some (manager.release t)
          | .permanent error =>
              -- The errors of `refresh_external_auth` are transient.
              if attempted.isExternalChatgptTokens then none
              else
                some { manager.put t (.failed attempted error) with
                  failures := (attempted, error) :: manager.failures }
      | _ => none
  | .cancel t =>
      match manager.calls t with
      | .requested _ => some (manager.release t)
      | _ => none

/-! ## The invariant -/

/-- The failure that is kept is one of the cached credentials, and has happened; a refresh that
found none for its credentials holds the lock, so that none is kept for them meanwhile. -/
structure Sound (manager : Manager τ) : Prop where
  current : ∀ failure ∈ manager.inner.permanentRefreshFailure,
    authsEqualForRefresh (some failure.1) manager.inner.auth = true
  recorded : ∀ failure ∈ manager.inner.permanentRefreshFailure, failure ∈ manager.failures
  failed : ∀ t attempted error, manager.calls t = .failed attempted error →
    (attempted, error) ∈ manager.failures
  holder : ∀ t, (manager.calls t).refreshing = true → manager.refreshLock = some t
  cleared : ∀ t attempted, manager.calls t = .cleared attempted →
    manager.inner.refreshFailureForAuth attempted = none

theorem refreshFailureForAuth_eq_none_iff {cached : CachedAuth} {auth : CodexAuth} :
    cached.refreshFailureForAuth auth = none ↔
      ∀ failure ∈ cached.permanentRefreshFailure,
        authsEqualForRefresh (some auth) (some failure.1) = false := by
  rw [CachedAuth.refreshFailureForAuth, Option.map_eq_none_iff, Option.filter_eq_none_iff]
  simp only [Bool.not_eq_true, Option.mem_def]

/-- Setting the cache keeps a failure only where the credentials stay the same. -/
theorem mem_permanentRefreshFailure_setCachedAuth {cached : CachedAuth} {auth : Option CodexAuth}
    {failure : CodexAuth × RefreshTokenFailedError} :
    failure ∈ (cached.setCachedAuth auth).2.permanentRefreshFailure ↔
      failure ∈ cached.permanentRefreshFailure ∧ authsEqualForRefresh cached.auth auth = true := by
  rw [CachedAuth.setCachedAuth]
  split
  case isTrue same => simp [same]
  case isFalse differ => simp [differ]

section Moves

variable {manager next : Manager τ} {t : τ} {position : Position}

/-- One call moves; the other calls see the lock as they need it, and no failure that was not there
while one of them has it. -/
theorem Sound.move (sound : Sound manager)
    (calls : next.calls = Function.update manager.calls t position)
    (failures : manager.failures ⊆ next.failures)
    (current : ∀ failure ∈ next.inner.permanentRefreshFailure,
      failure ∈ next.failures ∧ authsEqualForRefresh (some failure.1) next.inner.auth = true)
    (failed : ∀ attempted error, position = .failed attempted error →
      (attempted, error) ∈ next.failures)
    (holder : position.refreshing = true → next.refreshLock = some t)
    (cleared : ∀ attempted, position = .cleared attempted →
      next.inner.refreshFailureForAuth attempted = none)
    (others : ∀ other, other ≠ t → manager.refreshLock = some other →
      next.refreshLock = some other ∧
        ∀ failure ∈ next.inner.permanentRefreshFailure,
          failure ∈ manager.inner.permanentRefreshFailure) : Sound next where
  current failure kept := (current failure kept).2
  recorded failure kept := (current failure kept).1
  failed other attempted error at' := by
    rw [calls] at at'
    obtain rfl | apart := eq_or_ne other t
    · rw [Function.update_self] at at'
      exact failed attempted error at'
    · rw [Function.update_of_ne apart] at at'
      exact failures (sound.failed other attempted error at')
  holder other refreshing := by
    rw [calls] at refreshing
    obtain rfl | apart := eq_or_ne other t
    · rw [Function.update_self] at refreshing
      exact holder refreshing
    · rw [Function.update_of_ne apart] at refreshing
      exact (others other apart (sound.holder other refreshing)).1
  cleared other attempted at' := by
    rw [calls] at at'
    obtain rfl | apart := eq_or_ne other t
    · rw [Function.update_self] at at'
      exact cleared attempted at'
    · rw [Function.update_of_ne apart] at at'
      have locks : manager.refreshLock = some other := sound.holder other (by rw [at']; rfl)
      have clear := refreshFailureForAuth_eq_none_iff.mp (sound.cleared other attempted at')
      exact refreshFailureForAuth_eq_none_iff.mpr fun failure kept =>
        clear failure ((others other apart locks).2 failure kept)

omit [DecidableEq τ] in
theorem Sound.kept (sound : Sound manager) (failure : CodexAuth × RefreshTokenFailedError)
    (kept : failure ∈ manager.inner.permanentRefreshFailure) :
    failure ∈ manager.failures ∧
      authsEqualForRefresh (some failure.1) manager.inner.auth = true :=
  ⟨sound.recorded failure kept, sound.current failure kept⟩

omit [DecidableEq τ] in
/-- Failures stay those of the cached credentials when the cache is set. -/
theorem Sound.kept_setCachedAuth (sound : Sound manager) (auth : Option CodexAuth)
    (failure : CodexAuth × RefreshTokenFailedError)
    (kept : failure ∈ (manager.inner.setCachedAuth auth).2.permanentRefreshFailure) :
    failure ∈ manager.failures ∧ authsEqualForRefresh (some failure.1) auth = true := by
  obtain ⟨kept, same⟩ := mem_permanentRefreshFailure_setCachedAuth.mp kept
  refine ⟨sound.recorded failure kept, ?_⟩
  have current := sound.current failure kept
  rw [authsEqualForRefresh, beq_iff_eq] at same current ⊢
  exact current.trans same

theorem Sound.put (sound : Sound manager) (plain : position.Plain)
    (holder : position.refreshing = true → manager.refreshLock = some t) :
    Sound (manager.put t position) :=
  sound.move rfl (List.Subset.refl _) sound.kept (fun _ _ same => absurd same (plain.1 _ _)) holder
    (fun _ same => absurd same (plain.2 _)) fun _ _ locks => ⟨locks, fun _ kept => kept⟩

theorem Sound.release (sound : Sound manager) (holds : manager.refreshLock = some t) :
    Sound (manager.release t) := by
  refine sound.move rfl (List.Subset.refl _) sound.kept (by simp) (by simp [Position.refreshing])
    (by simp) fun other apart locks => ?_
  cases holds.symm.trans locks
  exact absurd rfl apart

theorem Sound.acquire (sound : Sound manager) (free : manager.refreshLock = none)
    (plain : position.Plain) : Sound (manager.acquire t position) := by
  refine sound.move rfl (List.Subset.refl _) sound.kept
    (fun _ _ same => absurd same (plain.1 _ _)) (fun _ => rfl)
    (fun _ same => absurd same (plain.2 _)) fun other _ locks => ?_
  cases free.symm.trans locks

theorem Sound.set (sound : Sound manager) {auth : Option CodexAuth} {after : AfterSet}
    (at' : manager.calls t = .setting auth after) : Sound (manager.set t auth after) := by
  have fewer : ∀ failure ∈ (manager.inner.setCachedAuth auth).2.permanentRefreshFailure,
      failure ∈ manager.inner.permanentRefreshFailure :=
    fun failure kept => (mem_permanentRefreshFailure_setCachedAuth.mp kept).1
  cases after with
  | returns =>
      exact sound.move rfl (List.Subset.refl _) (sound.kept_setCachedAuth auth) (by simp)
        (by simp [Position.refreshing]) (by simp) fun _ _ locks => ⟨locks, fewer⟩
  | releases =>
      have holds : manager.refreshLock = some t := sound.holder t (by rw [at']; rfl)
      refine sound.move rfl (List.Subset.refl _) (sound.kept_setCachedAuth auth) (by simp)
        (by simp [Position.refreshing]) (by simp) fun other apart locks => ?_
      cases holds.symm.trans locks
      exact absurd rfl apart
  | asks =>
      have holds : manager.refreshLock = some t := sound.holder t (by rw [at']; rfl)
      exact sound.move rfl (List.Subset.refl _) (sound.kept_setCachedAuth auth) (by simp)
        (fun _ => holds) (by simp) fun _ _ locks => ⟨locks, fewer⟩

/-- A failure is kept while the credentials that it is about are cached. -/
theorem Sound.record (sound : Sound manager) {attempted : CodexAuth}
    {error : RefreshTokenFailedError} (at' : manager.calls t = .failed attempted error) :
    Sound ({ manager with
      inner := manager.inner.recordPermanentRefreshFailureIfUnchanged attempted error }.release
        t) := by
  have holds : manager.refreshLock = some t := sound.holder t (by rw [at']; rfl)
  refine sound.move rfl (List.Subset.refl _) (fun failure kept => ?_) (by simp)
    (by simp [Position.refreshing]) (by simp) fun other apart locks => ?_
  · change failure ∈ (manager.inner.recordPermanentRefreshFailureIfUnchanged attempted
      error).permanentRefreshFailure at kept
    change _ ∧ authsEqualForRefresh _ (manager.inner.recordPermanentRefreshFailureIfUnchanged
      attempted error).auth = true
    rw [CachedAuth.recordPermanentRefreshFailureIfUnchanged] at kept ⊢
    split at kept
    case isTrue same =>
      cases kept
      rw [if_pos same]
      exact ⟨sound.failed t attempted error at', same⟩
    case isFalse differ =>
      rw [if_neg differ]
      exact sound.kept failure kept
  · cases holds.symm.trans locks
    exact absurd rfl apart

/-- A guarded reload goes on to compare, or is skipped. -/
theorem guarded_cases (expected : Option Text) (loaded : Option CodexAuth) (refreshing : Bool) :
    guarded expected loaded refreshing = none ∨
      guarded expected loaded refreshing = some (.guarding loaded refreshing) := by
  cases expected with
  | none => exact .inl rfl
  | some accountId =>
      rw [guarded]
      split
      · exact .inr rfl
      · exact .inl rfl

theorem plain_guarding (loaded : Option CodexAuth) (refreshing : Bool) :
    (Position.guarding loaded refreshing).Plain := ⟨by simp, by simp⟩

theorem plain_setting (loaded : Option CodexAuth) (after : AfterSet) :
    (Position.setting loaded after).Plain := ⟨by simp, by simp⟩

theorem Sound.criticalSection (sound : Sound manager)
    (stepped : manager.criticalSection t = some next) : Sound next := by
  rw [Manager.criticalSection] at stepped
  have holder := sound.holder t
  split at stepped
  case h_1 auth refreshing at' =>
    cases stepped
    refine sound.put (plain_setting auth _) fun holds => holder ?_
    rw [at']
    cases refreshing with
    | false => cases holds
    | true => rfl
  case h_2 auth after at' =>
    cases stepped
    exact sound.set at'
  case h_3 at' | h_4 at' =>
    have holds := holder (by rw [at']; rfl)
    split at stepped
    · cases stepped
      exact sound.release holds
    · cases stepped
      exact sound.put ⟨by simp, by simp⟩ fun _ => holds
  case h_5 auth at' =>
    have holds := holder (by rw [at']; rfl)
    split at stepped
    · cases stepped
      exact sound.release holds
    · rename_i clear
      split at stepped
      · cases stepped
        refine sound.move rfl (List.Subset.refl _) sound.kept (by simp) (fun _ => holds) ?_
          fun _ _ locks => ⟨locks, fun _ kept => kept⟩
        rintro attempted same
        cases same
        exact clear
      · cases stepped
        exact sound.release holds
  case h_6 attempted error at' =>
    cases stepped
    exact sound.record at'
  case h_7 | h_8 | h_9 | h_10 => cases stepped

theorem Sound.step {event : Event τ} (sound : Sound manager)
    (stepped : manager.step event = some next) : Sound next := by
  cases event with
  | reload t loaded =>
      rw [Manager.step] at stepped
      split at stepped
      · cases stepped
        exact sound.put (plain_setting loaded _) (by simp [Position.refreshing])
      · cases stepped
  | guardedReload t expected loaded =>
      rw [Manager.step] at stepped
      split at stepped
      · obtain skipped | compares := guarded_cases expected loaded false
        · rw [skipped] at stepped
          cases stepped
          exact sound
        · rw [compares] at stepped
          cases stepped
          exact sound.put (plain_guarding loaded _) (by simp [Position.refreshing])
      · cases stepped
  | refreshToken t | refreshTokenFromAuthority t =>
      rw [Manager.step] at stepped
      split at stepped
      case isTrue free =>
        cases stepped
        exact sound.acquire free.2 ⟨by simp, by simp⟩
      case isFalse => cases stepped
  | load t loaded =>
      rw [Manager.step] at stepped
      split at stepped
      case h_1 accountId at' =>
        have holds := sound.holder t (by rw [at']; rfl)
        obtain skipped | compares := guarded_cases accountId loaded true
        · rw [skipped] at stepped
          cases stepped
          exact sound.release holds
        · rw [compares] at stepped
          cases stepped
          exact sound.put (plain_guarding loaded _) fun _ => holds
      case h_2 => cases stepped
  | locked t => exact sound.criticalSection stepped
  | send t =>
      rw [Manager.step] at stepped
      split at stepped
      case h_1 attempted at' =>
        have holds := sound.holder t (by rw [at']; rfl)
        cases stepped
        exact sound.move rfl (List.Subset.refl _) sound.kept (by simp) (fun _ => holds) (by simp)
          fun _ _ locks => ⟨locks, fun _ kept => kept⟩
      case h_2 => cases stepped
  | answer t outcome =>
      rw [Manager.step] at stepped
      split at stepped
      case h_1 attempted at' =>
        have holds := sound.holder t (by rw [at']; rfl)
        cases outcome with
        | saved loaded =>
            cases stepped
            exact sound.put (plain_setting loaded _) fun _ => holds
        | transient =>
            cases stepped
            exact sound.release holds
        | permanent error =>
            dsimp only at stepped
            split at stepped
            · cases stepped
            · cases stepped
              refine sound.move rfl (List.subset_cons_self _ _) (fun failure kept => ?_) ?_
                (fun _ => holds) (by simp) fun _ _ locks => ⟨locks, fun _ kept => kept⟩
              · obtain ⟨member, current⟩ := sound.kept failure kept
                exact ⟨List.mem_cons_of_mem _ member, current⟩
              · rintro failed error' same
                cases same
                exact List.mem_cons_self
      case h_2 => cases stepped
  | cancel t =>
      rw [Manager.step] at stepped
      split at stepped
      case h_1 attempted at' =>
        cases stepped
        exact sound.release (sound.holder t (by rw [at']; rfl))
      case h_2 => cases stepped

end Moves

/-! ## Requests -/

section Requests

variable {manager next : Manager τ} {auth : CodexAuth}

/-- What a step does to the cache and to the requests. -/
inductive Effect (manager next : Manager τ) : Prop
  | quiet (inner : next.inner = manager.inner) (requests : next.requests = manager.requests)
  | set (auth : Option CodexAuth) (inner : next.inner = (manager.inner.setCachedAuth auth).2)
      (requests : next.requests = manager.requests)
  | record (attempted : CodexAuth) (error : RefreshTokenFailedError)
      (inner : next.inner =
        manager.inner.recordPermanentRefreshFailureIfUnchanged attempted error)
      (requests : next.requests = manager.requests)
  | send (t : τ) (attempted : CodexAuth) (at' : manager.calls t = .cleared attempted)
      (inner : next.inner = manager.inner)
      (requests : next.requests = attempted :: manager.requests)

theorem effect_of_criticalSection {t : τ} (stepped : manager.criticalSection t = some next) :
    Effect manager next := by
  rw [criticalSection] at stepped
  split at stepped
  case h_1 => cases stepped; exact .quiet rfl rfl
  case h_2 auth after _ => cases stepped; cases after <;> exact .set auth rfl rfl
  case h_3 | h_4 => split at stepped <;> cases stepped <;> exact .quiet rfl rfl
  case h_5 =>
    split at stepped
    · cases stepped
      exact .quiet rfl rfl
    · split at stepped <;> cases stepped <;> exact .quiet rfl rfl
  case h_6 attempted error _ => cases stepped; exact .record attempted error rfl rfl
  case h_7 | h_8 | h_9 | h_10 => cases stepped

theorem effect_of_step {event : Event τ} (stepped : manager.step event = some next) :
    Effect manager next := by
  cases event with
  | locked t => exact effect_of_criticalSection stepped
  | reload t loaded | refreshToken t | refreshTokenFromAuthority t =>
      rw [step] at stepped
      split at stepped <;> cases stepped
      exact .quiet rfl rfl
  | guardedReload t expected loaded | load t loaded =>
      rw [step] at stepped
      split at stepped
      · split at stepped <;> cases stepped <;> exact .quiet rfl rfl
      · cases stepped
  | send t =>
      rw [step] at stepped
      split at stepped
      case h_1 attempted at' => cases stepped; exact .send t attempted at' rfl rfl
      case h_2 => cases stepped
  | answer t outcome =>
      rw [step] at stepped
      split at stepped
      · cases outcome with
        | saved | transient => cases stepped; exact .quiet rfl rfl
        | permanent =>
            dsimp only at stepped
            split at stepped <;> cases stepped
            exact .quiet rfl rfl
      · cases stepped
  | cancel t =>
      rw [step] at stepped
      split at stepped <;> cases stepped
      exact .quiet rfl rfl

/-- A failure is kept for the credentials, if they are the cached ones. -/
def Kept (manager : Manager τ) (auth : CodexAuth) : Prop :=
  authsEqualForRefresh (some auth) manager.inner.auth = true →
    ∃ failure ∈ manager.inner.permanentRefreshFailure,
      authsEqualForRefresh (some auth) (some failure.1) = true

/-- While the credentials are cached and a failure is kept for them, one is kept behind the next
step, and the step does not send a request for them. -/
theorem Kept.step {event : Event τ} (sound : Sound manager) (kept : manager.Kept auth)
    (cached : authsEqualForRefresh (some auth) manager.inner.auth = true)
    (stepped : manager.step event = some next) :
    next.Kept auth ∧ ∃ sent, next.requests = sent ++ manager.requests ∧
      ∀ attempted ∈ sent, authsEqualForRefresh (some attempted) (some auth) = false := by
  obtain ⟨failure, member, own⟩ := kept cached
  cases effect_of_step stepped with
  | quiet inner requests =>
      refine ⟨?_, [], requests, by simp⟩
      rw [Kept, inner]
      exact kept
  | set loaded inner requests =>
      refine ⟨fun same => ⟨failure, ?_, own⟩, [], requests, by simp⟩
      rw [inner] at same ⊢
      refine mem_permanentRefreshFailure_setCachedAuth.mpr ⟨member, ?_⟩
      rw [authsEqualForRefresh, beq_iff_eq] at cached ⊢
      exact cached.symm.trans (beq_iff_eq.mp same)
  | record attempted error inner requests =>
      refine ⟨fun same => ?_, [], requests, by simp⟩
      rw [inner] at same ⊢
      rw [CachedAuth.recordPermanentRefreshFailureIfUnchanged] at same ⊢
      split
      case isTrue unchanged =>
        refine ⟨(attempted, error), rfl, ?_⟩
        rw [authsEqualForRefresh, beq_iff_eq] at cached unchanged ⊢
        exact cached.trans unchanged.symm
      case isFalse => exact ⟨failure, member, own⟩
  | send t attempted at' inner requests =>
      refine ⟨?_, [attempted], requests, ?_⟩
      · rw [Kept, inner]
        exact kept
      · intro sent isSent
        obtain rfl := List.mem_singleton.mp isSent
        by_contra same
        rw [Bool.not_eq_false, authsEqualForRefresh, beq_iff_eq, Option.some.injEq] at same
        subst same
        have clear := refreshFailureForAuth_eq_none_iff.mp (sound.cleared t sent at')
        rw [clear failure member] at own
        cases own

/-- A failure is kept for the credentials while they are cached, and none of the requests that have
been sent since is for them. -/
structure Quiet (auth : CodexAuth) (requests : List CodexAuth) (manager : Manager τ) : Prop where
  sound : Sound manager
  kept : manager.Kept auth
  sent : ∃ sent, manager.requests = sent ++ requests ∧
    ∀ attempted ∈ sent, authsEqualForRefresh (some attempted) (some auth) = false

theorem Quiet.step {requests : List CodexAuth} {event : Event τ}
    (quiet : Quiet auth requests manager)
    (cached : authsEqualForRefresh (some auth) manager.inner.auth = true)
    (stepped : manager.step event = some next) : Quiet auth requests next := by
  obtain ⟨sent, before, others⟩ := quiet.sent
  obtain ⟨kept, sent', after, others'⟩ := quiet.kept.step quiet.sound cached stepped
  refine ⟨quiet.sound.step stepped, kept, sent' ++ sent, ?_, ?_⟩
  · rw [after, before, List.append_assoc]
  · exact fun attempted isSent =>
      (List.mem_append.mp isSent).elim (others' attempted) (others attempted)

/-- A manager that has just been made. -/
def new (auth : Option CodexAuth) : Manager τ where
  inner := ⟨auth, none⟩
  refreshLock := none
  calls := fun _ => .idle
  requests := []
  failures := []

omit [DecidableEq τ] in
theorem sound_new (auth : Option CodexAuth) : Sound (new auth : Manager τ) where
  current _ kept := by cases kept
  recorded _ kept := by cases kept
  failed _ _ _ at' := by cases at'
  holder _ refreshing := by cases refreshing
  cleared _ _ at' := by cases at'

/-- Whatever the calls of a manager do, the failure that is kept is one of the cached credentials;
an error is answered from the cache only for credentials whose refresh has failed for good; and
nothing is asked for credentials with a kept failure while they stay cached. -/
theorem keptFailure_of_run {auth : Option CodexAuth} {events : List (Event τ)}
    (ran : run step (new auth) events = some manager) :
    (∀ failure ∈ manager.inner.permanentRefreshFailure,
      authsEqualForRefresh (some failure.1) manager.inner.auth = true) ∧
    (∀ auth error, manager.inner.refreshFailureForAuth auth = some error →
      ∃ failure ∈ manager.failures, failure.2 = error ∧
        authsEqualForRefresh (some auth) (some failure.1) = true) ∧
    ∀ failure ∈ manager.inner.permanentRefreshFailure, ∀ later final,
      run step manager later = some final →
      Along step (fun manager _ => authsEqualForRefresh (some failure.1) manager.inner.auth = true)
        manager later →
      ∃ sent, final.requests = sent ++ manager.requests ∧
        ∀ attempted ∈ sent, authsEqualForRefresh (some attempted) (some failure.1) = false := by
  have sound : Sound manager :=
    preserved_of_run (fun _ _ _ sound stepped => sound.step stepped) (sound_new auth) ran
  refine ⟨sound.current, fun auth error answered => ?_, fun failure member later final ran' => ?_⟩
  · obtain ⟨failure, member, rfl⟩ := Option.map_eq_some_iff.mp answered
    obtain ⟨kept, own⟩ := Option.filter_eq_some_iff.mp member
    exact ⟨failure, sound.recorded failure kept, rfl, own⟩
  · intro cached
    have starts : Quiet failure.1 manager.requests manager :=
      ⟨sound, fun _ => ⟨failure, member, beq_self_eq_true _⟩, [], rfl, by simp⟩
    have ends : Quiet failure.1 manager.requests final :=
      invariant_of_run (fun _ _ _ quiet cached stepped => Quiet.step quiet cached stepped) starts
        cached ran'
    exact ends.sent

/-- A ChatGPT login. -/
def loggedIn : CodexAuth :=
  .Chatgpt
    { authMode := some .Chatgpt
      openaiApiKey := none
      tokens := some .default
      lastRefresh := none }

/-- A refresh fails for good. -/
def refusedOnce : List (Event Bool) :=
  [.refreshTokenFromAuthority true, .locked true, .locked true, .send true,
    .answer true (.permanent (classifyRefreshTokenFailure none)), .locked true]

/-- Another one is tried, and the store is loaded again. -/
def triedAgain : List (Event Bool) :=
  [.refreshTokenFromAuthority false, .locked false, .reload true (some loggedIn), .locked true,
    .locked false]

theorem keptFailure_refusedOnce :
    ∃ manager : Manager Bool, run step (new (some loggedIn)) refusedOnce = some manager ∧
      manager.inner.permanentRefreshFailure = some (loggedIn, classifyRefreshTokenFailure none) ∧
      ∃ final, run step manager triedAgain = some final ∧
        ∃ sent, final.requests = sent ++ [loggedIn] ∧
          ∀ attempted ∈ sent, authsEqualForRefresh (some attempted) (some loggedIn) = false := by
  obtain ⟨-, -, quiet⟩ := @keptFailure_of_run Bool _ _ (some loggedIn) refusedOnce rfl
  refine ⟨_, rfl, rfl, _, rfl, quiet (loggedIn, classifyRefreshTokenFailure none) rfl triedAgain _
    rfl ?_⟩
  decide

end Requests

end Manager

end CodexPilot.Login
