import CodexPilot.Login.Accounts
import Mathlib.Data.Fintype.Basic

/-!
# Spent refresh tokens

The refresh lock is a lock of one process, and the reload that notices the refresh of another
process is not repeated in front of a request.  No refresh token is spent twice as long as every
request is sent with the token that the store holds, while no other refresh is between its request
and its save, and every success can be saved.
-/

namespace CodexPilot.Login

open RustStd Transitions

variable {ι : Type*}

/-- The refresh has sent its request and not yet saved the answer. -/
def Process.inFlight (process : Process) : Bool :=
  match process.refresh with
  | some ⟨_, .requested _ _⟩ | some ⟨_, .answered _ _ _⟩ | some ⟨_, .loaded _ _ _⟩ => true
  | _ => false

/-- The refresh token that is on its way to the authority. -/
def Process.onItsWay (process : Process) : Option Text :=
  match process.refresh with
  | some ⟨_, .requested _ token⟩ => some token
  | _ => none

/-- The success that has not been saved yet. -/
def Process.unsaved (process : Process) : Option RefreshResponse :=
  match process.refresh with
  | some ⟨_, .answered _ _ (.success response)⟩ | some ⟨_, .loaded _ response _⟩ => some response
  | _ => none

/-- The refresh token of the record that the store holds, where the record can be read. -/
def storedToken (decode : Decoder) (stored : Option AuthDotJson) : Option Text :=
  match load decode stored with
  | .ok (some record) => record.tokens.map TokenData.refreshToken
  | .ok none | .error _ => none

/-- The refresh token that a request of the process is sent with: that of the cached record, unless
the refresh of this record has failed for good. -/
def Process.cachedToken (process : Process) : Option Text :=
  match process.inner.auth with
  | some (.Chatgpt record) =>
      if process.refreshFailureForAuth (.Chatgpt record) = none then
        record.tokens.map TokenData.refreshToken
      else none
  | some (.ApiKey _) | some (.ChatgptAuthTokens _) | none => none

/-- Every success of the authority replaces the refresh token by one that has not been exchanged,
and so does every login. -/
def Replaces (world : World ι) : Event ι → Prop
  | .receive p (.success response) => ∀ token ∈ (world.processes p).onItsWay,
      ∃ fresh ∈ response.refreshToken, fresh ∉ token :: world.exchanged
  | .login _ _ _ refreshToken _ => refreshToken ∉ world.exchanged
  | _ => True

/-- A request is sent with the refresh token that the store holds, while no refresh of another
process is between its request and its save; and the id token of a success can be parsed. -/
def Current (decode : Decoder) (world : World ι) : Event ι → Prop
  | .request p => ∀ token ∈ (world.processes p).cachedToken,
      storedToken decode world.stored = some token ∧ ∀ q, (world.processes q).inFlight = false
  | .save p _ => ∀ response ∈ (world.processes p).unsaved, ∀ idToken ∈ response.idToken,
      (parseChatgptJwtClaims decode idToken).isSome = true
  | _ => True

instance decidableReplaces (world : World ι) : (event : Event ι) → Decidable (Replaces world event)
  | .receive p (.success response) =>
      inferInstanceAs (Decidable (∀ token ∈ (world.processes p).onItsWay,
        ∃ fresh ∈ response.refreshToken, fresh ∉ token :: world.exchanged))
  | .login _ _ _ refreshToken _ => inferInstanceAs (Decidable (refreshToken ∉ world.exchanged))
  | .receive _ (.unauthorized _) | .receive _ (.failed _) | .loginWithApiKey _ | .delete
  | .reload _ | .refreshToken _ | .refreshTokenFromAuthority _ | .unauthorizedRecovery _
  | .next _ _ | .enter _ _ | .request _ | .arrive _ | .save _ _ | .finish _ => isTrue trivial

instance decidableCurrent [Fintype ι] (decode : Decoder) (world : World ι) :
    (event : Event ι) → Decidable (Current decode world event)
  | .request p => inferInstanceAs (Decidable (∀ token ∈ (world.processes p).cachedToken,
      storedToken decode world.stored = some token ∧ ∀ q, (world.processes q).inFlight = false))
  | .save p _ => inferInstanceAs (Decidable (∀ response ∈ (world.processes p).unsaved,
      ∀ idToken ∈ response.idToken, (parseChatgptJwtClaims decode idToken).isSome = true))
  | .login .. | .receive _ _ | .loginWithApiKey _ | .delete | .reload _ | .refreshToken _
  | .refreshTokenFromAuthority _ | .unauthorizedRecovery _ | .next _ _ | .enter _ _ | .arrive _
  | .finish _ => isTrue trivial

/-- No process has sent the authority a refresh token that has been exchanged. -/
def SpentOnce (world : World ι) : Prop :=
  ∀ p, ∀ token ∈ (world.processes p).onItsWay, token ∉ world.exchanged

/-! ## The invariant -/

/-- One refresh is in flight at most; a stored token that has been exchanged waits for a success to
be saved, and no success that is not saved brings one that has been exchanged. -/
structure Fresh (decode : Decoder) (world : World ι) : Prop where
  alone : ∀ p q, (world.processes p).inFlight = true → (world.processes q).inFlight = true → p = q
  spentOnce : SpentOnce world
  stored : ∀ token ∈ storedToken decode world.stored, token ∈ world.exchanged →
    ∃ p, (world.processes p).unsaved.isSome = true
  unsaved : ∀ p, ∀ response ∈ (world.processes p).unsaved,
    ∃ fresh ∈ response.refreshToken, fresh ∉ world.exchanged

section Flights

variable {process process' : Process} {response : RefreshResponse} {token : Text}

theorem Process.inFlight_of_unsaved (unsaved : process.unsaved = some response) :
    process.inFlight = true := by
  rw [Process.unsaved] at unsaved
  split at unsaved
  case h_1 answered => simp [inFlight, answered]
  case h_2 loaded => simp [inFlight, loaded]
  case h_3 => cases unsaved

theorem Process.inFlight_of_onItsWay (sent : process.onItsWay = some token) :
    process.inFlight = true := by
  rw [onItsWay] at sent
  split at sent
  case h_1 requested => simp [inFlight, requested]
  case h_2 => cases sent

/-- What two processes have in flight is the same. -/
structure Process.SameFlight (process process' : Process) : Prop where
  inFlight : process'.inFlight = process.inFlight
  onItsWay : process'.onItsWay = process.onItsWay
  unsaved : process'.unsaved = process.unsaved

theorem Process.SameFlight.of_refresh_eq (same : process'.refresh = process.refresh) :
    process.SameFlight process' where
  inFlight := by rw [Process.inFlight, Process.inFlight, same]
  onItsWay := by rw [Process.onItsWay, Process.onItsWay, same]
  unsaved := by rw [Process.unsaved, Process.unsaved, same]

/-- Nothing is in flight without a refresh, in front of a request, or behind the save. -/
def Process.Grounded (process : Process) : Prop :=
  process.inFlight = false ∧ process.onItsWay = none ∧ process.unsaved = none

theorem Process.grounded_of_none (none : process.refresh = none) : process.Grounded := by
  simp [Grounded, inFlight, onItsWay, unsaved, none]

theorem Process.grounded_of_entered {recovery : Option ℕ}
    (entered : process.refresh = some ⟨recovery, .entered⟩) : process.Grounded := by
  simp [Grounded, inFlight, onItsWay, unsaved, entered]

theorem Process.grounded_of_saved {recovery : Option ℕ}
    (saved : process.refresh = some ⟨recovery, .saved⟩) : process.Grounded := by
  simp [Grounded, inFlight, onItsWay, unsaved, saved]

theorem Process.Grounded.sameFlight (before : process.Grounded) (after : process'.Grounded) :
    process.SameFlight process' where
  inFlight := after.1.trans before.1.symm
  onItsWay := after.2.1.trans before.2.1.symm
  unsaved := after.2.2.trans before.2.2.symm

end Flights

section Steps

variable {decode : Decoder} {world next : World ι} {event : Event ι} {p : ι} {process : Process}

/-- When no process but one is in flight, only that one counts. -/
theorem Fresh.of_alone (others : ∀ q, q ≠ p → (world.processes q).inFlight = false)
    (spentOnce : ∀ token ∈ (world.processes p).onItsWay, token ∉ world.exchanged)
    (stored : ∀ token ∈ storedToken decode world.stored, token ∈ world.exchanged →
      (world.processes p).unsaved.isSome = true)
    (unsaved : ∀ response ∈ (world.processes p).unsaved,
      ∃ fresh ∈ response.refreshToken, fresh ∉ world.exchanged) : Fresh decode world := by
  have only (q : ι) (flies : (world.processes q).inFlight = true) : q = p := by
    by_contra apart
    cases flies.symm.trans (others q apart)
  refine ⟨fun q r first second => (only q first).trans (only r second).symm, ?_, ?_, ?_⟩
  · intro q token sent
    obtain rfl := only q (Process.inFlight_of_onItsWay sent)
    exact spentOnce token sent
  · exact fun token holds member => ⟨p, stored token holds member⟩
  · intro q response awaited
    obtain rfl := only q (Process.inFlight_of_unsaved awaited)
    exact unsaved response awaited

theorem Fresh.others (fresh : Fresh decode world) (flies : (world.processes p).inFlight = true)
    (q : ι) (apart : q ≠ p) : (world.processes q).inFlight = false := by
  cases other : (world.processes q).inFlight with
  | false => rfl
  | true => exact absurd (fresh.alone q p other flies) apart

/-- While a refresh is in flight, a stored token that has been exchanged waits for its success. -/
theorem Fresh.unsaved_of_stored (fresh : Fresh decode world)
    (flies : (world.processes p).inFlight = true) {token : Text}
    (holds : storedToken decode world.stored = some token) (member : token ∈ world.exchanged) :
    (world.processes p).unsaved.isSome = true := by
  obtain ⟨q, awaited⟩ := fresh.stored token holds member
  obtain ⟨response, unsaved⟩ := Option.isSome_iff_exists.mp awaited
  rwa [fresh.alone q p (Process.inFlight_of_unsaved unsaved) flies] at awaited

theorem Fresh.store (fresh : Fresh decode world) {record : Option AuthDotJson}
    (unspent : ∀ token ∈ storedToken decode record, token ∉ world.exchanged) :
    Fresh decode (world.store record) where
  alone := fresh.alone
  spentOnce := fresh.spentOnce
  stored := fun token holds member => absurd member (unspent token holds)
  unsaved := fresh.unsaved

theorem refreshToken_of_storedToken {record : AuthDotJson} {token : Text}
    (holds : storedToken decode (some record) = some token) :
    ∃ tokens ∈ record.tokens, tokens.refreshToken = token := by
  rw [storedToken] at holds
  split at holds
  case h_1 loaded loads =>
    obtain ⟨stored, same, read⟩ := load_eq_ok_some.mp loads
    cases same
    rw [refreshToken_of_reread read] at holds
    exact Option.map_eq_some_iff.mp holds
  case h_2 | h_3 => cases holds

variable [DecidableEq ι]

theorem Fresh.set (fresh : Fresh decode world) (same : (world.processes p).SameFlight process) :
    Fresh decode (world.set p process) := by
  have view (q : ι) : (world.processes q).SameFlight ((world.set p process).processes q) := by
    obtain rfl | apart := eq_or_ne q p
    · simpa using same
    · rw [World.processes_set_of_ne world process apart]
      exact ⟨rfl, rfl, rfl⟩
  refine ⟨fun q r first second => ?_, fun q token sent => ?_, fun token holds member => ?_,
    fun q response awaited => ?_⟩
  · rw [(view q).inFlight] at first
    rw [(view r).inFlight] at second
    exact fresh.alone q r first second
  · rw [(view q).onItsWay] at sent
    exact fresh.spentOnce q token sent
  · obtain ⟨q, awaited⟩ := fresh.stored token holds member
    exact ⟨q, by rwa [(view q).unsaved]⟩
  · rw [(view q).unsaved] at awaited
    exact fresh.unsaved q response awaited

/-- The other refreshes stay on the ground when a refresh in flight is replaced. -/
theorem others_set (process : Process)
    (others : ∀ q, q ≠ p → (world.processes q).inFlight = false) (q : ι)
    (apart : q ≠ p) : ((world.set p process).processes q).inFlight = false := by
  rw [World.processes_set_of_ne world process apart]
  exact others q apart

/-- A request takes off with a token that has not been exchanged. -/
theorem Fresh.request (fresh : Fresh decode world) {recovery : Option ℕ}
    (entered : (world.processes p).refresh = some ⟨recovery, .entered⟩)
    (current : Current decode world (.request p)) :
    Fresh decode (world.set p ((world.processes p).request recovery)) := by
  have grounded := Process.grounded_of_entered entered
  obtain ⟨none | ⟨record, tokens, cached, noFailure, present, requested⟩, -⟩ :=
    (world.processes p).request_spec recovery
  · exact fresh.set (grounded.sameFlight (Process.grounded_of_none none))
  · have sends : (world.processes p).cachedToken = some tokens.refreshToken := by
      simp [Process.cachedToken, cached, noFailure, present]
    obtain ⟨held, alone⟩ := current tokens.refreshToken sends
    have unspent : ∀ token ∈ storedToken decode world.stored, token ∉ world.exchanged := by
      intro token holds member
      obtain ⟨q, awaited⟩ := fresh.stored token holds member
      obtain ⟨response, unsaved⟩ := Option.isSome_iff_exists.mp awaited
      cases (Process.inFlight_of_unsaved unsaved).symm.trans (alone q)
    refine of_alone (p := p) (others_set _ fun q _ => alone q) ?_
      (fun token holds member => absurd member (unspent token holds)) ?_
    · intro token sent
      rw [World.processes_set_self, Process.onItsWay, requested] at sent
      cases sent
      exact unspent _ held
    · intro response awaited
      simp [Process.unsaved, requested] at awaited

/-- The authority exchanges a token for one that has not been exchanged. -/
theorem Fresh.receive (fresh : Fresh decode world) {recovery : Option ℕ} {attempted : CodexAuth}
    {token : Text} {answer : RefreshAnswer}
    (requested : (world.processes p).refresh = some ⟨recovery, .requested attempted token⟩)
    (replaces : Replaces world (.receive p answer)) :
    Fresh decode { world.set p ((world.processes p).proceed recovery
        (.answered attempted token answer)) with
      exchanged := World.exchangedBehind world.exchanged token answer } := by
  have flies : (world.processes p).inFlight = true := by simp [Process.inFlight, requested]
  have others := others_set ((world.processes p).proceed recovery
    (.answered attempted token answer)) (fresh.others flies)
  have awaits : (world.processes p).unsaved = none := by simp [Process.unsaved, requested]
  refine of_alone (p := p) others ?_ ?_ ?_
  · intro token sent
    simp [World.set, Process.onItsWay] at sent
  · intro held holds member
    cases answer with
    | success response => simp [World.set, Process.unsaved]
    | unauthorized code | failed message =>
        have awaited := fresh.unsaved_of_stored flies holds member
        simp [awaits] at awaited
  · intro response awaited
    cases answer with
    | success response' =>
        simp only [World.set, Function.update_self, Process.unsaved, Process.refresh_proceed,
          Option.mem_def, Option.some.injEq] at awaited
        subst awaited
        exact replaces token (by simp [Process.onItsWay, requested])
    | unauthorized code | failed message => simp [World.set, Process.unsaved] at awaited

/-- A success stays in flight when there is a record that it can be merged into. -/
theorem Fresh.arrive (fresh : Fresh decode world) {recovery : Option ℕ} {attempted : CodexAuth}
    {token : Text} {answer : RefreshAnswer}
    (answered : (world.processes p).refresh = some ⟨recovery, .answered attempted token answer⟩) :
    Fresh decode (world.set p
      ((world.processes p).arrive decode world.stored recovery attempted token answer)) := by
  have flies : (world.processes p).inFlight = true := by simp [Process.inFlight, answered]
  obtain ⟨⟨none, nothing⟩ | ⟨response, loaded, rfl, loads, carries⟩, -⟩ :=
    (world.processes p).arrive_spec decode world.stored recovery attempted token answer
  · obtain ⟨-, sends, awaits⟩ := Process.grounded_of_none none
    refine of_alone (p := p) (others_set _ (fresh.others flies)) ?_ ?_ ?_
    · intro token sent
      simp [sends] at sent
    · intro held holds member
      have awaited := fresh.unsaved_of_stored flies holds member
      cases answer with
      | success response =>
          change storedToken decode world.stored = some held at holds
          rw [storedToken] at holds
          split at holds
          case h_1 record loads => exact absurd loads (nothing response rfl record)
          case h_2 | h_3 => cases holds
      | unauthorized code | failed message => simp [Process.unsaved, answered] at awaited
    · intro response awaited
      simp [awaits] at awaited
  · have awaits : (world.processes p).unsaved = some response := by
      simp [Process.unsaved, answered]
    refine of_alone (p := p) (others_set _ (fresh.others flies)) ?_ ?_ ?_
    · intro token sent
      simp [Process.onItsWay, carries] at sent
    · intro held holds member
      simp [Process.unsaved, carries]
    · intro response' awaited
      simp only [World.processes_set_self, Process.unsaved, carries, Option.mem_def,
        Option.some.injEq] at awaited
      subst awaited
      exact fresh.unsaved p response awaits

/-- The save stores a token that has not been exchanged. -/
theorem Fresh.save (fresh : Fresh decode world) {recovery : Option ℕ} {token : Text}
    {response : RefreshResponse} {record merged : AuthDotJson} {now : DateTime}
    (loaded : (world.processes p).refresh = some ⟨recovery, .loaded token response record⟩)
    (merges : record.merge decode response now = some merged) :
    Fresh decode ((world.store (some merged)).set p
      ((world.processes p).proceed recovery .saved)) := by
  have flies : (world.processes p).inFlight = true := by simp [Process.inFlight, loaded]
  obtain ⟨-, sends, awaits⟩ :=
    Process.grounded_of_saved ((world.processes p).refresh_proceed recovery .saved)
  obtain ⟨new, brings, unspent⟩ := fresh.unsaved p response (by simp [Process.unsaved, loaded])
  have holdsNew : ∀ tokens ∈ merged.tokens, tokens.refreshToken = new := by
    intro tokens present
    rw [AuthDotJson.merge, Option.mem_def.mp brings] at merges
    dsimp only at merges
    split at merges
    case h_1 =>
      cases merges
      cases present
      rfl
    case h_2 =>
      obtain ⟨info, -, rfl⟩ := Option.map_eq_some_iff.mp merges
      cases present
      rfl
  have others : ∀ q, q ≠ p → ((world.store (some merged)).processes q).inFlight = false :=
    fresh.others flies
  refine of_alone (p := p) (others_set _ others) ?_ ?_ ?_
  · intro token sent
    simp [sends] at sent
  · intro held holds member
    obtain ⟨tokens, present, same⟩ := refreshToken_of_storedToken holds
    rw [← same, holdsNew tokens present] at member
    exact absurd member unspent
  · intro response awaited
    simp [awaits] at awaited

theorem storedToken_eq_none {record : AuthDotJson} (absent : record.tokens = none) :
    storedToken decode (some record) = none := by
  cases holds : storedToken decode (some record) with
  | none => rfl
  | some token =>
      obtain ⟨tokens, present, -⟩ := refreshToken_of_storedToken holds
      cases absent.symm.trans present

theorem Fresh.step (fresh : Fresh decode world) (replaces : Replaces world event)
    (current : Current decode world event) (stepped : world.step decode event = some next) :
    Fresh decode next := by
  cases World.stepped_of_step stepped with
  | login persists =>
      obtain ⟨info, -, rfl⟩ := Option.map_eq_some_iff.mp persists
      refine fresh.store fun token holds => ?_
      obtain ⟨tokens, present, rfl⟩ := refreshToken_of_storedToken holds
      cases present
      exact replaces
  | loginWithApiKey apiKey =>
      refine fresh.store fun token holds => ?_
      cases (storedToken_eq_none rfl).symm.trans holds
  | delete => exact fresh.store fun _ holds => nomatch holds
  | reload | unauthorizedRecovery => exact fresh.set (.of_refresh_eq rfl)
  | @refreshToken p idle =>
      obtain ⟨same | entered, -⟩ := (world.processes p).refreshToken_spec decode world.stored
      · exact fresh.set (.of_refresh_eq same)
      · exact fresh.set ((Process.grounded_of_none idle).sameFlight
          (Process.grounded_of_entered entered))
  | refreshTokenFromAuthority idle | enter idle =>
      exact fresh.set ((Process.grounded_of_none idle).sameFlight
        (Process.grounded_of_entered (Process.refresh_enter ..)))
  | next => exact fresh.set (.of_refresh_eq (Process.refresh_next ..))
  | request entered => exact fresh.request entered current
  | receive requested => exact fresh.receive requested replaces
  | arrive answered => exact fresh.arrive answered
  | save loaded merges => exact fresh.save loaded merges
  | @saveFails p now recovery token response record loaded fails =>
      have parses := current response (by simp [Process.unsaved, loaded])
      rw [AuthDotJson.merge] at fails
      dsimp only at fails
      split at fails
      case h_1 => cases fails
      case h_2 idToken carries =>
        have parsed := parses idToken carries
        rw [Option.map_eq_none_iff.mp fails] at parsed
        cases parsed
  | finish saved =>
      exact fresh.set ((Process.grounded_of_saved saved).sameFlight
        (Process.grounded_of_none (Process.refresh_returns ..)))

end Steps

section Runs

variable [DecidableEq ι] {decode : Decoder} {start : World ι} {events : List (Event ι)}

/-- In a run whose requests are sent with the stored token while no other refresh is in flight, and
whose successes can be saved, no request ever carries a token that has been exchanged. -/
theorem spentOnce_of_run (idle : ∀ p, (start.processes p).refresh = none)
    (unspent : ∀ token ∈ storedToken decode start.stored, token ∉ start.exchanged)
    (replaces : Along (World.step decode) Replaces start events)
    (current : Along (World.step decode) (Current decode) start events)
    (before : List (Event ι)) (isPrefix : before <+: events) (world : World ι)
    (ran : run (World.step decode) start before = some world) : SpentOnce world := by
  obtain ⟨after, rfl⟩ := isPrefix
  have kept : ∀ (world : World ι) event next, Fresh decode world →
      Replaces world event ∧ Current decode world event →
      World.step decode world event = some next → Fresh decode next :=
    fun world event next fresh met stepped => fresh.step met.1 met.2 stepped
  have grounded (p : ι) := Process.grounded_of_none (idle p)
  have fresh : Fresh decode start := by
    refine ⟨fun p q flies _ => ?_, fun p token sent => ?_,
      fun token holds member => absurd member (unspent token holds), fun p response awaited => ?_⟩
    · cases flies.symm.trans (grounded p).1
    · cases sent.symm.trans (grounded p).2.1
    · cases awaited.symm.trans (grounded p).2.2
  have early := (along_append ran (along_and replaces current)).1
  have reached : Fresh decode world := invariant_of_run kept fresh early ran
  exact reached.spentOnce

/-- Two processes on one record. -/
def twoOnA : World Bool :=
  { loggedInToA with processes := fun _ => loggedInToA.processes () }

/-- A process exchanges the token that it sends. -/
def exchanges (p : Bool) (fresh : Text) : List (Event Bool) :=
  [.receive p (.success ⟨some idTokenA, some ['a', '2'], some fresh⟩), .arrive p, .save p 2,
    .finish p]

/-- A recovery starts when the refresh of the other process is done. -/
def recoveredBehind : List (Event Bool) :=
  [.refreshToken true, .request true] ++ exchanges true ['a', 's'] ++
    [.unauthorizedRecovery false, .next false 0, .next false 0, .enter false 0, .request false] ++
    exchanges false ['a', 't']

theorem spentOnce_recoveredBehind :
    ∃ world, run (World.step decodeAccount) twoOnA recoveredBehind = some world ∧
      world.exchanged = [['a', 's'], ['a', 'r']] ∧ SpentOnce world := by
  have unspent : ∀ token ∈ storedToken decodeAccount twoOnA.stored, token ∉ twoOnA.exchanged := by
    decide
  have replaces : Along (World.step decodeAccount) Replaces twoOnA recoveredBehind := by decide
  have current : Along (World.step decodeAccount) (Current decodeAccount) twoOnA
      recoveredBehind := by decide
  exact ⟨_, rfl, rfl, spentOnce_of_run (fun _ => rfl) unspent replaces current recoveredBehind
    (List.prefix_refl _) _ rfl⟩

/-- The recovery reloads first; its refresh follows when the other process has refreshed. -/
def recoveredAcross : List (Event Bool) :=
  [.unauthorizedRecovery false, .next false 0, .refreshToken true, .request true] ++
    exchanges true ['a', 's'] ++ [.next false 0, .enter false 0, .request false]

/-- Both processes have done their guarded reload when the first one sends its request. -/
def refreshedTogether : List (Event Bool) :=
  [.refreshToken true, .refreshToken false, .request true] ++ exchanges true ['a', 's'] ++
    [.request false]

/-- Behind the events the first process sends a token that has been exchanged. -/
def SendsExchanged (events : List (Event Bool)) : Prop :=
  Along (World.step decodeAccount) Replaces twoOnA events ∧
    ∃ world, run (World.step decodeAccount) twoOnA events = some world ∧
      (world.processes false).onItsWay = some ['a', 'r'] ∧ ['a', 'r'] ∈ world.exchanged ∧
      ¬SpentOnce world

theorem not_spentOnce_recoveredAcross :
    SendsExchanged recoveredAcross ∧ SendsExchanged refreshedTogether := by
  constructor
  all_goals
    refine ⟨by decide, _, rfl, by decide, by decide, fun once => ?_⟩
    exact once false ['a', 'r'] (by decide) (by decide)

end Runs

end CodexPilot.Login
