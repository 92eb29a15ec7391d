import CodexPilot.NetworkProxy.DomainLists

/-!
# Decisions on hosts

Calls that allow or deny a domain take effect one after the other, each in the section that installs
its configuration or finds that there is nothing to do.  The last of them decides on which list the
host is, and a host on the denylist is blocked before anything else is looked at.
-/

namespace CodexPilot.NetworkProxy

open RustStd Transitions

/-! ## Whether a host is blocked -/

/-- Why a host is blocked. -/
inductive HostBlockReason where
  | denied
  | notAllowed
  | notAllowedLocal
  deriving DecidableEq

/-- The decision on a host. -/
inductive HostBlockDecision where
  | allowed
  | blocked (reason : HostBlockReason)

/-- What the proxy asks about addresses. -/
structure Addresses where
  /-- `IpAddr::is_loopback`, where the text is an address. -/
  isLoopback : Text → Option Bool
  /-- `is_non_public_ip`, where the text is an address. -/
  isNonPublicIp : Text → Option Bool
  /-- `host_resolves_to_non_public_ip`. -/
  hostResolvesToNonPublicIp : Text → Fin (2 ^ 16) → Bool

/-- An address without its scope. -/
def withoutScope (host : Text) : Text := host.takeWhile (· != '%')

/-- `is_loopback_host`. -/
def isLoopbackHost (addresses : Addresses) (host : Text) : Bool :=
  let host := withoutScope host
  if host = "localhost".toList then true else (addresses.isLoopback host).getD false

def isExplicitLocalAllowlisted (allowedDomains : List Text) (host : Text) : Bool :=
  allowedDomains.any fun pattern =>
    let pattern := pattern.trim
    if pattern = ['*'] || pattern.startsWith subMarker || pattern.startsWith anyMarker then false
    else if pattern.contains '*' || pattern.contains '?' then false
    else normalizeHost pattern == host

section HostBlocked

variable {Mitm : Type} (crates : Crates) (addresses : Addresses)

/-- The check for addresses of the local network; no result when it lets the host pass. -/
def localDecision (shared : ConfigState Mitm) (allowedDomains : List Text) (host : Text)
    (port : Fin (2 ^ 16)) : Option HostBlockDecision :=
  if shared.config.network.allowLocalBinding then none
  else
    let localLiteral := isLoopbackHost addresses host ||
      (addresses.isNonPublicIp (withoutScope host)).getD false
    if localLiteral then
      if isExplicitLocalAllowlisted allowedDomains host then none
      else some (.blocked .notAllowedLocal)
    else if addresses.hostResolvesToNonPublicIp host port then some (.blocked .notAllowedLocal)
    else none

/-- `host_blocked`, after its reload. -/
def hostBlocked (shared : ConfigState Mitm) (host : Text) (port : Fin (2 ^ 16)) :
    HostBlockDecision :=
  let host := normalizeHost host
  if host = [] then .blocked .notAllowed
  else
    let allowedDomains := shared.config.network.allowedDomains
    if shared.denySet.isMatch crates host then .blocked .denied
    else
      let isAllowlisted := shared.allowSet.isMatch crates host
      match localDecision addresses shared (allowedDomains.getD []) host port with
      | some decision => decision
      | none =>
          if allowedDomains.isNone || !isAllowlisted then .blocked .notAllowed else .allowed

end HostBlocked

/-! ## The record of a run -/

/-- The decisions that have taken effect since the configuration was reloaded, the newest one
first. -/
abbrev History := List (Text × DomainListKind)

/-- Note the step of a call, by where it stood before and where it stands now. -/
def History.note {Mitm : Type} (history : History) : Task Mitm → Task Mitm → History
  | .ready (.updateDomainList host target), .done (.ok _) => (host, target) :: history
  | .updating host target _ _ _, .done (.ok _) => (host, target) :: history
  | .installing _ _, _ => []
  | .forced _, _ => []
  | _, _ => history

/-- The last decision on a host. -/
def History.last (history : History) (host : Text) : Option DomainListKind :=
  (history.find? fun decision => decision.1 = host).map Prod.snd

theorem History.last_cons (history : History) (host other : Text) (target : DomainListKind) :
    History.last ((host, target) :: history) other =
      if host = other then some target else history.last other := by
  rw [last, List.find?_cons]
  split
  case h_1 same => rw [if_pos (of_decide_eq_true same), Option.map_some]
  case h_2 apart => rw [if_neg (of_decide_eq_false apart), last]

section Record

variable {Mitm : Type} (crates : Crates) (mitmNew : Bool → Option Mitm)

/-- A step, and the record of it. -/
def recordedStep (state : System Mitm × History) (event : Event Mitm) :
    Option (System Mitm × History) :=
  (step crates mitmNew state.1 event).map fun next =>
    (next, state.2.note (state.1.tasks event.task) (next.tasks event.task))

/-- The record is kept beside the steps and refuses none of them. -/
theorem recordedStep_map_fst (system : System Mitm) (history : History) (event : Event Mitm) :
    (recordedStep crates mitmNew (system, history) event).map Prod.fst =
      step crates mitmNew system event := by
  rw [recordedStep, Option.map_map]
  exact Option.map_id_apply

variable {crates mitmNew} in
/-- Every run has a record. -/
theorem exists_history {events : List (Event Mitm)} {system final : System Mitm}
    (ran : run (step crates mitmNew) system events = some final) (history : History) :
    ∃ recorded, run (recordedStep crates mitmNew) (system, history) events =
      some (final, recorded) :=
  exists_recorded (recordedStep_map_fst crates mitmNew) ran history

end Record

/-! ## What the calls of a run have in hand -/

/-- A host name as it is normalized. -/
structure Normal (host : Text) : Prop where
  hostname : Hostname host
  normal : normalizeHost host = host
  nonempty : host ≠ []

/-- The hosts of the calls are host names. -/
def Action.Names {Mitm : Type} : Action Mitm → Prop
  | .start (.updateDomainList host _) => Hostname host
  | _ => True

/-- The host of an update is normalized. -/
def Call.Named : Call → Prop
  | .updateDomainList host _ => Normal host
  | _ => True

/-- The host of an update is normalized, and what it is about to install differs from what it has
read in the permission of this host. -/
def Task.Named {Mitm : Type} : Task Mitm → Prop
  | .polling call | .loaded call _ | .installing call _ | .ready call => call.Named
  | .updating host target previousCfg _ newState =>
      Normal host ∧ newState.config = previousCfg.withDomain host target
  | _ => True

section Steps

variable {Mitm : Type} {crates : Crates} {mitmNew : Bool → Option Mitm}
  {shared after : ConfigState Mitm} {task next : Task Mitm} {host : Text} {target : DomainListKind}

theorem named_begin {call : Call}
    (names : (Action.start call : Action Mitm).Names) : (Task.begin call : Task Mitm).Named := by
  cases call with
  | recordBlocked | drainBlocked | setNetworkMode | view => exact trivial
  | updateDomainList host target =>
      rw [Task.begin]
      split
      case isTrue => exact trivial
      case isFalse nonempty =>
        have plain : Hostname host := names
        refine ⟨?_, plain.normalizeHost_normalizeHost, nonempty⟩
        rw [plain.normalizeHost]
        exact plain.normalizeDnsHost

theorem named_polled {call : Call} (named : call.Named)
    (answer : Option (Option (ConfigState Mitm))) : (polled call answer).Named := by
  match answer with
  | none => exact trivial
  | some none | some (some newState) => exact named

theorem named_reloaded (answer : Option (ConfigState Mitm)) : (reloaded answer).Named := by
  cases answer <;> exact trivial

theorem config_of_build {config : NetworkProxyConfig} {constraints : NetworkProxyConstraints}
    {newState : ConfigState Mitm}
    (built : buildConfigState crates mitmNew config constraints = .ok newState) :
    newState.config = config := by
  simp only [buildConfigState, bind_eq_ok_iff, mapError_eq_ok_iff, Except.ok.injEq] at built
  obtain ⟨-, -, -, -, denySet, -, allowSet, -, mitm, -, rfl⟩ := built
  rfl

/-- An update finds its host on its list and not on the other one, fails, or goes on with a
configuration in which the host has its permission. -/
theorem updateDomainList_cases (crates : Crates) (mitmNew : Bool → Option Mitm)
    (shared : ConfigState Mitm) (host : Text) (target : DomainListKind) :
    (updateDomainList crates mitmNew shared host target = .done (.ok []) ∧
      Listed shared.config target host) ∨
    (∃ error, updateDomainList crates mitmNew shared host target = .done (.error error)) ∨
    ∃ newState, updateDomainList crates mitmNew shared host target =
        .updating host target shared.config shared.constraints newState ∧
      newState.config = shared.config.withDomain host target := by
  unfold updateDomainList
  extract_lets targetContains oppositeContains candidate
  split
  case isTrue here =>
    obtain ⟨on, off⟩ := Bool.and_eq_true_iff.mp here
    refine Or.inl ⟨rfl, ?_, ?_⟩
    · obtain ⟨entry, listed, same⟩ := List.any_eq_true.mp on
      exact ⟨entry, listed, eq_of_beq same⟩
    · rintro ⟨entry, listed, same⟩
      rw [← oppositeEntries_eq] at listed
      have found : oppositeContains = true :=
        List.any_eq_true.mpr ⟨entry, listed, beq_iff_eq.mpr same⟩
      rw [found] at off
      cases off
  case isFalse =>
    split
    case h_1 error _ => exact Or.inr (Or.inl ⟨_, rfl⟩)
    case h_2 =>
      split
      case h_1 => exact Or.inr (Or.inl ⟨_, rfl⟩)
      case h_2 newState built =>
        have config := config_of_build built
        exact Or.inr (Or.inr ⟨_, rfl, config⟩)

/-! ## The last decision wins -/

/-- The decided hosts are normalized, and each is on the list of its last decision only. -/
structure Decided (config : NetworkProxyConfig) (history : History) : Prop where
  normal : ∀ decision ∈ history, Normal decision.1
  listed : ∀ host target, history.last host = some target → Listed config target host

section Decided

variable {config changed : NetworkProxyConfig} {history : History}

theorem Decided.nil : Decided config [] := ⟨nofun, nofun⟩

theorem Decided.of_domains_eq (decided : Decided config history)
    (same : changed.network.domains = config.network.domains) : Decided changed history := by
  refine ⟨decided.normal, fun host target last => ?_⟩
  have entries : hostEntries changed host = hostEntries config host := by
    rw [hostEntries, hostEntries, same]
  exact (listed_congr entries).mpr (decided.listed host target last)

/-- A decision that finds its host on its list changes nothing. -/
theorem Decided.cons (decided : Decided config history) (normal : Normal host)
    (listed : Listed config target host) : Decided config ((host, target) :: history) := by
  refine ⟨List.forall_mem_cons.mpr ⟨normal, decided.normal⟩, fun other kind last => ?_⟩
  rw [History.last_cons] at last
  split_ifs at last with same
  · obtain rfl := Option.some.inj last
    exact same ▸ listed
  · exact decided.listed other kind last

/-- A decision moves its host, and no other one. -/
theorem Decided.withDomain (decided : Decided config history) (normal : Normal host) :
    Decided (config.withDomain host target) ((host, target) :: history) := by
  refine ⟨List.forall_mem_cons.mpr ⟨normal, decided.normal⟩, fun other kind last => ?_⟩
  rw [History.last_cons] at last
  split_ifs at last with same
  · obtain rfl := Option.some.inj last
    exact same ▸ listed_withDomain_self normal.normal
  · have apart : other ≠ normalizeHost host := by
      rw [normal.normal]
      exact Ne.symm same
    exact (listed_withDomain_of_ne apart).mpr (decided.listed other kind last)

end Decided

/-- What a call does while it holds the lock. -/
theorem decided_locked {history : History} (named : task.Named)
    (decided : Decided shared.config history)
    (held : locked crates mitmNew shared task = some (after, next)) :
    Decided after.config (history.note task next) ∧ next.Named := by
  cases task with
  | idle | polling | forcing | done => cases held
  | loaded call newState =>
      cases held
      exact ⟨decided, named⟩
  | installing call newState =>
      cases held
      exact ⟨Decided.nil, named⟩
  | forced newState =>
      cases held
      exact ⟨Decided.nil, trivial⟩
  | ready call =>
      cases call with
      | recordBlocked | drainBlocked | view =>
          cases held
          exact ⟨decided, trivial⟩
      | setNetworkMode mode =>
          obtain ⟨rfl, rfl⟩ := Prod.mk.inj (Option.some.inj held)
          refine ⟨decided, ?_⟩
          rw [setNetworkMode]
          split <;> exact trivial
      | updateDomainList host target =>
          obtain ⟨rfl, rfl⟩ := Prod.mk.inj (Option.some.inj held)
          obtain ⟨nothing, listed⟩ | ⟨error, failed⟩ | ⟨newState, goesOn, config⟩ :=
            updateDomainList_cases crates mitmNew shared host target
          · rw [nothing]
            exact ⟨decided.cons named listed, trivial⟩
          · rw [failed]
            exact ⟨decided, trivial⟩
          · rw [goesOn]
            exact ⟨decided, named, config⟩
  | updating host target previousCfg constraints newState =>
      obtain ⟨normal, config⟩ := named
      simp only [locked] at held
      split_ifs at held with unchanged
      · cases held
        rw [config, ← unchanged.2]
        exact ⟨decided.withDomain normal, trivial⟩
      · cases held
        exact ⟨decided, normal⟩
  | settingMode mode constraints =>
      simp only [locked] at held
      split_ifs at held
      · cases held
        exact ⟨decided.of_domains_eq rfl, trivial⟩
      · cases held
        exact ⟨decided, trivial⟩

theorem decided_taskStep {history : History} {action : Action Mitm} (named : task.Named)
    (names : action.Names) (decided : Decided shared.config history)
    (taken : taskStep crates mitmNew shared task action = some (after, next)) :
    Decided after.config (history.note task next) ∧ next.Named := by
  cases action with
  | start call =>
      simp only [taskStep, Option.ite_none_right_eq_some] at taken
      obtain ⟨resting, ⟨⟩⟩ := taken
      cases task with
      | idle | done => exact ⟨decided, named_begin names⟩
      | polling | loaded | installing | ready | updating | settingMode | forcing | forced =>
          cases resting
  | forceReload =>
      simp only [taskStep, Option.ite_none_right_eq_some] at taken
      obtain ⟨resting, ⟨⟩⟩ := taken
      cases task with
      | idle | done => exact ⟨decided, trivial⟩
      | polling | loaded | installing | ready | updating | settingMode | forcing | forced =>
          cases resting
  | polled answer =>
      cases task with
      | polling call =>
          cases taken
          exact ⟨decided, named_polled named answer⟩
      | idle | loaded | installing | ready | updating | settingMode | forcing | forced | done =>
          cases taken
  | reloaded answer =>
      cases task with
      | forcing =>
          cases taken
          exact ⟨decided, named_reloaded answer⟩
      | idle | polling | loaded | installing | ready | updating | settingMode | forced | done =>
          cases taken
  | locked => exact decided_locked named decided taken

/-- The decisions so far are kept, and every call may go on. -/
structure Recorded (state : System Mitm × History) : Prop where
  decided : Decided state.1.shared.config state.2
  named : ∀ task, (state.1.tasks task).Named

theorem Recorded.step {state next : System Mitm × History} {event : Event Mitm}
    (kept : Recorded state)
    (names : event.action.Names) (stepped : recordedStep crates mitmNew state event = some next) :
    Recorded next := by
  obtain ⟨system, taken, rfl⟩ := Option.map_eq_some_iff.mp stepped
  obtain ⟨⟨shared, task⟩, moved, rfl⟩ := Option.map_eq_some_iff.mp taken
  have own : Decided shared.config (state.2.note (state.1.tasks event.task) task) ∧ task.Named :=
    decided_taskStep (kept.named event.task) names kept.decided moved
  refine ⟨?_, fun other => ?_⟩
  · simpa using own.1
  · by_cases same : other = event.task
    · subst same
      simpa using own.2
    · simpa [Function.update_of_ne same] using kept.named other

/-- A host on the denylist is blocked, whatever is on the allowlist. -/
theorem hostBlocked_of_onList
    (selfMatching : ∀ glob, Literal glob → crates.globMatches glob glob = true)
    (respects : Respects crates shared) (normal : Normal host)
    (denied : OnList shared.config .deny host) (addresses : Addresses) {raw : Text}
    (same : normalizeHost raw = host) (port : Fin (2 ^ 16)) :
    hostBlocked crates addresses shared raw port = .blocked .denied := by
  obtain ⟨entry, listed, entrySame⟩ := denied
  have compiled : host ∈ shared.denySet := by
    refine (mem_compileGlobsetWithPolicy respects.denySet host).mpr ⟨entry, listed, ?_⟩
    rw [globsOf_of_normalizeHost_eq normal.hostname normal.nonempty entrySame]
    exact List.mem_cons_self
  have matched : shared.denySet.isMatch crates host = true :=
    List.any_eq_true.mpr ⟨host, compiled, selfMatching host normal.hostname.literal⟩
  rw [hostBlocked, same]
  dsimp only
  rw [if_neg normal.nonempty, if_pos matched]

/-- In every run of calls on host names, each host is on the list of its last decision and not on
the other one, and it is blocked as denied if that decision was to deny it. -/
theorem lastDecision_wins {initial : ConfigState Mitm} {events : List (Event Mitm)}
    {final : System Mitm} {history : History}
    (selfMatching : ∀ glob, Literal glob → crates.globMatches glob glob = true)
    (respects : Respects crates initial) (names : ∀ event ∈ events, event.action.Names)
    (loads : ∀ event ∈ events, event.action.Loads crates)
    (ran : run (recordedStep crates mitmNew) (System.initial initial, []) events =
      some (final, history)) :
    ∀ raw target, history.last (normalizeHost raw) = some target →
      Listed final.shared.config target (normalizeHost raw) ∧
      (target = .deny → ∀ addresses port,
        hostBlocked crates addresses final.shared raw port = .blocked .denied) := by
  let invariant : System Mitm × History → Prop := fun state => Recorded state ∧ Sound crates state.1
  have start : invariant (System.initial initial, []) :=
    ⟨⟨Decided.nil, fun _ => trivial⟩, sound_initial respects⟩
  have both : ∀ event ∈ events, event.action.Names ∧ event.action.Loads crates :=
    fun event member => ⟨names event member, loads event member⟩
  have step : ∀ (state : System Mitm × History) (event : Event Mitm) (next : System Mitm × History),
      invariant state → event.action.Names ∧ event.action.Loads crates →
      recordedStep crates mitmNew state event = some next → invariant next := by
    intro state event next holds met stepped
    refine ⟨holds.1.step met.1 stepped, ?_⟩
    obtain ⟨system, taken, rfl⟩ := Option.map_eq_some_iff.mp stepped
    exact sound_step holds.2 met.2 taken
  have kept : invariant (final, history) :=
    invariant_of_run step start (along_of_forall_mem both _) ran
  obtain ⟨⟨decided, -⟩, sound⟩ := kept
  intro raw target last
  have listed := decided.listed (normalizeHost raw) target last
  refine ⟨listed, fun denied addresses port => ?_⟩
  subst denied
  obtain ⟨decision, found, -⟩ := Option.map_eq_some_iff.mp last
  have normal : Normal (normalizeHost raw) := by
    have same : decision.1 = normalizeHost raw := by simpa using List.find?_some found
    exact same ▸ decided.normal decision (List.mem_of_find?_eq_some found)
  exact hostBlocked_of_onList selfMatching sound.shared normal listed.on addresses rfl port

end Steps

/-- The host `C.a.b.` is allowed and then denied, as `c.a.b`. -/
def allowThenDeny : List (Event Unit) :=
  [⟨0, .start (.updateDomainList "C.a.b.".toList .allow)⟩, ⟨0, .polled (some none)⟩, ⟨0, .locked⟩,
    ⟨0, .locked⟩, ⟨1, .start (.updateDomainList "c.a.b".toList .deny)⟩, ⟨1, .polled (some none)⟩,
    ⟨1, .locked⟩, ⟨1, .locked⟩]

theorem lastDecision_wins_allowThenDeny :
    ∃ final history, run (recordedStep Crates.plain fun _ => none) (System.initial sampleState, [])
        allowThenDeny = some (final, history) ∧
      history.length = 2 ∧ Listed final.shared.config .deny "c.a.b".toList ∧
      ∀ addresses port,
        hostBlocked Crates.plain addresses final.shared "c.a.b".toList port = .blocked .denied := by
  have ends : (run (recordedStep Crates.plain fun _ => none) (System.initial sampleState, [])
      allowThenDeny).map Prod.snd = some [("c.a.b".toList, .deny), ("c.a.b".toList, .allow)] := by
    decide
  obtain ⟨⟨final, history⟩, ran, rfl⟩ := Option.map_eq_some_iff.mp ends
  have selfMatching : ∀ glob, Literal glob → Crates.plain.globMatches glob glob = true := by
    intro glob literal
    have unmarked : glob.stripPrefix ['?', '*', '.'] = none := by
      refine Option.eq_none_iff_forall_ne_some.mpr fun domain stripped => ?_
      have whole := Text.stripPrefix_eq_some_iff.mp stripped
      exact literal '?' (by simp [whole]) (by decide)
    simp [Crates.plain, unmarked]
  have names : ∀ event ∈ allowThenDeny, event.action.Names := by
    have written : Hostname "C.a.b.".toList ∧ Hostname "c.a.b".toList := by decide
    intro event member
    simp only [allowThenDeny, List.mem_cons, List.not_mem_nil, or_false] at member
    obtain rfl | rfl | rfl | rfl | rfl | rfl | rfl | rfl := member
    · exact written.1
    · exact trivial
    · exact trivial
    · exact trivial
    · exact written.2
    all_goals exact trivial
  have loads : ∀ event ∈ allowThenDeny, event.action.Loads Crates.plain := by
    simp [allowThenDeny, Action.Loads]
  have normal : normalizeHost "c.a.b".toList = "c.a.b".toList := by decide
  have wins := lastDecision_wins selfMatching respects_sampleState names loads ran
    "c.a.b".toList .deny
  rw [normal] at wins
  obtain ⟨listed, blocked⟩ := wins (by decide)
  exact ⟨final, _, ran, rfl, listed, blocked rfl⟩

end CodexPilot.NetworkProxy
