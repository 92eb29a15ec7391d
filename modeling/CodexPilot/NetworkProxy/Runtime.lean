import CodexPilot.Library.Transitions
import CodexPilot.NetworkProxy.State

/-!
# The running proxy

Calls share one state behind a lock that they hold for one section at a time.  An update reads the
state, releases the lock while it validates and compiles a candidate, and installs it in a later
section unless the configuration or its constraints have changed.  Every interleaving of sections
keeps the configuration within its constraints.

An update and a reload install a copy of the buffer of blocked requests; a forced reload keeps the
buffer and takes the counter from the new state.  The telemetry is complete exactly when each copy
is still good at the time it is installed.
-/

namespace CodexPilot.NetworkProxy

open RustStd

/-! ## Calls -/

/-- Which list of domains is meant. -/
inductive DomainListKind where
  | allow
  | deny
  deriving DecidableEq

namespace DomainListKind

def listName : DomainListKind → String
  | .allow => "allowlist"
  | .deny => "denylist"

def constraintField : DomainListKind → Field
  | .allow => .allowedDomains
  | .deny => .deniedDomains

def permission : DomainListKind → NetworkDomainPermission
  | .allow => .allow
  | .deny => .deny

/-- The list that is meant. -/
def entries (target : DomainListKind) (config : NetworkProxyConfig) : List Text :=
  match target with
  | .allow => configAllowedDomains config
  | .deny => configDeniedDomains config

def oppositeEntries (target : DomainListKind) (config : NetworkProxyConfig) : List Text :=
  match target with
  | .allow => configDeniedDomains config
  | .deny => configAllowedDomains config

end DomainListKind

/-- A call that reloads the configuration first when this is needed. -/
inductive Call where
  | recordBlocked (entry : BlockedRequest)
  | drainBlocked
  | updateDomainList (host : Text) (target : DomainListKind)
  | setNetworkMode (mode : NetworkMode)
  | view

/-- Why a call fails. -/
inductive CallError where
  | emptyHost
  | reload
  | constrained (field : Field) (error : NetworkProxyConstraintError)
  | failedToCompile (list : String) (error : BuildError)

/-- How far a call has come: what it does when it next holds the lock, with what it has read and
built before. -/
inductive Task (Mitm : Type) where
  | idle
  | polling (call : Call)
  | loaded (call : Call) (newState : ConfigState Mitm)
  | installing (call : Call) (newState : ConfigState Mitm)
  | ready (call : Call)
  | updating (host : Text) (target : DomainListKind) (previousCfg : NetworkProxyConfig)
      (constraints : NetworkProxyConstraints) (newState : ConfigState Mitm)
  | settingMode (mode : NetworkMode) (constraints : NetworkProxyConstraints)
  | forcing
  | forced (newState : ConfigState Mitm)
  | done (result : Except CallError (List BlockedRequest))

/-- What happens next in a call: it starts, the reloader answers, or it holds the lock. -/
inductive Action (Mitm : Type) where
  | start (call : Call)
  | forceReload
  | polled (answer : Option (Option (ConfigState Mitm)))
  | reloaded (answer : Option (ConfigState Mitm))
  | locked

@[irreducible]
def maxBlockedEvents : ℕ := 200

def u64Max : ℕ := 2 ^ 64 - 1

/-- Set the mode of a configuration. -/
def NetworkProxyConfig.withMode (config : NetworkProxyConfig) (mode : NetworkMode) :
    NetworkProxyConfig :=
  { config with network := { config.network with mode := mode } }

namespace ConfigState

variable {Mitm : Type}

/-- Take over the telemetry of another state. -/
def withTelemetry (newState shared : ConfigState Mitm) : ConfigState Mitm :=
  { newState with blocked := shared.blocked, blockedTotal := shared.blockedTotal }

/-- The entries that a new one pushes out of the buffer. -/
def evicted (shared : ConfigState Mitm) (entry : BlockedRequest) : List BlockedRequest :=
  (shared.blocked ++ [entry]).take ((shared.blocked ++ [entry]).length - maxBlockedEvents)

/-- Buffer an entry, at the expense of the oldest ones, and count it. -/
def recordBlocked (shared : ConfigState Mitm) (entry : BlockedRequest) : ConfigState Mitm :=
  { shared with
    blocked :=
      (shared.blocked ++ [entry]).drop ((shared.blocked ++ [entry]).length - maxBlockedEvents)
    blockedTotal := min (shared.blockedTotal + 1) u64Max }

def drainBlocked (shared : ConfigState Mitm) : ConfigState Mitm := { shared with blocked := [] }

def withMode (shared : ConfigState Mitm) (mode : NetworkMode) : ConfigState Mitm :=
  { shared with config := shared.config.withMode mode }

end ConfigState

section Steps

variable {Mitm : Type} (crates : Crates) (mitmNew : Bool → Option Mitm)

/-- A host of an update is normalized before anything else. -/
def Task.begin : Call → Task Mitm
  | .updateDomainList host target =>
      if normalizeHost host = [] then .done (.error .emptyHost)
      else .polling (.updateDomainList (normalizeHost host) target)
  | call => .polling call

/-- The first section of an update of a domain list, and the candidate it leads to. -/
def updateDomainList (shared : ConfigState Mitm) (host : Text) (target : DomainListKind) :
    Task Mitm :=
  let targetContains := (target.entries shared.config).any (normalizeHost · == host)
  let oppositeContains := (target.oppositeEntries shared.config).any (normalizeHost · == host)
  if targetContains && !oppositeContains then .done (.ok [])
  else
    let candidate : NetworkProxyConfig :=
      ⟨shared.config.network.upsertDomainPermission host target.permission normalizeHost⟩
    match validatePolicyAgainstConstraints crates candidate shared.constraints with
    | .error error => .done (.error (.constrained target.constraintField error))
    | .ok () =>
        match buildConfigState crates mitmNew candidate shared.constraints with
        | .error error => .done (.error (.failedToCompile target.listName error))
        | .ok newState =>
            .updating host target shared.config shared.constraints (newState.withTelemetry shared)

/-- The first section of a change of the mode. -/
def setNetworkMode (shared : ConfigState Mitm) (mode : NetworkMode) : Task Mitm :=
  match validatePolicyAgainstConstraints crates (shared.config.withMode mode)
      shared.constraints with
  | .error error => .done (.error (.constrained .mode error))
  | .ok () => .settingMode mode shared.constraints

/-- The section of a call after its reload. -/
def perform (shared : ConfigState Mitm) : Call → ConfigState Mitm × Task Mitm
  | .recordBlocked entry => (shared.recordBlocked entry, .done (.ok []))
  | .drainBlocked => (shared.drainBlocked, .done (.ok shared.blocked))
  | .updateDomainList host target => (shared, updateDomainList crates mitmNew shared host target)
  | .setNetworkMode mode => (shared, setNetworkMode crates shared mode)
  | .view => (shared, .done (.ok []))

/-- One section of a call that holds the lock. -/
def locked (shared : ConfigState Mitm) : Task Mitm → Option (ConfigState Mitm × Task Mitm)
  | .loaded call newState => some (shared, .installing call (newState.withTelemetry shared))
  | .installing call newState => some (newState, .ready call)
  | .ready call => some (perform crates mitmNew shared call)
  | .updating host target previousCfg constraints newState =>
      if shared.constraints = constraints ∧ shared.config = previousCfg then
        some (newState, .done (.ok []))
      else some (shared, .polling (.updateDomainList host target))
  | .settingMode mode constraints =>
      if shared.constraints = constraints then some (shared.withMode mode, .done (.ok []))
      else some (shared, .polling (.setNetworkMode mode))
  | .forced newState => some ({ newState with blocked := shared.blocked }, .done (.ok []))
  | _ => none

/-- No call is under way. -/
def Task.isResting : Task Mitm → Bool
  | .idle | .done _ => true
  | _ => false

/-- What a call does with the answer of `maybe_reload`. -/
def polled (call : Call) : Option (Option (ConfigState Mitm)) → Task Mitm
  | none => .done (.error .reload)
  | some none => .ready call
  | some (some newState) => .loaded call newState

/-- What a forced reload does with the answer of `reload_now`. -/
def reloaded : Option (ConfigState Mitm) → Task Mitm
  | none => .done (.error .reload)
  | some newState => .forced newState

/-- One step of a call, outside the lock or while it holds it. -/
def taskStep (shared : ConfigState Mitm) (task : Task Mitm) :
    Action Mitm → Option (ConfigState Mitm × Task Mitm)
  | .start call => if task.isResting then some (shared, .begin call) else none
  | .forceReload => if task.isResting then some (shared, .forcing) else none
  | .polled answer =>
      match task with
      | .polling call => some (shared, polled call answer)
      | _ => none
  | .reloaded answer =>
      match task with
      | .forcing => some (shared, reloaded answer)
      | _ => none
  | .locked => locked crates mitmNew shared task

/-- The shared state, and any number of calls. -/
structure System (Mitm : Type) where
  shared : ConfigState Mitm
  tasks : ℕ → Task Mitm

/-- No call is under way. -/
def System.initial (shared : ConfigState Mitm) : System Mitm := ⟨shared, fun _ => .idle⟩

/-- A step of one task. -/
structure Event (Mitm : Type) where
  task : ℕ
  action : Action Mitm

/-- One step of a task. -/
def step (system : System Mitm) (event : Event Mitm) : Option (System Mitm) :=
  (taskStep crates mitmNew system.shared (system.tasks event.task) event.action).map
    fun (shared, task) => ⟨shared, Function.update system.tasks event.task task⟩

end Steps

/-! ## Constraints hold throughout -/

section Constraints

variable {Mitm : Type} {crates : Crates} {mitmNew : Bool → Option Mitm}
  {shared after : ConfigState Mitm} {task next : Task Mitm} {action : Action Mitm}

/-- Only one check depends on the mode. -/
theorem validate_withMode {config checked : NetworkProxyConfig}
    {constraints : NetworkProxyConstraints} {mode : NetworkMode}
    (valid : validatePolicyAgainstConstraints crates config constraints = .ok ())
    (candidate : validatePolicyAgainstConstraints crates (checked.withMode mode) constraints =
      .ok ()) :
    validatePolicyAgainstConstraints crates (config.withMode mode) constraints = .ok () := by
  obtain ⟨wildcards, enabled, -, others⟩ := validate_eq_ok_iff.mp valid
  obtain ⟨-, -, modes, -⟩ := validate_eq_ok_iff.mp candidate
  exact validate_eq_ok_iff.mpr ⟨wildcards, enabled, modes, others⟩

theorem Respects.withTelemetry {newState : ConfigState Mitm} (respects : Respects crates newState)
    (shared : ConfigState Mitm) : Respects crates (newState.withTelemetry shared) :=
  ⟨respects.valid, respects.allowSet, respects.denySet⟩

theorem Respects.recordBlocked (respects : Respects crates shared) (entry : BlockedRequest) :
    Respects crates (shared.recordBlocked entry) :=
  ⟨respects.valid, respects.allowSet, respects.denySet⟩

variable (crates) in
/-- What a call has in hand may be installed: states respect their constraints, and a mode has been
validated against the constraints that were read. -/
def Task.Sound : Task Mitm → Prop
  | .loaded _ newState | .installing _ newState | .forced newState => Respects crates newState
  | .updating _ _ _ _ newState => Respects crates newState
  | .settingMode mode constraints => ∃ checked : NetworkProxyConfig,
      validatePolicyAgainstConstraints crates (checked.withMode mode) constraints = .ok ()
  | _ => True

/-- The reloader only answers with states that respect their constraints. -/
def Action.Loads (crates : Crates) : Action Mitm → Prop
  | .polled (some (some newState)) | .reloaded (some newState) => Respects crates newState
  | _ => True

theorem sound_begin (call : Call) : (Task.begin call : Task Mitm).Sound crates := by
  cases call with
  | updateDomainList host target =>
      by_cases empty : normalizeHost host = []
      all_goals simp [Task.begin, empty, Task.Sound]
  | recordBlocked | drainBlocked | setNetworkMode | view => exact trivial

theorem sound_polled {answer : Option (Option (ConfigState Mitm))} (call : Call)
    (loads : (Action.polled answer).Loads crates) : (polled call answer).Sound crates := by
  match answer with
  | none | some none => exact trivial
  | some (some newState) => exact loads

theorem sound_reloaded {answer : Option (ConfigState Mitm)}
    (loads : (Action.reloaded answer).Loads crates) : (reloaded answer).Sound crates := by
  match answer with
  | none => exact trivial
  | some newState => exact loads

/-- A candidate is only kept when it is valid. -/
theorem sound_updateDomainList (host : Text) (target : DomainListKind) :
    (updateDomainList crates mitmNew shared host target).Sound crates := by
  unfold updateDomainList
  extract_lets targetContains oppositeContains candidate
  split
  · exact trivial
  · split
    case h_1 => exact trivial
    case h_2 valid =>
      split
      case h_1 => exact trivial
      case h_2 newState built => exact (respects_of_build valid built).1.withTelemetry shared

theorem sound_setNetworkMode (mode : NetworkMode) :
    (setNetworkMode crates shared mode).Sound crates := by
  unfold setNetworkMode
  split
  case h_1 => exact trivial
  case h_2 valid => exact ⟨shared.config, valid⟩

/-- The section of a call keeps the shared state within its constraints. -/
theorem respects_perform (respects : Respects crates shared) (call : Call) :
    Respects crates (perform crates mitmNew shared call).1 ∧
      (perform crates mitmNew shared call).2.Sound crates := by
  cases call with
  | recordBlocked entry => exact ⟨respects.recordBlocked entry, trivial⟩
  | drainBlocked => exact ⟨⟨respects.valid, respects.allowSet, respects.denySet⟩, trivial⟩
  | updateDomainList host target => exact ⟨respects, sound_updateDomainList host target⟩
  | setNetworkMode mode => exact ⟨respects, sound_setNetworkMode mode⟩
  | view => exact ⟨respects, trivial⟩

theorem respects_locked (respects : Respects crates shared) (sound : task.Sound crates)
    (taken : locked crates mitmNew shared task = some (after, next)) :
    Respects crates after ∧ next.Sound crates := by
  cases task with
  | idle | polling | forcing | done => cases taken
  | loaded call newState =>
      cases taken
      exact ⟨respects, Respects.withTelemetry sound shared⟩
  | installing call newState =>
      cases taken
      exact ⟨sound, trivial⟩
  | ready call =>
      have performed : Respects crates (perform crates mitmNew shared call).1 ∧
          (perform crates mitmNew shared call).2.Sound crates := respects_perform respects call
      rw [Option.some.inj taken] at performed
      exact performed
  | updating host target previousCfg constraints newState =>
      simp only [locked] at taken
      split at taken
      · cases taken
        exact ⟨sound, trivial⟩
      · cases taken
        exact ⟨respects, trivial⟩
  | settingMode mode constraints =>
      obtain ⟨checked, candidate⟩ := sound
      simp only [locked] at taken
      split at taken
      case isTrue unchanged =>
        -- the list of domains may be another one by now, but it is valid for the same constraints
        subst unchanged
        cases taken
        exact ⟨⟨validate_withMode respects.valid candidate, respects.allowSet, respects.denySet⟩,
          trivial⟩
      case isFalse =>
        cases taken
        exact ⟨respects, trivial⟩
  | forced newState =>
      cases taken
      exact ⟨⟨sound.valid, sound.allowSet, sound.denySet⟩, trivial⟩

/-- A step of a call holds the lock, or it leaves the shared state alone and starts, waits for the
reloader or has its answer. -/
theorem taskStep_cases (taken : taskStep crates mitmNew shared task action = some (after, next)) :
    (action = .locked ∧ locked crates mitmNew shared task = some (after, next)) ∨
      (after = shared ∧ action ≠ .locked ∧ ((∃ call, next = .begin call) ∨ next = .forcing ∨
        (∃ call answer, next = polled call answer ∧ action = .polled answer) ∨
        ∃ answer, next = reloaded answer ∧ action = .reloaded answer)) := by
  cases action with
  | start call =>
      simp only [taskStep, Option.ite_none_right_eq_some] at taken
      obtain ⟨-, ⟨⟩⟩ := taken
      exact .inr ⟨rfl, nofun, .inl ⟨call, rfl⟩⟩
  | forceReload =>
      simp only [taskStep, Option.ite_none_right_eq_some] at taken
      obtain ⟨-, ⟨⟩⟩ := taken
      exact .inr ⟨rfl, nofun, .inr (.inl rfl)⟩
  | polled answer =>
      cases task with
      | polling call =>
          cases taken
          exact .inr ⟨rfl, nofun, .inr (.inr (.inl ⟨call, answer, rfl, rfl⟩))⟩
      | _ => cases taken
  | reloaded answer =>
      cases task with
      | forcing =>
          cases taken
          exact .inr ⟨rfl, nofun, .inr (.inr (.inr ⟨answer, rfl, rfl⟩))⟩
      | _ => cases taken
  | locked => exact .inl ⟨rfl, taken⟩

theorem respects_taskStep (respects : Respects crates shared) (sound : task.Sound crates)
    (loads : action.Loads crates)
    (taken : taskStep crates mitmNew shared task action = some (after, next)) :
    Respects crates after ∧ next.Sound crates := by
  rcases taskStep_cases taken with ⟨rfl, held⟩ | ⟨rfl, -, waits⟩
  · exact respects_locked respects sound held
  · refine ⟨respects, ?_⟩
    rcases waits with ⟨call, rfl⟩ | rfl | ⟨call, answer, rfl, rfl⟩ | ⟨answer, rfl, rfl⟩
    · exact sound_begin call
    · exact trivial
    · exact sound_polled call loads
    · exact sound_reloaded loads

/-- The shared state respects its constraints and every call may go on. -/
structure Sound (crates : Crates) (system : System Mitm) : Prop where
  shared : Respects crates system.shared
  tasks : ∀ task, (system.tasks task).Sound crates

theorem sound_initial (respects : Respects crates shared) : Sound crates (System.initial shared) :=
  ⟨respects, fun _ => trivial⟩

theorem sound_step {system after : System Mitm} {event : Event Mitm}
    (sound : Sound crates system) (loads : event.action.Loads crates)
    (stepped : step crates mitmNew system event = some after) : Sound crates after := by
  obtain ⟨⟨shared, task⟩, taken, rfl⟩ := Option.map_eq_some_iff.mp stepped
  obtain ⟨respects, own⟩ := respects_taskStep sound.shared (sound.tasks event.task) loads taken
  refine ⟨respects, fun other => ?_⟩
  by_cases same : other = event.task
  · subst same
    simpa using own
  · simpa [Function.update_of_ne same] using sound.tasks other

/-- Where a section of a call changes the shared state, it installs a reload or the call
succeeds. -/
theorem locked_changes (held : locked crates mitmNew shared task = some (after, next))
    (changed : after ≠ shared) :
    (∃ call newState, task = .installing call newState ∧ next = .ready call) ∨
      ∃ result, next = .done (.ok result) := by
  cases task with
  | idle | polling | forcing | done => cases held
  | loaded call newState =>
      cases held
      exact absurd rfl changed
  | installing call newState =>
      cases held
      exact .inl ⟨call, after, rfl, rfl⟩
  | ready call =>
      cases call with
      | recordBlocked | drainBlocked | view =>
          cases held
          exact .inr ⟨_, rfl⟩
      | updateDomainList | setNetworkMode =>
          cases held
          exact absurd rfl changed
  | updating host target previousCfg constraints newState | settingMode mode constraints =>
      simp only [locked] at held
      split at held
      · cases held
        exact .inr ⟨[], rfl⟩
      · cases held
        exact absurd rfl changed
  | forced newState =>
      cases held
      exact .inr ⟨[], rfl⟩

/-- A step that changes the shared state installs a reload, or the call succeeds with it. -/
theorem step_changes {system after : System Mitm} {event : Event Mitm}
    (stepped : step crates mitmNew system event = some after)
    (changed : after.shared ≠ system.shared) :
    (∃ call newState, system.tasks event.task = .installing call newState ∧
        after.tasks event.task = .ready call) ∨
      ∃ result, after.tasks event.task = .done (.ok result) := by
  obtain ⟨⟨shared, task⟩, taken, rfl⟩ := Option.map_eq_some_iff.mp stepped
  rcases taskStep_cases taken with ⟨-, held⟩ | ⟨same, -⟩
  · simpa using locked_changes held changed
  · exact absurd same changed

theorem shared_eq_of_rejected {system after : System Mitm} {event : Event Mitm} {error : CallError}
    (stepped : step crates mitmNew system event = some after)
    (rejected : after.tasks event.task = .done (.error error)) : after.shared = system.shared := by
  by_contra changed
  rcases step_changes stepped changed with ⟨call, newState, -, goesOn⟩ | ⟨result, succeeded⟩
  · rw [goesOn] at rejected
    cases rejected
  · rw [succeeded] at rejected
    cases rejected

/-- In every state that calls and reloads lead to, in whatever order they hold the lock, the
configuration is valid for its constraints and the sets are compiled from its lists.  A call that
fails has not changed the state: its steps only install what the reloader gave. -/
theorem respects_of_run {initial : ConfigState Mitm} {events : List (Event Mitm)}
    {final : System Mitm} (respects : Respects crates initial)
    (loads : ∀ event ∈ events, event.action.Loads crates)
    (ran : Transitions.run (step crates mitmNew) (System.initial initial) events = some final) :
    Respects crates final.shared ∧
      ∀ event after, step crates mitmNew final event = some after →
        (∀ error, after.tasks event.task = .done (.error error) → after.shared = final.shared) ∧
        (after.shared ≠ final.shared →
          (∃ call newState, final.tasks event.task = .installing call newState ∧
              after.tasks event.task = .ready call) ∨
            ∃ result, after.tasks event.task = .done (.ok result)) := by
  have sound : Sound crates final :=
    Transitions.invariant_of_run (fun _ _ _ sound loads stepped => sound_step sound loads stepped)
      (sound_initial respects) (Transitions.along_of_forall_mem loads _) ran
  refine ⟨sound.shared, fun event after stepped => ⟨fun error rejected => ?_, ?_⟩⟩
  · exact shared_eq_of_rejected stepped rejected
  · exact step_changes stepped

end Constraints

section Interleaving

/-- One host is allowed, and a managed configuration allows its subdomains too. -/
def sampleConfig : NetworkProxyConfig :=
  ⟨{ NetworkProxySettings.default with domains := some [⟨['a', '.', 'b'], .allow⟩] }⟩

def sampleConstraints : NetworkProxyConstraints :=
  { NetworkProxyConstraints.default with
    mode := some .full
    allowedDomains := some [['*', '*', '.', 'a', '.', 'b']] }

def sampleState : ConfigState Unit :=
  ⟨sampleConfig, [['a', '.', 'b']], [], none, sampleConstraints, [], 0⟩

/-- An update of the allowed domains and a change of the mode, which holds the lock in between. -/
def sampleEvents : List (Event Unit) :=
  [⟨0, .start (.updateDomainList ['C', '.', 'a', '.', 'b'] .allow)⟩, ⟨0, .polled (some none)⟩,
    ⟨0, .locked⟩, ⟨1, .start (.setNetworkMode .limited)⟩, ⟨1, .polled (some none)⟩, ⟨1, .locked⟩,
    ⟨1, .locked⟩, ⟨0, .locked⟩, ⟨0, .polled (some none)⟩, ⟨0, .locked⟩, ⟨0, .locked⟩]

theorem respects_sampleState : Respects Crates.plain sampleState := ⟨rfl, rfl, rfl⟩

/-- The update starts over after the change of the mode. -/
theorem respects_of_run_interleaved :
    let reached := Transitions.run (step Crates.plain fun _ => none) (System.initial sampleState)
      sampleEvents
    (reached.map fun final => (final.shared.config.network.mode, final.shared.allowSet)) =
        some (.limited, [['a', '.', 'b'], ['c', '.', 'a', '.', 'b']]) ∧
      ∀ final, reached = some final → Respects Crates.plain final.shared := by
  refine ⟨rfl, fun final ran => (respects_of_run respects_sampleState ?_ ran).1⟩
  simp [sampleEvents, Action.Loads]

end Interleaving

/-! ## Telemetry of blocked requests -/

variable {Mitm : Type}

/-- The entries of all completed `record_blocked` calls, and where those went that have left the
buffer. -/
structure Ledger where
  recorded : List BlockedRequest
  drained : List BlockedRequest
  evicted : List BlockedRequest

/-- Note what a section does with the buffer. -/
def Ledger.observe (ledger : Ledger) (shared : ConfigState Mitm) : Task Mitm → Ledger
  | .ready (.recordBlocked entry) =>
      { ledger with
        recorded := ledger.recorded ++ [entry]
        evicted := ledger.evicted ++ shared.evicted entry }
  | .ready .drainBlocked => { ledger with drained := ledger.drained ++ shared.blocked }
  | _ => ledger

/-- A running proxy with the ledger of its telemetry. -/
structure Observed (Mitm : Type) where
  system : System Mitm
  ledger : Ledger

def Observed.initial (shared : ConfigState Mitm) : Observed Mitm :=
  ⟨System.initial shared, ⟨[], [], []⟩⟩

/-- The ledger after a step of a call. -/
def Ledger.after (ledger : Ledger) (shared : ConfigState Mitm) (task : Task Mitm) :
    Action Mitm → Ledger
  | .locked => ledger.observe shared task
  | _ => ledger

/-- A step, and what it adds to the notes. -/
def observedStep (crates : Crates) (mitmNew : Bool → Option Mitm) (observed : Observed Mitm)
    (event : Event Mitm) : Option (Observed Mitm) :=
  (step crates mitmNew observed.system event).map fun system =>
    ⟨system, observed.ledger.after observed.system.shared (observed.system.tasks event.task)
      event.action⟩

/-- The counter is the number of recorded entries, and each of them is buffered, was drained or was
evicted, once. -/
structure Kept (shared : ConfigState Mitm) (ledger : Ledger) : Prop where
  total : shared.blockedTotal = ledger.recorded.length
  entries : (ledger.drained ++ ledger.evicted ++ shared.blocked).Perm ledger.recorded

/-- The telemetry of a state is that of another one, up to the order of the buffer. -/
structure ConfigState.SameTelemetry (newState shared : ConfigState Mitm) : Prop where
  total : newState.blockedTotal = shared.blockedTotal
  blocked : newState.blocked.Perm shared.blocked

/-- The copy of the telemetry that a section installs is still good, and the counter does not
saturate. -/
def Undisturbed (shared : ConfigState Mitm) : Task Mitm → Prop
  | .installing _ newState => newState.SameTelemetry shared
  | .updating _ _ previousCfg constraints newState =>
      shared.constraints = constraints ∧ shared.config = previousCfg → newState.SameTelemetry shared
  | .forced newState => newState.blockedTotal = shared.blockedTotal
  | .ready (.recordBlocked _) => shared.blockedTotal < u64Max
  | _ => True

/-! ## One step -/

section Steps

variable {crates : Crates} {mitmNew : Bool → Option Mitm} {shared after : ConfigState Mitm}
  {task next : Task Mitm} {action : Action Mitm} {ledger : Ledger}

/-- As long as the ledger does not change, the telemetry must not either. -/
theorem kept_iff_sameTelemetry (kept : Kept shared ledger) (newState : ConfigState Mitm) :
    Kept newState ledger ↔ newState.SameTelemetry shared := by
  constructor
  · rintro ⟨total, entries⟩
    refine ⟨total.trans kept.total.symm, ?_⟩
    exact (List.perm_append_left_iff _).mp (entries.trans kept.entries.symm)
  · rintro ⟨total, blocked⟩
    exact ⟨total.trans kept.total, (blocked.append_left _).trans kept.entries⟩

/-- What a new entry evicts and what it leaves is the buffer with the entry. -/
theorem evicted_append_blocked (entry : BlockedRequest) :
    shared.evicted entry ++ (shared.recordBlocked entry).blocked = shared.blocked ++ [entry] :=
  List.take_append_drop _ _

/-- A recorded entry is counted unless the counter is at its maximum. -/
theorem kept_recordBlocked_iff (kept : Kept shared ledger) (entry : BlockedRequest) :
    Kept (shared.recordBlocked entry) (ledger.observe shared (.ready (.recordBlocked entry))) ↔
      shared.blockedTotal < u64Max := by
  have counted : (shared.recordBlocked entry).blockedTotal = ledger.recorded.length + 1 ↔
      shared.blockedTotal < u64Max := by
    rw [← kept.total]
    simp only [ConfigState.recordBlocked]
    omega
  constructor
  · intro recorded
    refine counted.mp ?_
    simpa [Ledger.observe] using recorded.total
  · intro below
    refine ⟨by simpa [Ledger.observe] using counted.mpr below, ?_⟩
    have moved : ledger.drained ++ (ledger.evicted ++ shared.evicted entry) ++
        (shared.recordBlocked entry).blocked =
          (ledger.drained ++ ledger.evicted ++ shared.blocked) ++ [entry] := by
      simp only [List.append_assoc, evicted_append_blocked]
    simp only [Ledger.observe, moved]
    exact kept.entries.append_right [entry]

theorem kept_drainBlocked (kept : Kept shared ledger) :
    Kept shared.drainBlocked (ledger.observe shared (.ready .drainBlocked)) := by
  refine ⟨kept.total, ?_⟩
  simp only [Ledger.observe, ConfigState.drainBlocked, List.append_nil]
  have moved : (ledger.drained ++ shared.blocked ++ ledger.evicted).Perm
      (ledger.drained ++ ledger.evicted ++ shared.blocked) := by
    simp only [List.append_assoc]
    exact List.perm_append_comm.append_left _
  exact moved.trans kept.entries

/-- A section keeps the telemetry complete exactly when what it installs is still good. -/
theorem kept_locked_iff (kept : Kept shared ledger)
    (held : locked crates mitmNew shared task = some (after, next)) :
    Kept after (ledger.observe shared task) ↔ Undisturbed shared task := by
  cases task with
  | idle | polling | forcing | done => cases held
  | loaded call newState =>
      cases held
      exact iff_of_true kept trivial
  | installing call newState =>
      cases held
      exact kept_iff_sameTelemetry kept after
  | ready call =>
      cases call with
      | recordBlocked entry =>
          cases held
          exact kept_recordBlocked_iff kept entry
      | drainBlocked =>
          cases held
          exact iff_of_true (kept_drainBlocked kept) trivial
      | updateDomainList | setNetworkMode | view =>
          cases held
          exact iff_of_true kept trivial
  | updating host target previousCfg constraints newState =>
      simp only [locked] at held
      split at held
      case isTrue unchanged =>
        cases held
        simp only [Undisturbed, unchanged, and_self, true_imp_iff]
        exact kept_iff_sameTelemetry kept after
      case isFalse changed =>
        cases held
        exact iff_of_true kept fun unchanged => absurd unchanged changed
  | settingMode mode constraints =>
      simp only [locked] at held
      split at held
      · cases held
        exact iff_of_true ⟨kept.total, kept.entries⟩ trivial
      · cases held
        exact iff_of_true kept trivial
  | forced newState =>
      cases held
      refine (kept_iff_sameTelemetry kept _).trans ?_
      exact ⟨fun same => same.total, fun total => ⟨total, .refl _⟩⟩

theorem kept_taskStep_iff (kept : Kept shared ledger)
    (taken : taskStep crates mitmNew shared task action = some (after, next)) :
    Kept after (ledger.after shared task action) ↔
      (action = .locked → Undisturbed shared task) := by
  rcases taskStep_cases taken with ⟨rfl, held⟩ | ⟨rfl, outside, -⟩
  · simpa [Ledger.after] using kept_locked_iff kept held
  · have same : ledger.after after task action = ledger := by
      cases action with
      | locked => exact absurd rfl outside
      | start | forceReload | polled | reloaded => rfl
    rw [same]
    exact iff_of_true kept fun inside => absurd inside outside

theorem recorded_le_after (ledger : Ledger) (shared : ConfigState Mitm) (task : Task Mitm)
    (action : Action Mitm) :
    ledger.recorded.length ≤ (ledger.after shared task action).recorded.length := by
  cases action with
  | start | forceReload | polled | reloaded => exact le_rfl
  | locked =>
      cases task with
      | ready call =>
          cases call with
          | recordBlocked entry => simp [Ledger.after, Ledger.observe]
          | drainBlocked | updateDomainList | setNetworkMode | view => exact le_rfl
      | idle | polling | loaded | installing | updating | settingMode | forcing | forced | done =>
          exact le_rfl

end Steps

/-! ## Runs -/

section Runs

variable {crates : Crates} {mitmNew : Bool → Option Mitm} {observed later : Observed Mitm}
  {events : List (Event Mitm)}

/-- A step of a running proxy meets `Undisturbed` when it holds the lock. -/
def Observed.Undisturbed (observed : Observed Mitm) (event : Event Mitm) : Prop :=
  event.action = .locked →
    NetworkProxy.Undisturbed observed.system.shared (observed.system.tasks event.task)

/-- The telemetry is complete. -/
def Observed.Kept (observed : Observed Mitm) : Prop :=
  NetworkProxy.Kept observed.system.shared observed.ledger

theorem kept_observedStep_iff {event : Event Mitm} (kept : observed.Kept)
    (stepped : observedStep crates mitmNew observed event = some later) :
    later.Kept ↔ observed.Undisturbed event := by
  obtain ⟨system, moved, rfl⟩ := Option.map_eq_some_iff.mp stepped
  obtain ⟨⟨shared, task⟩, taken, rfl⟩ := Option.map_eq_some_iff.mp moved
  exact kept_taskStep_iff kept taken

/-- No run forgets a recorded entry in the ledger. -/
theorem recorded_le_run
    (ran : Transitions.run (observedStep crates mitmNew) observed events = some later) :
    observed.ledger.recorded.length ≤ later.ledger.recorded.length := by
  refine Transitions.le_of_run (fun reached => reached.ledger.recorded.length) ?_ ran
  intro state event next stepped
  obtain ⟨system, -, rfl⟩ := Option.map_eq_some_iff.mp stepped
  exact recorded_le_after _ _ _ _

/-- The telemetry is complete in every state of a run and the counter never decreases exactly when
every section of the run installs telemetry that is still good. -/
theorem telemetry_kept_iff {initial : ConfigState Mitm} (empty : initial.blocked = [])
    (zero : initial.blockedTotal = 0) (events : List (Event Mitm)) :
    (∀ before, before <+: events → ∀ reached,
      Transitions.run (observedStep crates mitmNew) (.initial initial) before = some reached →
        reached.Kept ∧ ∀ middle, middle <+: before → ∀ earlier,
          Transitions.run (observedStep crates mitmNew) (.initial initial) middle = some earlier →
            earlier.system.shared.blockedTotal ≤ reached.system.shared.blockedTotal) ↔
      Transitions.Along (observedStep crates mitmNew) Observed.Undisturbed (.initial initial)
        events := by
  have start : (Observed.initial initial).Kept := by
    refine ⟨zero, ?_⟩
    simp [Observed.initial, System.initial, empty]
  have exactly : ∀ state event next, state.Kept →
      observedStep crates mitmNew state event = some next →
        (next.Kept ↔ state.Undisturbed event) :=
    fun _ _ _ kept stepped => kept_observedStep_iff kept stepped
  have throughout : Transitions.Along (observedStep crates mitmNew) Observed.Undisturbed
      (.initial initial) events ↔ ∀ before, before <+: events → ∀ reached,
        Transitions.run (observedStep crates mitmNew) (.initial initial) before = some reached →
          reached.Kept :=
    Transitions.along_iff_invariant exactly start
  constructor
  · intro complete
    exact throughout.mpr fun before isPrefix reached ran => (complete before isPrefix reached ran).1
  · intro along before isPrefix reached ran
    have kept := throughout.mp along before isPrefix reached ran
    refine ⟨kept, fun middle shorter earlier stopped => ?_⟩
    have earlierKept := throughout.mp along middle (shorter.trans isPrefix) earlier stopped
    obtain ⟨rest, rfl⟩ := shorter
    rw [Transitions.run_append, stopped] at ran
    rw [earlierKept.total, kept.total]
    exact recorded_le_run ran

/-- An entry that a second call records between the two sections of an update. -/
def sampleEntry : BlockedRequest :=
  ⟨['d'], ['d', 'e', 'n', 'i', 'e', 'd'], none, none, none, ['h', 't', 't', 'p'], none,
    none, none, 0⟩

def sampleUpdate : List (Event Unit) :=
  [⟨0, .start (.updateDomainList ['c', '.', 'a', '.', 'b'] .allow)⟩, ⟨0, .polled (some none)⟩,
    ⟨0, .locked⟩]

def sampleRecord : List (Event Unit) :=
  [⟨1, .start (.recordBlocked sampleEntry)⟩, ⟨1, .polled (some none)⟩, ⟨1, .locked⟩]

/-- An entry that is recorded before an update starts stays in the buffer. -/
theorem telemetry_kept_of_record_first :
    ∃ reached, Transitions.run (observedStep Crates.plain fun _ => none) (.initial sampleState)
      (sampleRecord ++ sampleUpdate ++ [⟨0, .locked⟩]) = some reached ∧ reached.Kept := by
  obtain ⟨reached, ran⟩ : ∃ reached,
      Transitions.run (observedStep Crates.plain fun _ => none) (.initial sampleState)
        (sampleRecord ++ sampleUpdate ++ [⟨0, .locked⟩]) = some reached := ⟨_, rfl⟩
  refine ⟨reached, ran, ((telemetry_kept_iff rfl rfl _).mpr ?_ _ List.prefix_rfl reached ran).1⟩
  have outside : ∀ {action : Action Unit} {goal : Prop},
      action ≠ .locked → action = .locked → goal :=
    fun outside inside => absurd inside outside
  refine Transitions.along_cons rfl (outside nofun) ?_
  refine Transitions.along_cons rfl (outside nofun) ?_
  refine Transitions.along_cons rfl (fun _ => show 0 < u64Max by decide) ?_
  refine Transitions.along_cons rfl (outside nofun) ?_
  refine Transitions.along_cons rfl (outside nofun) ?_
  refine Transitions.along_cons rfl (fun _ => trivial) ?_
  exact Transitions.along_cons rfl (fun _ _ => ⟨rfl, .refl _⟩) trivial

/-- An entry that is recorded while an update has released the lock is lost: it is neither counted
nor buffered. -/
theorem record_lost_by_update :
    ¬ ∀ reached, Transitions.run (observedStep Crates.plain fun _ => none) (.initial sampleState)
      (sampleUpdate ++ sampleRecord ++ [⟨0, .locked⟩]) = some reached → reached.Kept := by
  intro complete
  have total := (complete _ rfl).total
  exact absurd total (by decide)

end Runs

end CodexPilot.NetworkProxy
