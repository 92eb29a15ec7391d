import CodexPilot.ExecServer.LocalProcess
import CodexPilot.Library.Tables
import CodexPilot.Library.Transitions

/-!
# Starting processes, and shutting down

Calls of `start_process` reserve an id, wait for the process to be spawned, and install its entry;
the tasks of the processes that have been started go on beside them, and one call of `shutdown`
drains the map and terminates what was running.  A session that is dropped is terminated.

The tasks of a process find the entry under its id, and so they disturb a later process that reuses
the id, if they still record or count something; as long as none of them does, every process is left
to itself.
-/

namespace CodexPilot.ExecServer

open RustStd Tables Transitions

/-- Where a call of `start_process` is; its number is that of the session it spawns. -/
inductive Start where
  | idle
  | called (processId : ProcessId) (tty : Bool)
  | spawning (processId : ProcessId) (tty : Bool)
  | spawned (processId : ProcessId) (tty : Bool)
  | failed (processId : ProcessId)
  | refused
  | started (tasks : Tasks)
  deriving DecidableEq

/-- Where the call of `shutdown` is. -/
inductive Shutdown where
  | idle
  | called
  | terminating (remaining : List SessionId)
  | done
  deriving DecidableEq

/-- A `LocalProcess`, with the calls on it, and the sessions that have been asked to terminate. -/
structure System where
  processes : Table ProcessId ProcessEntry
  starts : SessionId → Start
  shutdown : Shutdown
  terminated : List SessionId

/-- One step of one call or task. -/
inductive Event where
  /-- `start_process` is called. -/
  | call (session : SessionId) (processId : ProcessId) (tty : Bool)
  /-- Its first section. -/
  | reserve (session : SessionId)
  /-- The process is spawned, or not. -/
  | spawn (session : SessionId) (spawned : Bool)
  /-- The section that installs the entry. -/
  | install (session : SessionId)
  /-- The section that takes the reservation back. -/
  | giveUp (session : SessionId)
  /-- A step of a task of a process that has been started. -/
  | task (session : SessionId) (event : TaskEvent)
  /-- `shutdown` is called. -/
  | shutdown
  /-- Its section. -/
  | drain
  /-- It terminates the next process, or is done. -/
  | terminate

/-- The session of an entry. -/
def sessionOf : Option ProcessEntry → Option SessionId
  | some (.running process) => some process.session
  | some .starting | none => none

/-- Put an entry under an id, or remove it. -/
def put (processes : Table ProcessId ProcessEntry) (processId : ProcessId) :
    Option ProcessEntry → Table ProcessId ProcessEntry
  | some entry => processes.insert processId entry
  | none => processes.erase processId

namespace System

/-- Nothing has been called. -/
def new : System where
  processes := ∅
  starts := fun _ => .idle
  shutdown := .idle
  terminated := []

/-- The call goes somewhere else. -/
def goTo (system : System) (session : SessionId) (start : Start) : System :=
  { system with starts := Function.update system.starts session start }

/-- The section of `shutdown`: the sessions that were running. -/
def running (processes : Table ProcessId ProcessEntry) : List SessionId :=
  processes.entries.filterMap fun entry => sessionOf (some entry.2)

/-- Take a step.  No call begins when `shutdown` has been called. -/
def step (system : System) : Event → Option System
  | .call session processId tty =>
      match system.starts session, system.shutdown with
      | .idle, .idle => some (system.goTo session (.called processId tty))
      | _, _ => none
  | .reserve session =>
      match system.starts session with
      | .called processId tty =>
          if (system.processes.lookup processId).isSome then some (system.goTo session .refused)
          else
            let reserved : System :=
              { system with processes := system.processes.insert processId .starting }
            some (reserved.goTo session (.spawning processId tty))
      | _ => none
  | .spawn session spawned =>
      match system.starts session with
      | .spawning processId tty =>
          some (system.goTo session (if spawned then .spawned processId tty else .failed processId))
      | _ => none
  | .install session =>
      match system.starts session with
      | .spawned processId tty =>
          let installed : System :=
            { system with
              processes := system.processes.insert processId (.running (.new session tty))
              terminated :=
                system.terminated ++ (sessionOf (system.processes.lookup processId)).toList }
          some (installed.goTo session (.started (.new processId session tty)))
      | _ => none
  | .giveUp session =>
      match system.starts session with
      | .failed processId =>
          let without : System :=
            { system with
              processes :=
                if system.processes.lookup processId = some .starting then
                  system.processes.erase processId
                else system.processes }
          some (without.goTo session .refused)
      | _ => none
  | .task session event =>
      match system.starts session with
      | .started tasks =>
          (tasks.step (system.processes.lookup tasks.processId) event).map fun outcome =>
            let stepped : System :=
              { system with
                processes := put system.processes tasks.processId outcome.entry
                terminated :=
                  if outcome.entry.isNone then
                    system.terminated ++
                      (sessionOf (system.processes.lookup tasks.processId)).toList
                  else system.terminated }
            stepped.goTo session (.started outcome.tasks)
      | _ => none
  | .shutdown =>
      match system.shutdown with
      | .idle =>
          some
            { system with shutdown := .called }
      | .called | .terminating _ | .done => none
  | .drain =>
      match system.shutdown with
      | .called =>
          some
            { system with processes := ∅, shutdown := .terminating (running system.processes) }
      | .idle | .terminating _ | .done => none
  | .terminate =>
      match system.shutdown with
      | .terminating (session :: remaining) =>
          some
            { system with
              shutdown := .terminating remaining
              terminated := system.terminated ++ [session] }
      | .terminating [] =>
          some
            { system with shutdown := .done }
      | .idle | .called | .done => none

end System

/-! ## Processes under one id -/

/-- A running process has read only its own streams, has counted only their ends, and is closed only
behind its own exit and the ends of its own streams. -/
structure Own (process : RunningProcess) (tasks : Tasks) : Prop where
  output : ∀ retained ∈ process.output, retained.source = process.session
  streams : process.openStreams = tasks.openStreams
  closed : process.closed = true → tasks.openStreams = 0 ∧ tasks.watch ≠ .waiting

/-- No running process is touched by another one. -/
def Undisturbed (system : System) : Prop :=
  ∀ processId process, system.processes.lookup processId = some (.running process) →
    ∃ tasks, system.starts process.session = .started tasks ∧ tasks.processId = processId ∧
      Own process tasks

/-- The session whose task is about to record or count something. -/
def Event.touching : Event → Option SessionId
  | .task session event => if event.touches then some session else none
  | .call .. | .reserve _ | .spawn .. | .install _ | .giveUp _ | .shutdown | .drain
  | .terminate => none

/-- The session that is running under the id of a session that has been started. -/
def registered (system : System) (session : SessionId) : Option SessionId :=
  match system.starts session with
  | .started tasks => sessionOf (system.processes.lookup tasks.processId)
  | _ => none

/-- A task that records or counts something finds no other process under its id. -/
def ActsOnOwn (system : System) (event : Event) : Prop :=
  ∀ session ∈ event.touching, ∀ found ∈ registered system session, found = session

instance : DecidableRel ActsOnOwn := fun system event =>
  inferInstanceAs (Decidable (∀ session ∈ event.touching, ∀ found ∈ registered system session,
    found = session))

/-! ## Shutting down -/

/-- Whether `shutdown` has drained the map. -/
def Shutdown.drained : Shutdown → Bool
  | .idle | .called => false
  | .terminating _ | .done => true

/-- What `shutdown` still has to terminate. -/
def Shutdown.remaining : Shutdown → List SessionId
  | .terminating remaining => remaining
  | .idle | .called | .done => []

/-- Whether a call of `start_process` is under way. -/
def Start.underWay : Start → Bool
  | .called .. | .spawning .. | .spawned .. | .failed _ => true
  | .idle | .refused | .started _ => false

/-- All calls are over. -/
structure Completed (system : System) : Prop where
  shutdown : system.shutdown = .done
  starts : ∀ session, (system.starts session).underWay = false

/-- Every process that was spawned has been asked to terminate, and none is registered. -/
structure LeavesNothing (system : System) : Prop where
  terminated : ∀ session tasks, system.starts session = .started tasks →
    session ∈ system.terminated
  unregistered : ∀ processId process,
    system.processes.lookup processId ≠ some (.running process)

def Event.isInstall : Event → Bool
  | .install _ => true
  | .call .. | .reserve _ | .spawn .. | .giveUp _ | .task .. | .shutdown | .drain
  | .terminate => false

def Event.isTask : Event → Bool
  | .task .. => true
  | .call .. | .reserve _ | .spawn .. | .install _ | .giveUp _ | .shutdown | .drain
  | .terminate => false

/-- No entry is installed when the map has been drained. -/
def InstallsBefore (system : System) (event : Event) : Prop :=
  event.isInstall = true → system.shutdown.drained = false

instance : DecidableRel InstallsBefore := fun _ _ => inferInstanceAs (Decidable (_ → _))

/-! ## What a step can do -/

/-- What a step changes of the running processes, the sessions that have been started, the sessions
that have been terminated, and what shutting down still has to do. -/
inductive Change (system : System) : Event → System → Prop where
  /-- Nothing. -/
  | quiet {event : Event} {next : System} (other : event.isInstall = false)
      (running : ∀ processId process, next.processes.lookup processId = some (.running process) ↔
        system.processes.lookup processId = some (.running process))
      (started : ∀ session tasks, next.starts session = .started tasks ↔
        system.starts session = .started tasks)
      (terminated : next.terminated = system.terminated)
      (drained : next.shutdown.drained = system.shutdown.drained)
      (remaining : next.shutdown.remaining = system.shutdown.remaining) :
      Change system event next
  /-- An entry is installed. -/
  | install {session : SessionId} {processId : ProcessId} {tty : Bool}
      (spawned : system.starts session = .spawned processId tty) :
      Change system (.install session)
        { processes := system.processes.insert processId (.running (.new session tty))
          starts := Function.update system.starts session (.started (.new processId session tty))
          shutdown := system.shutdown
          terminated :=
            system.terminated ++ (sessionOf (system.processes.lookup processId)).toList }
  /-- A task takes a step. -/
  | task {session : SessionId} {event : TaskEvent} {tasks : Tasks} {outcome : Outcome}
      (started : system.starts session = .started tasks)
      (stepped : tasks.step (system.processes.lookup tasks.processId) event = some outcome) :
      Change system (.task session event)
        { processes := put system.processes tasks.processId outcome.entry
          starts := Function.update system.starts session (.started outcome.tasks)
          shutdown := system.shutdown
          terminated :=
            if outcome.entry.isNone then
              system.terminated ++ (sessionOf (system.processes.lookup tasks.processId)).toList
            else system.terminated }
  /-- The map is drained. -/
  | drain (called : system.shutdown = .called) :
      Change system .drain
        { system with processes := ∅, shutdown := .terminating (System.running system.processes) }
  /-- A process is terminated. -/
  | terminate {session : SessionId} {remaining : List SessionId}
      (draining : system.shutdown = .terminating (session :: remaining)) :
      Change system .terminate
        { system with
          shutdown := .terminating remaining
          terminated := system.terminated ++ [session] }

section Change

variable {system next : System} {event : Event} {session : SessionId} {start : Start}

/-- A call that is not started before or behind a step is no session that has been started. -/
theorem started_update (before : ∀ tasks, system.starts session ≠ .started tasks)
    (after : ∀ tasks, start ≠ .started tasks) (other : SessionId) (tasks : Tasks) :
    Function.update system.starts session start other = .started tasks ↔
      system.starts other = .started tasks := by
  obtain rfl | apart := eq_or_ne other session
  · rw [Function.update_self]
    exact iff_of_false (after tasks) (before tasks)
  · rw [Function.update_of_ne apart]

theorem change_goTo (other : event.isInstall = false)
    (before : ∀ tasks, system.starts session ≠ .started tasks)
    (after : ∀ tasks, start ≠ .started tasks) : Change system event (system.goTo session start) :=
  .quiet other (fun _ _ => Iff.rfl) (started_update before after) rfl rfl rfl

theorem change_of_step (stepped : system.step event = some next) : Change system event next := by
  cases event with
  | call session processId tty =>
      simp only [System.step] at stepped
      split at stepped
      case h_1 place idle =>
        cases stepped
        exact change_goTo rfl (by simp [place]) (by simp)
      case h_2 => cases stepped
  | reserve session =>
      simp only [System.step] at stepped
      split at stepped
      case h_1 processId tty place =>
        split at stepped
        case isTrue =>
          cases stepped
          exact change_goTo rfl (by simp [place]) (by simp)
        case isFalse absent =>
          cases stepped
          refine .quiet rfl (fun other process => ?_)
            (started_update (by simp [place]) (by simp)) rfl rfl rfl
          obtain rfl | apart := eq_or_ne other processId
          · have none : system.processes.lookup other = none := by simpa using absent
            rw [none]
            refine iff_of_false ?_ (by simp)
            rw [System.goTo, AList.lookup_insert]
            simp
          · rw [System.goTo, AList.lookup_insert_ne apart]
      case h_2 => cases stepped
  | spawn session spawned =>
      simp only [System.step] at stepped
      split at stepped
      case h_1 processId tty place =>
        cases stepped
        refine change_goTo rfl (by simp [place]) fun tasks => ?_
        split <;> simp
      case h_2 => cases stepped
  | install session =>
      simp only [System.step] at stepped
      split at stepped
      case h_1 processId tty place =>
        cases stepped
        exact .install place
      case h_2 => cases stepped
  | giveUp session =>
      simp only [System.step] at stepped
      split at stepped
      case h_1 processId place =>
        cases stepped
        refine .quiet rfl (fun other process => ?_)
          (started_update (by simp [place]) (by simp)) rfl rfl rfl
        dsimp only [System.goTo]
        split
        case isTrue reserved =>
          obtain rfl | apart := eq_or_ne other processId
          · rw [AList.lookup_erase, reserved]
            simp
          · rw [AList.lookup_erase_ne apart]
        case isFalse => exact Iff.rfl
      case h_2 => cases stepped
  | task session event =>
      simp only [System.step] at stepped
      split at stepped
      case h_1 tasks place =>
        obtain ⟨outcome, moved, rfl⟩ := Option.map_eq_some_iff.mp stepped
        exact .task place moved
      case h_2 => cases stepped
  | shutdown =>
      simp only [System.step] at stepped
      split at stepped
      case h_1 idle =>
        cases stepped
        exact .quiet rfl (fun _ _ => Iff.rfl) (fun _ _ => Iff.rfl) rfl (by rw [idle]; rfl)
          (by rw [idle]; rfl)
      all_goals cases stepped
  | drain =>
      simp only [System.step] at stepped
      split at stepped
      case h_1 called =>
        cases stepped
        exact .drain called
      all_goals cases stepped
  | terminate =>
      simp only [System.step] at stepped
      split at stepped
      case h_1 session remaining draining =>
        cases stepped
        exact .terminate draining
      case h_2 drained =>
        cases stepped
        exact .quiet rfl (fun _ _ => Iff.rfl) (fun _ _ => Iff.rfl) rfl (by rw [drained]; rfl)
          (by rw [drained]; rfl)
      all_goals cases stepped

end Change

theorem lookup_put (processes : Table ProcessId ProcessEntry) (processId other : ProcessId)
    (entry : Option ProcessEntry) :
    (put processes processId entry).lookup other =
      if other = processId then entry else processes.lookup other := by
  obtain rfl | apart := eq_or_ne other processId
  · rw [if_pos rfl]
    cases entry with
    | none => exact AList.lookup_erase other processes
    | some entry => exact AList.lookup_insert processes
  · rw [if_neg apart]
    cases entry with
    | none => exact AList.lookup_erase_ne apart
    | some entry => exact AList.lookup_insert_ne apart

/-! ## Every process is left to itself -/

/-- A running process is undisturbed, and its exit has been recorded by its own task. -/
structure Owned (process : RunningProcess) (tasks : Tasks) : Prop extends Own process tasks where
  exited : process.exitCode.isSome = true → tasks.watch ≠ .waiting

section Owned

variable {process after : RunningProcess} {tasks : Tasks} {outcome : Outcome}

theorem owned_new (processId : ProcessId) (session : SessionId) (tty : Bool) :
    Owned (.new session tty) (.new processId session tty) :=
  ⟨⟨by simp [RunningProcess.new], rfl, by simp [RunningProcess.new]⟩, by simp [RunningProcess.new]⟩

/-- Closing a process needs its exit and the ends of its streams, whoever closes it. -/
theorem Owned.recordClosed (owned : Owned process tasks) (closes : process.closes = true) :
    Owned process.recordClosed tasks := by
  simp only [RunningProcess.closes, Bool.and_eq_true, beq_iff_eq] at closes
  exact ⟨⟨owned.output, owned.streams, fun _ => ⟨owned.streams.symm.trans closes.1.2,
    owned.exited closes.2⟩⟩, owned.exited⟩

/-- A process is left to itself by its own tasks. -/
theorem Owned.section (owned : Owned process tasks) (same : tasks.session = process.session)
    (ran : tasks.Section (some (.running process)) outcome)
    (left : outcome.entry = some (.running after)) : Owned after outcome.tasks := by
  have waits {later : Tasks} (moved : tasks.Later later) (gone : tasks.watch ≠ .waiting) :
      later.watch ≠ .waiting := fun waiting => gone (moved.waiting waiting)
  have closed {later : Tasks} (moved : tasks.Later later) (isClosed : process.closed = true) :
      later.openStreams = 0 ∧ later.watch ≠ .waiting := by
    obtain ⟨both, gone⟩ := owned.closed isClosed
    exact ⟨Nat.le_zero.mp (both ▸ moved.finished), waits moved gone⟩
  cases ran with
  | quiet moved kept =>
      cases left
      exact ⟨⟨owned.output, owned.streams.trans (kept process rfl).symm, closed moved⟩,
        fun exited => waits moved (owned.exited exited)⟩
  | chunk moved kept stream chunk =>
      cases left
      refine ⟨⟨fun retained member => ?_, owned.streams.trans kept.symm, closed moved⟩,
        fun exited => waits moved (owned.exited exited)⟩
      have output := RunningProcess.recordChunk_output process tasks.session stream chunk
      have among := List.mem_append_right
        (process.recordChunk tasks.session stream chunk).2.2 member
      rw [output] at among
      obtain old | new := List.mem_append.mp among
      · exact owned.output retained old
      · rw [List.mem_singleton.mp new]
        exact same
  | finish moved one =>
      cases left
      have streams := RunningProcess.finishOutputStream_openStreams (owned.streams.trans one)
      exact ⟨⟨owned.output, streams, closed moved⟩, fun exited => waits moved (owned.exited exited)⟩
  | exit moved kept gone exitCode =>
      cases left
      exact ⟨⟨owned.output, owned.streams.trans kept.symm, closed moved⟩, fun _ => gone⟩
  | close moved kept closes =>
      cases left
      have moved' : Owned process _ :=
        ⟨⟨owned.output, owned.streams.trans kept.symm, closed moved⟩,
          fun exited => waits moved (owned.exited exited)⟩
      exact moved'.recordClosed closes
  | remove => cases left

end Owned

/-- Every running process is the one of a session that has been started under its id, and is left to
itself. -/
structure Sound (system : System) : Prop where
  sessions : ∀ session tasks, system.starts session = .started tasks → tasks.session = session
  owned : ∀ processId process, system.processes.lookup processId = some (.running process) →
    ∃ tasks, system.starts process.session = .started tasks ∧ tasks.processId = processId ∧
      Owned process tasks

section Runs

variable {system next : System} {event : Event} {session : SessionId} {processId : ProcessId}
variable {process : RunningProcess} {tasks : Tasks} {outcome : Outcome}

theorem sessionOf_eq_some {entry : Option ProcessEntry} :
    sessionOf entry = some session ↔
      ∃ process, entry = some (.running process) ∧ process.session = session := by
  match entry with
  | none | some .starting | some (.running process) => simp [sessionOf]

theorem Sound.undisturbed (sound : Sound system) : Undisturbed system := by
  intro processId process found
  obtain ⟨tasks, started, under, owned⟩ := sound.owned processId process found
  exact ⟨tasks, started, under, owned.toOwn⟩

theorem sound_new : Sound .new := by
  refine ⟨fun session tasks started => (by cases started), fun processId process found => ?_⟩
  rw [System.new, AList.lookup_empty] at found
  cases found

theorem sessions_update {starts : SessionId → Start}
    (sessions : ∀ session tasks, starts session = .started tasks → tasks.session = session)
    (own : tasks.session = session) (other : SessionId) (later : Tasks)
    (place : Function.update starts session (.started tasks) other = .started later) :
    later.session = other := by
  obtain rfl | apart := eq_or_ne other session
  · rw [Function.update_self] at place
    cases place
    exact own
  · rw [Function.update_of_ne apart] at place
    exact sessions other later place

/-- A step of a task keeps the entry under its id owned, when the task finds its own process or
neither records nor counts anything. -/
theorem owned_of_task {event : TaskEvent} {after : RunningProcess} (sound : Sound system)
    (acts : ActsOnOwn system (.task session event))
    (started : system.starts session = .started tasks)
    (stepped : tasks.step (system.processes.lookup tasks.processId) event = some outcome)
    (left : outcome.entry = some (.running after)) :
    ∃ others, Function.update system.starts session (.started outcome.tasks) after.session =
        .started others ∧ others.processId = tasks.processId ∧ Owned after others := by
  have ran := Tasks.section_of_step stepped
  obtain ⟨process, found, same⟩ : ∃ process,
      system.processes.lookup tasks.processId = some (.running process) ∧
        after.session = process.session := by
    obtain kept | ⟨process, found, removed | ⟨after', left', same⟩⟩ := ran.session
    · exact ⟨after, kept.symm.trans left, rfl⟩
    · cases removed.symm.trans left
    · cases left'.symm.trans left
      exact ⟨process, found, same⟩
  obtain ⟨others, started', under, owned⟩ := sound.owned tasks.processId process found
  by_cases own : process.session = session
  · subst own
    cases started'.symm.trans started
    refine ⟨outcome.tasks, by rw [same, Function.update_self], ran.moved.processId, ?_⟩
    rw [found] at ran
    exact owned.section (sound.sessions _ _ started) ran left
  · have untouched : event.touches = false := by
      by_contra touches
      rw [Bool.not_eq_false] at touches
      refine own (acts session ?_ process.session ?_)
      · simp [Event.touching, touches]
      · simp [registered, started, found, sessionOf]
    refine ⟨others, by rw [same, Function.update_of_ne own, started'], under, ?_⟩
    obtain kept | removed | ⟨process', found', closes, closed⟩ :=
      Tasks.entry_of_untouched untouched stepped
    · cases found.symm.trans (kept.symm.trans left)
      exact owned
    · cases removed.symm.trans left
    · cases found.symm.trans found'
      cases closed.symm.trans left
      exact owned.recordClosed closes

theorem Sound.change (sound : Sound system) (acts : ActsOnOwn system event)
    (change : Change system event next) : Sound next := by
  cases change with
  | quiet other running started terminated drained remaining =>
      refine ⟨fun session tasks place => sound.sessions session tasks ((started _ _).mp place),
        fun processId process found => ?_⟩
      obtain ⟨tasks, place, under, owned⟩ := sound.owned processId process ((running _ _).mp found)
      exact ⟨tasks, (started _ _).mpr place, under, owned⟩
  | @install session processId tty spawned =>
      refine ⟨sessions_update sound.sessions rfl, fun other process found => ?_⟩
      dsimp only at found
      obtain rfl | apart := eq_or_ne other processId
      · rw [AList.lookup_insert] at found
        cases found
        exact ⟨_, Function.update_self .., rfl, owned_new other session tty⟩
      · rw [AList.lookup_insert_ne apart] at found
        obtain ⟨tasks, started, under, owned⟩ := sound.owned other process found
        have elsewhere : process.session ≠ session := by
          rintro rfl
          cases spawned.symm.trans started
        exact ⟨tasks, (Function.update_of_ne elsewhere ..).trans started, under, owned⟩
  | @task session event tasks outcome started stepped =>
      have moved := (Tasks.section_of_step stepped).moved
      have session' := moved.session.trans (sound.sessions session tasks started)
      refine ⟨sessions_update sound.sessions session', fun other process found => ?_⟩
      dsimp only at found
      rw [lookup_put] at found
      split at found
      case isTrue same =>
        rw [same]
        exact owned_of_task sound acts started stepped found
      case isFalse apart =>
        obtain ⟨others, started', under, owned⟩ := sound.owned other process found
        have elsewhere : process.session ≠ session := by
          rintro rfl
          cases started'.symm.trans started
          exact apart under.symm
        exact ⟨others, (Function.update_of_ne elsewhere ..).trans started', under, owned⟩
  | drain called =>
      refine ⟨sound.sessions, fun processId process found => ?_⟩
      rw [AList.lookup_empty] at found
      cases found
  | terminate draining => exact ⟨sound.sessions, sound.owned⟩

/-- In a run in which no task that records or counts something finds another process under its id,
no process is disturbed. -/
theorem undisturbed_of_run {events : List Event} (along : Along System.step ActsOnOwn .new events)
    (ran : run System.step .new events = some system) : Undisturbed system := by
  have kept : ∀ state event next, Sound state → ActsOnOwn state event →
      System.step state event = some next → Sound next :=
    fun state event next sound acts stepped => sound.change acts (change_of_step stepped)
  exact (invariant_of_run kept sound_new along ran).undisturbed

end Runs

/-- A process is started, and its call returns. -/
def startUnder (session : SessionId) (processId : ProcessId) : List Event :=
  [.call session processId false, .reserve session, .spawn session true, .install session]

/-- The process exits, and its entry is removed when the retention is over. -/
def exitAndRemove (session : SessionId) : List Event :=
  [.task session (.exit 0 true), .task session .closeExited, .task session .remove]

/-- An id is used again when both streams of the first process have ended. -/
def reusedBehind : List Event :=
  startUnder 0 ['p'] ++ [.task 0 (.ended .stdout), .task 0 (.finish .stdout),
    .task 0 (.ended .stderr), .task 0 (.finish .stderr), .task 0 (.close .stdout)] ++
  exitAndRemove 0 ++ startUnder 1 ['p'] ++ [.task 1 (.chunk .stdout [120] true)]

theorem undisturbed_reusedBehind :
    ∃ system, run System.step .new reusedBehind = some system ∧
      sessionOf (system.processes.lookup ['p']) = some 1 ∧ Undisturbed system := by
  obtain ⟨system, ran, registered⟩ :
      ∃ system, run System.step .new reusedBehind = some system ∧
        sessionOf (system.processes.lookup ['p']) = some 1 := ⟨_, rfl, rfl⟩
  exact ⟨system, ran, registered, undisturbed_of_run (by decide) ran⟩

/-- An id is used again while a stream of the first process is open; then a chunk comes out of that
stream, and it ends, and the second process exits and ends one of its own streams. -/
def reusedAhead : List Event :=
  startUnder 0 ['p'] ++ exitAndRemove 0 ++ startUnder 1 ['p'] ++
    [.task 0 (.chunk .stdout [120] true), .task 0 (.ended .stdout), .task 0 (.finish .stdout),
      .task 1 (.exit 3 true), .task 1 (.ended .stdout), .task 1 (.finish .stdout),
      .task 1 (.close .stdout)]

/-- The second process has recorded the chunk of the first one, and is closed while one of its own
streams is open. -/
theorem not_undisturbed_reusedAhead :
    ∃ system process tasks, run System.step .new reusedAhead = some system ∧
      system.processes.lookup ['p'] = some (.running process) ∧ process.session = 1 ∧
      system.starts 1 = .started tasks ∧
      process.output.map RetainedOutputChunk.source = [0] ∧ process.closed = true ∧
      tasks.stderr = .reading ∧ process.openStreams ≠ tasks.openStreams := by
  refine ⟨_, _, _, rfl, rfl, rfl, rfl, rfl, rfl, rfl, by decide⟩

end CodexPilot.ExecServer
