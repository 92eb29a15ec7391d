import CodexPilot.ExecServer.Processes

/-!
# Shutting down

A process that has been started is registered until it has been asked to terminate, or is among
those that `shutdown` has drained, as long as no entry is installed behind the drain.  An entry that
is installed behind it stays.
-/

namespace CodexPilot.ExecServer

open RustStd Tables Transitions

section Shutdown

variable {system next : System} {event : Event} {session : SessionId} {processId : ProcessId}
variable {process : RunningProcess} {events : List Event}

theorem mem_running {processes : Table ProcessId ProcessEntry} :
    session ∈ System.running processes ↔
      ∃ processId, sessionOf (processes.lookup processId) = some session := by
  simp only [System.running, List.mem_filterMap]
  constructor
  · rintro ⟨⟨processId, entry⟩, member, same⟩
    exact ⟨processId, by rw [AList.mem_lookup_iff.mpr member]; exact same⟩
  · rintro ⟨processId, same⟩
    obtain ⟨process, found, -⟩ := sessionOf_eq_some.mp same
    exact ⟨⟨processId, .running process⟩, AList.mem_lookup_iff.mp found, found ▸ same⟩

/-- Every process that has been started is accounted for, and the map is empty of running ones when
it has been drained. -/
structure AccountedFor (system : System) : Prop where
  started : ∀ session tasks, system.starts session = .started tasks →
    session ∈ system.terminated ∨ session ∈ system.shutdown.remaining ∨
      sessionOf (system.processes.lookup tasks.processId) = some session
  drained : system.shutdown.drained = true →
    ∀ processId process, system.processes.lookup processId ≠ some (.running process)

theorem accountedFor_new : AccountedFor .new := by
  refine ⟨fun session tasks started => (by cases started), fun drained => ?_⟩
  cases drained

/-- A step of a task leaves the session under its id, or drops it. -/
theorem sessionOf_of_task {tasks : Tasks} {entry : Option ProcessEntry} {outcome : Outcome}
    (ran : tasks.Section entry outcome) (found : sessionOf entry = some session) :
    sessionOf outcome.entry = some session ∨ outcome.entry = none := by
  obtain kept | ⟨process, running, removed | ⟨after, left, same⟩⟩ := ran.session
  · exact .inl (kept ▸ found)
  · exact .inr removed
  · rw [running] at found
    refine .inl ?_
    rw [left]
    exact (congrArg some same).trans found

theorem AccountedFor.change (accounted : AccountedFor system) (before : InstallsBefore system event)
    (change : Change system event next) : AccountedFor next := by
  cases change with
  | quiet other running started terminated drained remaining =>
      refine ⟨fun session tasks place => ?_, fun isDrained processId process found => ?_⟩
      · rw [terminated, remaining]
        refine (accounted.started session tasks ((started _ _).mp place)).imp_right (.imp_right ?_)
        intro registered
        obtain ⟨process, found, same⟩ := sessionOf_eq_some.mp registered
        exact sessionOf_eq_some.mpr ⟨process, (running _ _).mpr found, same⟩
      · exact accounted.drained (drained ▸ isDrained) processId process ((running _ _).mp found)
  | @install session processId tty spawned =>
      have undrained : system.shutdown.drained = false := before rfl
      refine ⟨fun other tasks place => ?_, fun drained => ?_⟩
      · dsimp only at place ⊢
        obtain rfl | apart := eq_or_ne other session
        · rw [Function.update_self] at place
          cases place
          refine .inr (.inr ?_)
          rw [Tasks.new, AList.lookup_insert]
          rfl
        · rw [Function.update_of_ne apart] at place
          obtain gone | waiting | registered := accounted.started other tasks place
          · exact .inl (List.mem_append_left _ gone)
          · exact .inr (.inl waiting)
          · by_cases under : tasks.processId = processId
            · rw [under] at registered
              exact .inl (List.mem_append_right _ (by simp [registered]))
            · rw [AList.lookup_insert_ne under]
              exact .inr (.inr registered)
      · exact absurd drained (by simp [undrained])
  | @task session event tasks outcome started stepped =>
      have ran := Tasks.section_of_step stepped
      refine ⟨fun other later place => ?_, fun drained processId process found => ?_⟩
      · dsimp only at place ⊢
        obtain ⟨earlier, place', under⟩ : ∃ earlier, system.starts other = .started earlier ∧
            later.processId = earlier.processId := by
          obtain rfl | apart := eq_or_ne other session
          · rw [Function.update_self] at place
            cases place
            exact ⟨tasks, started, ran.moved.processId⟩
          · rw [Function.update_of_ne apart] at place
            exact ⟨later, place, rfl⟩
        rw [under, lookup_put]
        obtain gone | waiting | registered := accounted.started other earlier place'
        · refine .inl ?_
          split
          · exact List.mem_append_left _ gone
          · exact gone
        · exact .inr (.inl waiting)
        · by_cases same : earlier.processId = tasks.processId
          · rw [if_pos same]
            rw [same] at registered
            obtain kept | removed := sessionOf_of_task ran registered
            · exact .inr (.inr kept)
            · refine .inl ?_
              rw [removed, registered]
              simp
          · rw [if_neg same]
            exact .inr (.inr registered)
      · have absent := accounted.drained drained
        dsimp only at found
        rw [lookup_put] at found
        split at found
        case isTrue =>
          obtain kept | ⟨process', running, -⟩ := ran.session
          · exact absent _ process (kept.symm.trans found)
          · exact absent _ process' running
        case isFalse => exact absent processId process found
  | drain called =>
      refine ⟨fun session tasks place => ?_, fun _ processId process found => ?_⟩
      · obtain gone | waiting | registered := accounted.started session tasks place
        · exact .inl gone
        · rw [called] at waiting
          cases waiting
        · exact .inr (.inl (mem_running.mpr ⟨tasks.processId, registered⟩))
      · rw [AList.lookup_empty] at found
        cases found
  | @terminate session remaining draining =>
      refine ⟨fun other tasks place => ?_, fun _ => accounted.drained (by rw [draining]; rfl)⟩
      obtain gone | waiting | registered := accounted.started other tasks place
      · exact .inl (List.mem_append_left _ gone)
      · rw [draining] at waiting
        obtain rfl | later := List.mem_cons.mp waiting
        · exact .inl (List.mem_append_right _ (List.mem_singleton_self _))
        · exact .inr (.inl later)
      · exact .inr (.inr registered)

/-- When everything is over, nothing is left. -/
theorem AccountedFor.leavesNothing (accounted : AccountedFor system)
    (completed : Completed system) : LeavesNothing system := by
  have unregistered := accounted.drained (by rw [completed.shutdown]; rfl)
  refine ⟨fun session tasks started => ?_, unregistered⟩
  obtain gone | waiting | registered := accounted.started session tasks started
  · exact gone
  · rw [completed.shutdown] at waiting
    cases waiting
  · obtain ⟨process, found, -⟩ := sessionOf_eq_some.mp registered
    exact absurd found (unregistered _ _)

/-- The map has been drained, and a process is registered. -/
def LeftBehind (system : System) : Prop :=
  system.shutdown.drained = true ∧
    ∃ processId process, system.processes.lookup processId = some (.running process)

/-- An entry that is installed behind the drain is left behind. -/
theorem leftBehind_of_install (late : ¬InstallsBefore system event)
    (change : Change system event next) : LeftBehind next := by
  obtain ⟨isInstall, drained⟩ := Classical.not_imp.mp late
  rw [Bool.not_eq_false] at drained
  cases change with
  | quiet other => cases isInstall.symm.trans other
  | @install session processId tty spawned =>
      exact ⟨drained, processId, _, AList.lookup_insert system.processes⟩
  | task | drain | terminate => cases isInstall

/-- What is left behind stays, when the tasks do not go on. -/
theorem LeftBehind.change (left : LeftBehind system) (task : event.isTask = false)
    (change : Change system event next) : LeftBehind next := by
  obtain ⟨drained, processId, process, found⟩ := left
  cases change with
  | quiet other running started terminated drained' remaining =>
      exact ⟨drained'.trans drained, processId, process, (running _ _).mpr found⟩
  | @install session other tty spawned =>
      exact ⟨drained, other, _, AList.lookup_insert system.processes⟩
  | task => cases task
  | drain called =>
      rw [called] at drained
      cases drained
  | terminate draining => exact ⟨rfl, processId, process, found⟩

/-- When all calls are over, every process that was spawned has been asked to terminate and none is
registered, if no entry was installed behind the drain; and only then, where the tasks of the
processes do not go on. -/
theorem leaves_nothing_of_run (ran : run System.step .new events = some system)
    (completed : Completed system) :
    (Along System.step InstallsBefore .new events → LeavesNothing system) ∧
      ((∀ event ∈ events, event.isTask = false) → LeavesNothing system →
        Along System.step InstallsBefore .new events) := by
  constructor
  · intro along
    have kept : ∀ state event next, AccountedFor state → InstallsBefore state event →
        System.step state event = some next → AccountedFor next :=
      fun state event next accounted before stepped =>
        accounted.change before (change_of_step stepped)
    exact (invariant_of_run kept accountedFor_new along ran).leavesNothing completed
  · intro alone leaves
    have spoils : ∀ state event next, event.isTask = false → ¬InstallsBefore state event →
        System.step state event = some next → LeftBehind next :=
      fun state event next _ late stepped => leftBehind_of_install late (change_of_step stepped)
    have stays : ∀ state event next, LeftBehind state → event.isTask = false →
        System.step state event = some next → LeftBehind next :=
      fun state event next left task stepped => left.change task (change_of_step stepped)
    refine along_of_unspoilt spoils stays (along_of_forall_mem alone System.new) ran ?_
    rintro ⟨-, processId, process, found⟩
    exact leaves.unregistered processId process found

end Shutdown

/-- A process is started, and everything is shut down. -/
def startedAhead : List Event := startUnder 0 ['p'] ++ [.shutdown, .drain, .terminate, .terminate]

theorem leaves_nothing_startedAhead :
    ∃ system, run System.step .new startedAhead = some system ∧ system.terminated = [0] ∧
      LeavesNothing system := by
  obtain ⟨system, ran, terminated, shutdown, starts⟩ :
      ∃ system, run System.step .new startedAhead = some system ∧ system.terminated = [0] ∧
        system.shutdown = .done ∧ ∀ session, (system.starts session).underWay = false := by
    refine ⟨_, rfl, rfl, rfl, fun session => ?_⟩
    obtain rfl | apart := eq_or_ne session 0
    · rfl
    · simp [System.goTo, System.new, Function.update_of_ne apart, Start.underWay]
  exact ⟨system, ran, terminated,
    (leaves_nothing_of_run ran ⟨shutdown, starts⟩).1 (by decide)⟩

/-- `shutdown` drains the map while a process is being spawned. -/
def startedBehind : List Event :=
  [.call 0 ['p'] false, .reserve 0, .shutdown, .drain, .spawn 0 true, .install 0, .terminate]

/-- The process is registered when all calls are over, and nobody has asked it to terminate. -/
theorem not_leaves_nothing_startedBehind :
    ∃ system, run System.step .new startedBehind = some system ∧ Completed system ∧
      sessionOf (system.processes.lookup ['p']) = some 0 ∧ system.terminated = [] ∧
      ¬LeavesNothing system := by
  refine ⟨_, rfl, ⟨rfl, fun session => ?_⟩, rfl, rfl, fun leaves => ?_⟩
  · obtain rfl | apart := eq_or_ne session 0
    · rfl
    · simp [System.goTo, System.new, Function.update_of_ne apart, Start.underWay]
  · exact leaves.unregistered ['p'] (.new 0 false) rfl

end CodexPilot.ExecServer
