import CodexPilot.Library.Offsets
import CodexPilot.RustStd.Text

/-!
# The tasks of a managed process

A process that has been spawned has three tasks: one for each of its two output streams, and one
that waits for its exit.  They find the entry of the process by its id, in the map that they share,
each time they take the lock.  Here is what each of these locked sections does to the entry it
finds.  What a task sends to the client behind the lock changes nothing that is shared, and is taken
together with the section.
-/

namespace CodexPilot.ExecServer

open RustStd Offsets

/-- `ProcessId`. -/
abbrev ProcessId := Text

/-- An `ExecCommandSession`, by the number of the spawned process. -/
abbrev SessionId := ℕ

/-- `RETAINED_OUTPUT_BYTES_PER_PROCESS`. -/
def retainedOutputBytesPerProcess : ℕ := 1024 * 1024

/-- `ExecOutputStream`. -/
inductive ExecOutputStream where
  | stdout
  | stderr
  | pty
  deriving DecidableEq

/-- `RetainedOutputChunk`, with the session whose stream it has been read from. -/
structure RetainedOutputChunk where
  seq : ℕ
  stream : ExecOutputStream
  chunk : List UInt8
  source : SessionId
  deriving DecidableEq

/-- The bytes of a chunk. -/
def RetainedOutputChunk.size (retained : RetainedOutputChunk) : ℕ := retained.chunk.length

/-- `RunningProcess`. -/
structure RunningProcess where
  session : SessionId
  tty : Bool
  output : List RetainedOutputChunk
  retainedBytes : ℕ
  /-- A counter of 64 bits in the source, here without its bound. -/
  nextSeq : ℕ
  exitCode : Option ℤ
  openStreams : ℕ
  closed : Bool
  deriving DecidableEq

/-- `ProcessEntry`. -/
inductive ProcessEntry where
  | starting
  | running (process : RunningProcess)
  deriving DecidableEq

/-- The notifications of a process. -/
inductive Notification where
  | outputDelta (processId : ProcessId) (retained : RetainedOutputChunk)
  | exited (processId : ProcessId) (seq : ℕ) (exitCode : ℤ)
  | closed (processId : ProcessId) (seq : ℕ)

/-- `ReadResponse`; the failure is always absent. -/
structure ReadResponse where
  chunks : List RetainedOutputChunk
  nextSeq : ℕ
  exited : Bool
  exitCode : Option ℤ
  closed : Bool

/-- `usize::MAX`. -/
def usizeMax : ℕ := 2 ^ 64 - 1

namespace RunningProcess

/-- The entry that `start_process` installs. -/
def new (session : SessionId) (tty : Bool) : RunningProcess where
  session := session
  tty := tty
  output := []
  retainedBytes := 0
  nextSeq := 1
  exitCode := none
  openStreams := 2
  closed := false

/-- The locked section of `stream_output`: the process, the chunk as it is retained, and what has
been evicted. -/
def recordChunk (process : RunningProcess) (source : SessionId) (stream : ExecOutputStream)
    (chunk : List UInt8) : RunningProcess × RetainedOutputChunk × List RetainedOutputChunk :=
  let retained : RetainedOutputChunk :=
    { seq := process.nextSeq, stream, chunk, source }
  let (evicted, retainedBytes, output) :=
    Cursors.evict RetainedOutputChunk.size retainedOutputBytesPerProcess
      (process.retainedBytes + chunk.length) (process.output ++ [retained])
  ({ process with nextSeq := process.nextSeq + 1, retainedBytes, output }, retained, evicted)

/-- The locked section of `watch_exit`. -/
def recordExit (process : RunningProcess) (exitCode : ℤ) : RunningProcess :=
  { process with nextSeq := process.nextSeq + 1, exitCode := some exitCode }

/-- The locked section of `finish_output_stream`. -/
def finishOutputStream (process : RunningProcess) : RunningProcess :=
  { process with openStreams := process.openStreams - 1 }

/-- Whether `maybe_emit_closed` goes on. -/
def closes (process : RunningProcess) : Bool :=
  !process.closed && process.openStreams == 0 && process.exitCode.isSome

/-- The locked section of `maybe_emit_closed`, where it goes on. -/
def recordClosed (process : RunningProcess) : RunningProcess :=
  { process with closed := true, nextSeq := process.nextSeq + 1 }

/-- The locked section of `exec_read`. -/
def read (process : RunningProcess) (afterSeq maxBytes : Option ℕ) : ReadResponse :=
  let (chunks, nextSeq) :=
    Cursors.read RetainedOutputChunk.size RetainedOutputChunk.seq (maxBytes.getD usizeMax) [] 0
      process.nextSeq (process.output.filter fun retained => afterSeq.getD 0 < retained.seq)
  { chunks
    nextSeq
    exited := process.exitCode.isSome
    exitCode := process.exitCode
    closed := process.closed }

end RunningProcess

/-! ## Tasks -/

/-- Where a task of `stream_output` is: it reads, or has left the loop and stands in front of one of
the two sections of `finish_output_stream`. -/
inductive StreamTask where
  | reading
  | finishing
  | closing
  | done
  deriving DecidableEq

/-- Where a task of `watch_exit` is: it waits for the exit, stands in front of
`maybe_emit_closed`, or retains the entry. -/
inductive WatchTask where
  | waiting
  | closing (exitCode : ℤ)
  | retaining (exitCode : ℤ)
  | done
  deriving DecidableEq

/-- The two output streams of a process. -/
inductive Pipe where
  | stdout
  | stderr
  deriving DecidableEq

/-- The tasks of a process. -/
structure Tasks where
  processId : ProcessId
  session : SessionId
  tty : Bool
  stdout : StreamTask
  stderr : StreamTask
  watch : WatchTask
  deriving DecidableEq

/-- One step of one task.  `delivered` says whether the client could be notified. -/
inductive TaskEvent where
  /-- `stream_output` receives a chunk. -/
  | chunk (pipe : Pipe) (chunk : List UInt8) (delivered : Bool)
  /-- `stream_output` finds its channel closed. -/
  | ended (pipe : Pipe)
  /-- The section of `finish_output_stream`. -/
  | finish (pipe : Pipe)
  /-- `maybe_emit_closed` behind `finish_output_stream`. -/
  | close (pipe : Pipe)
  /-- The exit of the process reaches `watch_exit`. -/
  | exit (exitCode : ℤ) (delivered : Bool)
  /-- `maybe_emit_closed` behind the exit. -/
  | closeExited
  /-- The retention of the entry is over. -/
  | remove

/-- What a section leaves: the tasks, the entry, the notification, and what has been evicted. -/
structure Outcome where
  tasks : Tasks
  entry : Option ProcessEntry
  notified : Option Notification
  evicted : List RetainedOutputChunk

namespace Tasks

/-- The tasks that `start_process` spawns. -/
def new (processId : ProcessId) (session : SessionId) (tty : Bool) : Tasks where
  processId := processId
  session := session
  tty := tty
  stdout := .reading
  stderr := .reading
  watch := .waiting

/-- The task of a stream. -/
def stream (tasks : Tasks) : Pipe → StreamTask
  | .stdout => tasks.stdout
  | .stderr => tasks.stderr

/-- Put the task of a stream somewhere else. -/
def setStream (tasks : Tasks) (pipe : Pipe) (task : StreamTask) : Tasks :=
  match pipe with
  | .stdout =>
      { tasks with stdout := task }
  | .stderr =>
      { tasks with stderr := task }

/-- What the chunks of a stream are labelled with. -/
def label (tasks : Tasks) : Pipe → ExecOutputStream
  | .stdout => if tasks.tty then .pty else .stdout
  | .stderr => if tasks.tty then .pty else .stderr

/-- `maybe_emit_closed`. -/
def maybeEmitClosed (tasks : Tasks) (entry : Option ProcessEntry) : Outcome :=
  match entry with
  | some (.running process) =>
      if process.closes then
        ⟨tasks, some (.running process.recordClosed),
          some (.closed tasks.processId process.nextSeq), []⟩
      else ⟨tasks, entry, none, []⟩
  | some .starting | none => ⟨tasks, entry, none, []⟩

/-- A step of a task, with the entry that it finds under the id. -/
def step (tasks : Tasks) (entry : Option ProcessEntry) : TaskEvent → Option Outcome
  | .chunk pipe chunk delivered =>
      if tasks.stream pipe = .reading then
        match entry with
        | some (.running process) =>
            let (process, retained, evicted) :=
              process.recordChunk tasks.session (tasks.label pipe) chunk
            some
              { tasks := if delivered then tasks else tasks.setStream pipe .finishing
                entry := some (.running process)
                notified := some (.outputDelta tasks.processId retained)
                evicted }
        | some .starting | none => some ⟨tasks.setStream pipe .finishing, entry, none, []⟩
      else none
  | .ended pipe =>
      if tasks.stream pipe = .reading then
        some ⟨tasks.setStream pipe .finishing, entry, none, []⟩
      else none
  | .finish pipe =>
      if tasks.stream pipe = .finishing then
        match entry with
        | some (.running process) =>
            some
              ⟨tasks.setStream pipe .closing, some (.running process.finishOutputStream), none, []⟩
        | some .starting | none => some ⟨tasks.setStream pipe .done, entry, none, []⟩
      else none
  | .close pipe =>
      if tasks.stream pipe = .closing then
        some ((tasks.setStream pipe .done).maybeEmitClosed entry)
      else none
  | .exit exitCode delivered =>
      if tasks.watch = .waiting then
        let later : Tasks :=
          { tasks with watch := .closing exitCode }
        match entry with
        | some (.running process) =>
            some
              { tasks := if delivered then later else { later with watch := .done }
                entry := some (.running (process.recordExit exitCode))
                notified := some (.exited tasks.processId process.nextSeq exitCode)
                evicted := [] }
        | some .starting | none => some ⟨later, entry, none, []⟩
      else none
  | .closeExited =>
      match tasks.watch with
      | .closing exitCode =>
          let later : Tasks :=
            { tasks with watch := .retaining exitCode }
          some (later.maybeEmitClosed entry)
      | .waiting | .retaining _ | .done => none
  | .remove =>
      match tasks.watch with
      | .retaining exitCode =>
          let later : Tasks :=
            { tasks with watch := .done }
          match entry with
          | some (.running process) =>
              some ⟨later, if process.exitCode = some exitCode then none else entry, none, []⟩
          | some .starting | none => some ⟨later, entry, none, []⟩
      | .waiting | .closing _ | .done => none

end Tasks

/-! ## What a locked section can do -/

/-- The task has not finished its stream, as far as the entry is concerned. -/
def StreamTask.isOpen : StreamTask → Bool
  | .reading | .finishing => true
  | .closing | .done => false

namespace Tasks

/-- How many of the two streams have not been finished. -/
def openStreams (tasks : Tasks) : ℕ :=
  tasks.stdout.isOpen.toNat + tasks.stderr.isOpen.toNat

/-- The tasks are those of the same process, and none has gone back. -/
structure Later (tasks later : Tasks) : Prop where
  processId : later.processId = tasks.processId
  session : later.session = tasks.session
  finished : later.openStreams ≤ tasks.openStreams
  waiting : later.watch = .waiting → tasks.watch = .waiting

/-- What a section does to the entry that it finds. -/
inductive Section (tasks : Tasks) : Option ProcessEntry → Outcome → Prop where
  /-- It leaves the entry as it is, and finishes a stream only without a running process. -/
  | quiet {entry : Option ProcessEntry} {later : Tasks} (moved : tasks.Later later)
      (kept : ∀ process, entry = some (.running process) →
        later.openStreams = tasks.openStreams) :
      Section tasks entry ⟨later, entry, none, []⟩
  /-- It records a chunk. -/
  | chunk {process : RunningProcess} {later : Tasks} (moved : tasks.Later later)
      (kept : later.openStreams = tasks.openStreams) (stream : ExecOutputStream)
      (chunk : List UInt8) :
      Section tasks (some (.running process))
        { tasks := later
          entry := some (.running (process.recordChunk tasks.session stream chunk).1)
          notified := some (.outputDelta tasks.processId
            (process.recordChunk tasks.session stream chunk).2.1)
          evicted := (process.recordChunk tasks.session stream chunk).2.2 }
  /-- It finishes a stream. -/
  | finish {process : RunningProcess} {later : Tasks} (moved : tasks.Later later)
      (one : tasks.openStreams = later.openStreams + 1) :
      Section tasks (some (.running process))
        ⟨later, some (.running process.finishOutputStream), none, []⟩
  /-- It records the exit. -/
  | exit {process : RunningProcess} {later : Tasks} (moved : tasks.Later later)
      (kept : later.openStreams = tasks.openStreams) (exited : later.watch ≠ .waiting)
      (exitCode : ℤ) :
      Section tasks (some (.running process))
        ⟨later, some (.running (process.recordExit exitCode)),
          some (.exited tasks.processId process.nextSeq exitCode), []⟩
  /-- It closes the process. -/
  | close {process : RunningProcess} {later : Tasks} (moved : tasks.Later later)
      (kept : later.openStreams = tasks.openStreams) (closes : process.closes = true) :
      Section tasks (some (.running process))
        ⟨later, some (.running process.recordClosed),
          some (.closed tasks.processId process.nextSeq), []⟩
  /-- It removes the entry. -/
  | remove {process : RunningProcess} {later : Tasks} (moved : tasks.Later later) :
      Section tasks (some (.running process)) ⟨later, none, none, []⟩

variable {tasks later : Tasks} {entry : Option ProcessEntry} {outcome : Outcome} {pipe : Pipe}
variable {task : StreamTask}

theorem Later.of_watch (watch : WatchTask) (waiting : watch = .waiting → tasks.watch = .waiting) :
    tasks.Later { tasks with watch } :=
  ⟨rfl, rfl, le_rfl, waiting⟩

theorem openStreams_setStream (same : task.isOpen = (tasks.stream pipe).isOpen) :
    (tasks.setStream pipe task).openStreams = tasks.openStreams := by
  cases pipe with
  | stdout | stderr => simp only [openStreams, setStream, same, stream]

theorem openStreams_finish (reading : (tasks.stream pipe).isOpen = true)
    (finished : task.isOpen = false) :
    tasks.openStreams = (tasks.setStream pipe task).openStreams + 1 := by
  cases pipe with
  | stdout =>
      simp only [stream] at reading
      simp only [openStreams, setStream, finished, reading, Bool.toNat_true, Bool.toNat_false]
      omega
  | stderr =>
      simp only [stream] at reading
      simp only [openStreams, setStream, finished, reading, Bool.toNat_true, Bool.toNat_false]

theorem later_setStream (finished : (tasks.setStream pipe task).openStreams ≤ tasks.openStreams) :
    tasks.Later (tasks.setStream pipe task) := by
  cases pipe with
  | stdout | stderr => exact ⟨rfl, rfl, finished, id⟩

theorem section_maybeEmitClosed (moved : tasks.Later later)
    (kept : later.openStreams = tasks.openStreams) :
    tasks.Section entry (later.maybeEmitClosed entry) := by
  have named : later.processId = tasks.processId := moved.processId
  simp only [maybeEmitClosed, named]
  split
  case h_1 process =>
    split
    case isTrue closes => exact .close moved kept closes
    case isFalse => exact .quiet moved fun _ _ => kept
  case h_2 | h_3 => exact .quiet moved fun _ _ => kept

/-- What a step can do. -/
theorem section_of_step {event : TaskEvent} (stepped : tasks.step entry event = some outcome) :
    tasks.Section entry outcome := by
  cases event with
  | chunk pipe chunk delivered =>
      simp only [step] at stepped
      split at stepped
      case isFalse => cases stepped
      case isTrue reading =>
        have kept : (tasks.setStream pipe .finishing).openStreams = tasks.openStreams :=
          openStreams_setStream (by rw [reading]; rfl)
        have moved := later_setStream kept.le
        split at stepped
        case h_1 process =>
          cases stepped
          cases delivered with
          | true => exact .chunk ⟨rfl, rfl, le_rfl, id⟩ rfl (tasks.label pipe) chunk
          | false => exact .chunk moved kept (tasks.label pipe) chunk
        case h_2 | h_3 =>
          cases stepped
          exact .quiet moved fun _ _ => kept
  | ended pipe =>
      simp only [step] at stepped
      split at stepped
      case isFalse => cases stepped
      case isTrue reading =>
        have kept : (tasks.setStream pipe .finishing).openStreams = tasks.openStreams :=
          openStreams_setStream (by rw [reading]; rfl)
        cases stepped
        exact .quiet (later_setStream kept.le) fun _ _ => kept
  | finish pipe =>
      simp only [step] at stepped
      split at stepped
      case isFalse => cases stepped
      case isTrue finishing =>
        have isOpen : (tasks.stream pipe).isOpen = true := by rw [finishing]; rfl
        split at stepped
        case h_1 process =>
          cases stepped
          have one : tasks.openStreams = (tasks.setStream pipe .closing).openStreams + 1 :=
            openStreams_finish isOpen rfl
          exact .finish (later_setStream (by omega)) one
        case h_2 | h_3 =>
          cases stepped
          have one : tasks.openStreams = (tasks.setStream pipe .done).openStreams + 1 :=
            openStreams_finish isOpen rfl
          exact .quiet (later_setStream (by omega)) fun process found => by cases found
  | close pipe =>
      simp only [step] at stepped
      split at stepped
      case isFalse => cases stepped
      case isTrue closing =>
        have kept : (tasks.setStream pipe .done).openStreams = tasks.openStreams :=
          openStreams_setStream (by rw [closing]; rfl)
        cases stepped
        exact section_maybeEmitClosed (later_setStream kept.le) kept
  | exit exitCode delivered =>
      simp only [step] at stepped
      split at stepped
      case isFalse => cases stepped
      case isTrue waiting =>
        split at stepped
        case h_1 process =>
          cases stepped
          have closing : WatchTask.closing exitCode ≠ .waiting := by simp
          have gone : WatchTask.done ≠ .waiting := by simp
          cases delivered with
          | true =>
              exact .exit (.of_watch (.closing exitCode) fun _ => waiting) rfl closing exitCode
          | false => exact .exit (.of_watch .done fun _ => waiting) rfl gone exitCode
        case h_2 | h_3 =>
          cases stepped
          exact .quiet (.of_watch (.closing exitCode) fun _ => waiting) fun _ _ => rfl
  | closeExited =>
      simp only [step] at stepped
      split at stepped
      case h_1 exitCode closing =>
        cases stepped
        exact section_maybeEmitClosed (.of_watch (.retaining exitCode) (by simp)) rfl
      all_goals cases stepped
  | remove =>
      simp only [step] at stepped
      split at stepped
      case h_1 exitCode retaining =>
        have moved : tasks.Later { tasks with watch := .done } :=
          .of_watch .done (by simp)
        split at stepped
        case h_1 process =>
          cases stepped
          split
          case isTrue => exact .remove moved
          case isFalse => exact .quiet moved fun _ _ => rfl
        case h_2 | h_3 =>
          cases stepped
          exact .quiet moved fun _ _ => rfl
      all_goals cases stepped

/-- A section keeps the process of the entry, or removes the entry; it installs none. -/
theorem Section.session (ran : tasks.Section entry outcome) :
    outcome.entry = entry ∨ ∃ process, entry = some (.running process) ∧
      (outcome.entry = none ∨
        ∃ after, outcome.entry = some (.running after) ∧ after.session = process.session) := by
  cases ran with
  | quiet => exact .inl rfl
  | chunk | finish | exit | close => exact .inr ⟨_, rfl, .inr ⟨_, rfl, rfl⟩⟩
  | remove => exact .inr ⟨_, rfl, .inl rfl⟩

theorem Section.moved (ran : tasks.Section entry outcome) : tasks.Later outcome.tasks := by
  cases ran with
  | quiet moved | chunk moved | finish moved | exit moved | close moved | remove moved =>
      exact moved

end Tasks

/-- The events whose section records or counts something. -/
def TaskEvent.touches : TaskEvent → Bool
  | .chunk .. | .finish _ | .exit .. => true
  | .ended _ | .close _ | .closeExited | .remove => false

namespace Tasks

variable {tasks : Tasks} {entry : Option ProcessEntry} {outcome : Outcome}

theorem maybeEmitClosed_entry (tasks : Tasks) (entry : Option ProcessEntry) :
    (tasks.maybeEmitClosed entry).entry = entry ∨
      ∃ process, entry = some (.running process) ∧ process.closes = true ∧
        (tasks.maybeEmitClosed entry).entry = some (.running process.recordClosed) := by
  simp only [maybeEmitClosed]
  split
  case h_1 process =>
    split
    case isTrue closes => exact .inr ⟨process, rfl, closes, rfl⟩
    case isFalse => exact .inl rfl
  case h_2 | h_3 => exact .inl rfl

/-- Without recording or counting anything, a section can only close the process or remove the
entry. -/
theorem entry_of_untouched {event : TaskEvent} (untouched : event.touches = false)
    (stepped : tasks.step entry event = some outcome) :
    outcome.entry = entry ∨ outcome.entry = none ∨
      ∃ process, entry = some (.running process) ∧ process.closes = true ∧
        outcome.entry = some (.running process.recordClosed) := by
  cases event with
  | chunk | finish | exit => cases untouched
  | ended pipe =>
      simp only [step] at stepped
      split at stepped
      case isTrue =>
        cases stepped
        exact .inl rfl
      case isFalse => cases stepped
  | close pipe =>
      simp only [step] at stepped
      split at stepped
      case isTrue =>
        cases stepped
        exact (maybeEmitClosed_entry _ entry).imp_right .inr
      case isFalse => cases stepped
  | closeExited =>
      simp only [step] at stepped
      split at stepped
      case h_1 =>
        cases stepped
        exact (maybeEmitClosed_entry _ entry).imp_right .inr
      all_goals cases stepped
  | remove =>
      simp only [step] at stepped
      split at stepped
      case h_1 =>
        split at stepped
        case h_1 =>
          cases stepped
          dsimp only
          split
          · exact .inr (.inl rfl)
          · exact .inl rfl
        case h_2 | h_3 =>
          cases stepped
          exact .inl rfl
      all_goals cases stepped

end Tasks

/-! ## Recording a chunk -/

namespace RunningProcess

variable {process : RunningProcess} {source : SessionId} {stream : ExecOutputStream}
variable {chunk : List UInt8}

/-- What is evicted and what is kept make up what was retained and the chunk, which has the next
number. -/
theorem recordChunk_output (process : RunningProcess) (source : SessionId)
    (stream : ExecOutputStream) (chunk : List UInt8) :
    (process.recordChunk source stream chunk).2.2 ++
        (process.recordChunk source stream chunk).1.output =
      process.output ++ [(process.recordChunk source stream chunk).2.1] :=
  Cursors.evict_append _ _

theorem recordChunk_bytes
    (exact : process.retainedBytes = extent RetainedOutputChunk.size process.output) :
    (process.recordChunk source stream chunk).1.retainedBytes =
        extent RetainedOutputChunk.size (process.recordChunk source stream chunk).1.output ∧
      (process.recordChunk source stream chunk).1.retainedBytes ≤
        retainedOutputBytesPerProcess := by
  refine Cursors.evict_total ?_
  rw [exact, extent_append]
  rfl

theorem finishOutputStream_openStreams {streams : ℕ} (one : process.openStreams = streams + 1) :
    process.finishOutputStream.openStreams = streams := by
  rw [finishOutputStream, one, Nat.add_sub_cancel]

end RunningProcess

end CodexPilot.ExecServer
