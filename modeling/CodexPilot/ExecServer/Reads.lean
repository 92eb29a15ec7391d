import CodexPilot.ExecServer.LocalProcess
import CodexPilot.Library.Transitions

/-!
# Reading the output of a process

One process has been started under its id, and a client reads its output from the beginning: it
passes the number in front of the next one that the last response has named.  A read changes
nothing that is shared, so it is enough to follow one client.
-/

namespace CodexPilot.ExecServer

open RustStd Offsets Transitions

namespace Reads

/-- A client, with what it has received, and what had been evicted when a read went past it. -/
structure Client where
  afterSeq : Option ℕ
  received : List RetainedOutputChunk
  missed : List RetainedOutputChunk

/-- The number that the next read starts behind. -/
def Client.cursor (client : Client) : ℕ := client.afterSeq.getD 0

/-- Take a response, and go on behind it. -/
def Client.receive (client : Client) (evicted : List RetainedOutputChunk)
    (response : ReadResponse) : Client where
  afterSeq := some (response.nextSeq - 1)
  received := client.received ++ response.chunks
  missed := client.missed ++ evicted.filter fun retained =>
    client.cursor < retained.seq && retained.seq < response.nextSeq

/-- The tasks of the process, its entry, the notifications in the order of the sections that make
them, what the cap has evicted, and the client. -/
structure System where
  tasks : Tasks
  entry : Option ProcessEntry
  log : List Notification
  evicted : List RetainedOutputChunk
  client : Client

/-- The process has been started. -/
def System.start (processId : ProcessId) (session : SessionId) (tty : Bool) : System where
  tasks := .new processId session tty
  entry := some (.running (.new session tty))
  log := []
  evicted := []
  client := ⟨none, [], []⟩

/-- A step of a task of the process, or a round of `exec_read`.  `due` says whether the deadline of
the read has passed. -/
inductive Event where
  | task (event : TaskEvent)
  | read (maxBytes : Option ℕ) (due : Bool)

/-- A round of `exec_read` answers, or waits for a notification; without an entry it fails. -/
def System.read (system : System) (maxBytes : Option ℕ) (due : Bool) : System :=
  match system.entry with
  | some (.running process) =>
      let response := process.read system.client.afterSeq maxBytes
      if !response.chunks.isEmpty || response.exited || due then
        { system with client := system.client.receive system.evicted response }
      else system
  | some .starting | none => system

/-- Take a step. -/
def System.step (system : System) : Event → Option System
  | .task event =>
      (system.tasks.step system.entry event).map fun outcome =>
        { system with
          tasks := outcome.tasks
          entry := outcome.entry
          log := system.log ++ outcome.notified.toList
          evicted := system.evicted ++ outcome.evicted }
  | .read maxBytes due => some (system.read maxBytes due)

end Reads

/-! ## Notifications -/

namespace Notification

/-- The number of a notification. -/
def seq : Notification → ℕ
  | .outputDelta _ retained => retained.seq
  | .exited _ seq _ => seq
  | .closed _ seq => seq

/-- The chunk of a notification. -/
def output? : Notification → Option RetainedOutputChunk
  | .outputDelta _ retained => some retained
  | .exited .. | .closed .. => none

def isExited : Notification → Bool
  | .exited .. => true
  | .outputDelta .. | .closed .. => false

def isClosed : Notification → Bool
  | .closed .. => true
  | .outputDelta .. | .exited .. => false

end Notification

namespace Reads

/-- The chunks of a log. -/
def outputs (log : List Notification) : List RetainedOutputChunk :=
  log.filterMap Notification.output?

/-- Every chunk is delivered to the client at most once and in order, and only what the cap has
evicted is missed; the numbers follow the order of the sections; the retained bytes are counted and
within the cap; and the process is closed once, behind its exit and both of its streams. -/
structure DeliversOnce (system : System) : Prop where
  numbered : system.log.Pairwise fun one two => one.seq < two.seq
  retained : ∀ process, system.entry = some (.running process) →
    process.retainedBytes = extent RetainedOutputChunk.size process.output ∧
      process.retainedBytes ≤ retainedOutputBytesPerProcess
  closedOnce : (system.log.filter Notification.isClosed).length ≤ 1
  closedBehind : ∀ closed ∈ system.log, closed.isClosed = true →
    system.tasks.openStreams = 0 ∧
      ∃ exited ∈ system.log, exited.isExited = true ∧ exited.seq < closed.seq
  inOrder : system.client.received.Pairwise fun one two => one.seq < two.seq
  genuine : ∀ chunk ∈ system.client.received, chunk ∈ outputs system.log
  caughtUp : ∀ chunk ∈ outputs system.log, chunk.seq ≤ system.client.cursor →
    chunk ∈ system.client.received ∨ chunk ∈ system.client.missed
  missed : ∀ chunk ∈ system.client.missed, chunk ∈ system.evicted

/-- How a running process stands to what has been notified and read. -/
structure Consistent (system : System) (process : RunningProcess) : Prop where
  fresh : ∀ notification ∈ system.log, notification.seq < process.nextSeq
  behind : system.client.cursor < process.nextSeq
  output : outputs system.log = system.evicted ++ process.output
  bytes : process.retainedBytes = extent RetainedOutputChunk.size process.output
  capped : process.retainedBytes ≤ retainedOutputBytesPerProcess
  streams : process.openStreams = system.tasks.openStreams
  exited : process.exitCode.isSome = true → ∃ exited ∈ system.log, exited.isExited = true
  unclosed : process.closed = false → ∀ closed ∈ system.log, closed.isClosed = false

/-- The invariant. -/
structure Sound (system : System) : Prop extends DeliversOnce system where
  running : ∀ process, system.entry = some (.running process) → Consistent system process
  reached : ∀ chunk ∈ system.client.received, chunk.seq ≤ system.client.cursor

variable {system next : System} {process : RunningProcess} {tasks : Tasks}

theorem sound_start (processId : ProcessId) (session : SessionId) (tty : Bool) :
    Sound (.start processId session tty) := by
  have running : ∀ process, (System.start processId session tty).entry = some (.running process) →
      process = .new session tty := fun process found => by cases found; rfl
  refine ⟨⟨.nil, fun process found => ?_, Nat.zero_le _, by simp [System.start], .nil,
    by simp [System.start], by simp [System.start, outputs], by simp [System.start]⟩,
    fun process found => ?_, by simp [System.start]⟩
  · rw [running process found]
    exact ⟨rfl, Nat.zero_le _⟩
  · rw [running process found]
    exact ⟨by simp [System.start], Nat.one_pos, rfl, rfl, Nat.zero_le _, rfl, by simp
      [RunningProcess.new], by simp [System.start]⟩

theorem outputs_append (log : List Notification) (notification : Notification) :
    outputs (log ++ [notification]) = outputs log ++ notification.output?.toList := by
  rw [outputs, List.filterMap_append]
  cases output : notification.output? <;> simp [outputs, output]

theorem seq_of_output {notification : Notification} {chunk : RetainedOutputChunk}
    (output : notification.output? = some chunk) : notification.seq = chunk.seq := by
  cases notification with
  | outputDelta processId retained =>
      cases output
      rfl
  | exited | closed => cases output

theorem outputs_pairwise (numbered : system.log.Pairwise fun one two => one.seq < two.seq) :
    (outputs system.log).Pairwise fun one two => one.seq < two.seq := by
  refine List.Pairwise.filterMap Notification.output? ?_ numbered
  intro one two less chunk output chunk' output'
  rwa [← seq_of_output output, ← seq_of_output output']

section Append

variable {notification : Notification}

theorem Consistent.fresh_append (before : Consistent system process)
    (number : notification.seq = process.nextSeq) :
    ∀ other ∈ system.log ++ [notification], other.seq < process.nextSeq + 1 := by
  intro other member
  obtain earlier | last := List.mem_append.mp member
  · exact Nat.lt_succ_of_lt (before.fresh other earlier)
  · rw [List.mem_singleton.mp last, number]
    exact Nat.lt_succ_self _

theorem Consistent.unclosed_append (before : Consistent system process)
    (other : notification.isClosed = false) (unclosed : process.closed = false) :
    ∀ closed ∈ system.log ++ [notification], closed.isClosed = false := by
  intro closed member
  obtain earlier | last := List.mem_append.mp member
  · exact before.unclosed unclosed closed earlier
  · rw [List.mem_singleton.mp last, other]

theorem Consistent.exited_append (before : Consistent system process)
    (exited : process.exitCode.isSome = true) :
    ∃ exited ∈ system.log ++ [notification], exited.isExited = true := by
  obtain ⟨exit, member, isExited⟩ := before.exited exited
  exact ⟨exit, List.mem_append_left _ member, isExited⟩

end Append

/-- A section that notifies nobody keeps the invariant when the entry it leaves is consistent. -/
theorem Sound.silent (sound : Sound system) {entry : Option ProcessEntry}
    (finished : tasks.openStreams ≤ system.tasks.openStreams)
    (consistent : ∀ process, entry = some (.running process) →
      Consistent { system with tasks, entry } process) : Sound { system with tasks, entry } := by
  refine ⟨{ sound.toDeliversOnce with retained := ?_, closedBehind := ?_ }, consistent,
    sound.reached⟩
  · intro process found
    exact ⟨(consistent process found).bytes, (consistent process found).capped⟩
  · intro closed member isClosed
    obtain ⟨both, exited⟩ := sound.closedBehind closed member isClosed
    exact ⟨Nat.le_zero.mp (both ▸ finished), exited⟩

/-- So does a section that notifies with the next number. -/
theorem Sound.notified (sound : Sound system) {process after : RunningProcess}
    (found : system.entry = some (.running process)) {notification : Notification}
    (number : notification.seq = process.nextSeq) {evicted : List RetainedOutputChunk}
    (kept : tasks.openStreams = system.tasks.openStreams)
    (closes : notification.isClosed = true → process.closes = true) (consistent : Consistent
      { system with
        tasks
        entry := some (.running after)
        log := system.log ++ [notification]
        evicted := system.evicted ++ evicted } after) :
    Sound
      { system with
        tasks
        entry := some (.running after)
        log := system.log ++ [notification]
        evicted := system.evicted ++ evicted } := by
  have before := sound.running process found
  refine ⟨⟨?_, ?_, ?_, ?_, sound.inOrder, ?_, ?_, ?_⟩, ?_, sound.reached⟩
  · refine List.pairwise_append.mpr ⟨sound.numbered, List.pairwise_singleton _ _, ?_⟩
    intro one member two last
    rw [List.mem_singleton.mp last, number]
    exact before.fresh one member
  · intro process' found'
    cases found'
    exact ⟨consistent.bytes, consistent.capped⟩
  · rw [List.filter_append, List.length_append]
    cases isClosed : notification.isClosed with
    | false => simpa [isClosed] using sound.closedOnce
    | true =>
        have unclosed : process.closed = false := by
          have goesOn := closes isClosed
          simp only [RunningProcess.closes, Bool.and_eq_true, Bool.not_eq_true'] at goesOn
          exact goesOn.1.1
        have none : system.log.filter Notification.isClosed = [] := by
          refine List.filter_eq_nil_iff.mpr fun closed member => ?_
          rw [before.unclosed unclosed closed member]
          exact Bool.false_ne_true
        simp [none, isClosed]
  · intro closed member isClosed
    obtain earlier | last := List.mem_append.mp member
    · obtain ⟨both, exited, exit, isExited, behind⟩ := sound.closedBehind closed earlier isClosed
      exact ⟨kept.trans both, exited, List.mem_append_left _ exit, isExited, behind⟩
    · cases List.mem_singleton.mp last
      have goesOn := closes isClosed
      simp only [RunningProcess.closes, Bool.and_eq_true, beq_iff_eq] at goesOn
      obtain ⟨exited, exit, isExited⟩ := before.exited goesOn.2
      refine ⟨?_, exited, List.mem_append_left _ exit, isExited, ?_⟩
      · rw [kept, ← before.streams]
        exact goesOn.1.2
      · rw [number]
        exact before.fresh exited exit
  · intro chunk member
    rw [outputs, List.filterMap_append]
    exact List.mem_append_left _ (sound.genuine chunk member)
  · intro chunk member passed
    rw [outputs, List.filterMap_append] at member
    obtain earlier | last := List.mem_append.mp member
    · exact sound.caughtUp chunk earlier passed
    · obtain ⟨same, is, output⟩ := List.mem_filterMap.mp last
      cases List.mem_singleton.mp is
      rw [← seq_of_output output, number] at passed
      exact absurd before.behind (Nat.not_lt.mpr passed)
  · exact fun chunk member => List.mem_append_left _ (sound.missed chunk member)
  · intro process' found'
    cases found'
    exact consistent

/-- Every section keeps the invariant. -/
theorem Sound.section {outcome : Outcome} (sound : Sound system)
    (ran : system.tasks.Section system.entry outcome) :
    Sound
      { system with
        tasks := outcome.tasks
        entry := outcome.entry
        log := system.log ++ outcome.notified.toList
        evicted := system.evicted ++ outcome.evicted } := by
  obtain ⟨own, entry, log, evicted, client⟩ := system
  cases ran with
  | quiet moved kept =>
      simp only [Option.toList_none, List.append_nil]
      refine sound.silent moved.finished fun process found => ?_
      exact { sound.running process found with
        streams := (sound.running process found).streams.trans (kept process found).symm }
  | remove moved =>
      simp only [Option.toList_none, List.append_nil]
      exact sound.silent moved.finished fun process found => by cases found
  | finish moved one =>
      simp only [Option.toList_none, List.append_nil]
      refine sound.silent moved.finished fun process' found => ?_
      cases found
      have before := sound.running _ rfl
      exact { before with
        streams := RunningProcess.finishOutputStream_openStreams (before.streams.trans one) }
  | @chunk process later moved kept stream chunk =>
      have before := sound.running process rfl
      refine sound.notified rfl rfl kept (by simp [Notification.isClosed]) ?_
      obtain ⟨bytes, capped⟩ := RunningProcess.recordChunk_bytes before.bytes
      refine ⟨?_, Nat.lt_succ_of_lt before.behind, ?_, bytes, capped,
        before.streams.trans kept.symm, ?_, ?_⟩
      · exact before.fresh_append rfl
      · have output := RunningProcess.recordChunk_output process own.session stream chunk
        rw [outputs_append, List.append_assoc, output, ← List.append_assoc]
        exact congrArg (· ++ _) before.output
      · exact before.exited_append
      · exact before.unclosed_append rfl
  | @exit process later moved kept gone exitCode =>
      have before := sound.running process rfl
      refine sound.notified rfl rfl kept (by simp [Notification.isClosed]) ?_
      refine ⟨?_, Nat.lt_succ_of_lt before.behind, ?_, before.bytes, before.capped,
        before.streams.trans kept.symm, ?_, ?_⟩
      · exact before.fresh_append rfl
      · simpa [outputs_append, Notification.output?, RunningProcess.recordExit] using before.output
      · exact fun _ => ⟨_, List.mem_append_right _ (List.mem_singleton_self _), rfl⟩
      · exact before.unclosed_append rfl
  | @close process later moved kept closes =>
      have before := sound.running process rfl
      refine sound.notified rfl rfl kept (fun _ => closes) ?_
      refine ⟨?_, Nat.lt_succ_of_lt before.behind, ?_, before.bytes, before.capped,
        before.streams.trans kept.symm, ?_, fun unclosed => by cases unclosed⟩
      · exact before.fresh_append rfl
      · simpa [outputs_append, Notification.output?, RunningProcess.recordClosed]
          using before.output
      · exact before.exited_append

/-! ## Reading -/

/-- A round of a read keeps the invariant. -/
theorem Sound.read (sound : Sound system) (maxBytes : Option ℕ) (due : Bool) :
    Sound (system.read maxBytes due) := by
  obtain ⟨own, entry, log, evicted, client⟩ := system
  match entry with
  | none | some .starting => exact sound
  | some (.running process) =>
      have before := sound.running process rfl
      have sorted := outputs_pairwise sound.numbered
      have output : outputs log = evicted ++ process.output := before.output
      have retained : ∀ chunk ∈ process.output, chunk ∈ outputs log :=
        fun chunk member => output ▸ List.mem_append_right evicted member
      have fresh : ∀ chunk ∈ process.output, chunk.seq < process.nextSeq := by
        intro chunk member
        obtain ⟨notification, notified, same⟩ := List.mem_filterMap.mp (retained chunk member)
        rw [← seq_of_output same]
        exact before.fresh notification notified
      have sorted' : process.output.Pairwise fun one two => one.seq < two.seq := by
        rw [output] at sorted
        exact (List.pairwise_append.mp sorted).2.1
      obtain ⟨inOrder, onward, within, mem_response⟩ :=
        Cursors.read_behind RetainedOutputChunk.size (maxBytes.getD usizeMax) sorted' fresh
          before.behind
      simp only [System.read]
      split
      case isFalse => exact sound
      case isTrue =>
        set response := process.read client.afterSeq maxBytes
        have cursor : (client.receive evicted response).cursor = response.nextSeq - 1 := rfl
        have moved : client.cursor ≤ response.nextSeq - 1 := Nat.le_sub_one_of_lt onward
        have passed (seq : ℕ) : seq ≤ response.nextSeq - 1 ↔ seq < response.nextSeq :=
          Nat.le_sub_one_iff_lt (Nat.zero_lt_of_lt onward)
        refine ⟨⟨sound.numbered, sound.retained, sound.closedOnce, sound.closedBehind, ?_, ?_, ?_,
          ?_⟩, ?_, ?_⟩
        · refine List.pairwise_append.mpr ⟨sound.inOrder, inOrder, fun one old two new => ?_⟩
          exact (sound.reached one old).trans_lt ((mem_response two).mp new).2.1
        · intro chunk member
          obtain old | new := List.mem_append.mp member
          · exact sound.genuine chunk old
          · exact retained chunk ((mem_response chunk).mp new).1
        · intro chunk member reached
          rw [cursor, passed] at reached
          obtain old | new := Nat.lt_or_ge client.cursor chunk.seq |>.symm
          · obtain here | gone := sound.caughtUp chunk member old
            · exact .inl (List.mem_append_left _ here)
            · exact .inr (List.mem_append_left _ gone)
          · obtain gone | here := List.mem_append.mp (output ▸ member)
            · have among : chunk ∈ evicted.filter fun retained =>
                  client.cursor < retained.seq && retained.seq < response.nextSeq :=
                List.mem_filter.mpr ⟨gone, by simp [new, reached]⟩
              exact .inr (List.mem_append_right _ among)
            · exact .inl (List.mem_append_right _ ((mem_response chunk).mpr ⟨here, new, reached⟩))
        · intro chunk member
          obtain old | new := List.mem_append.mp member
          · exact sound.missed chunk old
          · exact (List.mem_filter.mp new).1
        · intro process' found
          cases found
          refine { before with behind := ?_ }
          rw [cursor]
          exact (Nat.sub_lt (Nat.zero_lt_of_lt onward) Nat.one_pos).trans_le within
        · intro chunk member
          rw [cursor]
          obtain old | new := List.mem_append.mp member
          · exact (sound.reached chunk old).trans moved
          · exact (passed chunk.seq).mpr ((mem_response chunk).mp new).2.2

/-- Over every order of the sections of the tasks and of the rounds of the reads. -/
theorem delivers_once_of_run {processId : ProcessId} {session : SessionId} {tty : Bool}
    {events : List Event} {system : System}
    (ran : run System.step (.start processId session tty) events = some system) :
    DeliversOnce system := by
  have kept : ∀ state event next, Sound state → System.step state event = some next →
      Sound next := by
    intro state event next sound stepped
    cases event with
    | task event =>
        obtain ⟨outcome, moved, rfl⟩ := Option.map_eq_some_iff.mp stepped
        exact sound.section (Tasks.section_of_step moved)
    | read maxBytes due =>
        cases stepped
        exact sound.read maxBytes due
  exact (preserved_of_run kept (sound_start processId session tty) ran).toDeliversOnce

/-- A read in front of the exit of a process, and one behind its close. -/
def readTwice : List Event :=
  [.task (.chunk .stdout [104, 105] true), .read (some 0) false, .task (.exit 0 true),
    .task (.chunk .stderr [33] true), .task (.ended .stderr), .task (.ended .stdout),
    .task (.finish .stdout), .task (.finish .stderr), .task (.close .stdout),
    .read (some 0) false, .task (.close .stderr), .task .closeExited]

theorem delivers_once_readTwice :
    ∃ system, run System.step (.start ['p'] 0 false) readTwice = some system ∧
      system.client.received.map RetainedOutputChunk.seq = [1, 3] ∧
      system.log.map Notification.seq = [1, 2, 3, 4] ∧ DeliversOnce system := by
  obtain ⟨system, ran, received, numbered⟩ :
      ∃ system, run System.step (.start ['p'] 0 false) readTwice = some system ∧
        system.client.received.map RetainedOutputChunk.seq = [1, 3] ∧
        system.log.map Notification.seq = [1, 2, 3, 4] := ⟨_, rfl, rfl, rfl⟩
  exact ⟨system, ran, received, numbered, delivers_once_of_run ran⟩

end Reads

end CodexPilot.ExecServer
