import CodexPilot.Library.Tables
import CodexPilot.Library.Transitions
import CodexPilot.RustStd.Text

/-!
# The client of a remote exec server

Calls put an entry into a map of pending requests, write the request, and wait for an answer.  A
reader answers them from what comes in, passes notifications on, and fails what is pending when it
stops.  The event loop turns notifications into changes of the registered sessions, and fails them
when the connection is gone.

The reader drains the map once: a request whose entry is put into the map behind that waits for ever
when the write channel still accepts it, and every other request is answered.  Likewise a session
that is registered behind the end of the event loop is not failed by it.
-/

namespace CodexPilot.ExecServer

open RustStd Tables Transitions

namespace Rpc

/-- `ProcessId`. -/
abbrev ProcessId := Text

/-- `RequestId::Integer`. -/
abbrev RequestId := ℕ

/-- A `SessionState`, by the number of its registration. -/
abbrev SessionKey := ℕ

/-- Where a `call` is. -/
inductive Call where
  | idle
  /-- It has its number. -/
  | numbered
  /-- Its entry is in the map. -/
  | inserted
  /-- Its parameters have been encoded. -/
  | encoded
  /-- It has to take its entry back: the parameters could not be encoded, or the request not
  written. -/
  | withdrawing
  /-- The write channel has accepted its request. -/
  | waiting
  | returned
  deriving DecidableEq

/-- What is sent to a pending request. -/
inductive Answer where
  | result
  | error
  /-- `JSON-RPC transport closed`. -/
  | closed
  deriving DecidableEq

/-- The notifications of the server, as far as the event loop tells them apart. -/
inductive ServerNotification where
  /-- The process is closed. -/
  | closed (processId : ProcessId)
  /-- Another one, which at most wakes a session. -/
  | other
  /-- Its parameters cannot be decoded. -/
  | invalid

/-- `JsonRpcConnectionEvent`, with the kinds of messages. -/
inductive Incoming where
  | response (id : RequestId)
  | error (id : RequestId)
  | notification (notification : ServerNotification)
  | request
  | malformed
  | disconnected

/-- `RpcClientEvent`. -/
inductive RpcClientEvent where
  | notification (notification : ServerNotification)
  | disconnected

/-- Where the reader is: in its loop, in front of the event that it sends behind the loop, or in
front of `drain_pending`. -/
inductive Reader where
  | reading
  | reporting
  | draining
  | finished
  deriving DecidableEq

/-- Where the event loop is; when it fails the sessions, with those that it has taken. -/
inductive EventLoop where
  | running
  | failing (taken : List SessionKey)
  | ended
  deriving DecidableEq

/-- An `ExecServerClient` with its `RpcClient` and the calls on it. -/
structure Client where
  nextRequestId : RequestId
  calls : RequestId → Call
  pending : List RequestId
  answers : List (RequestId × Answer)
  writeOpen : Bool
  reader : Reader
  events : List RpcClientEvent
  eventLoop : EventLoop
  sessions : Table ProcessId SessionKey
  nextSession : SessionKey
  failures : List SessionKey

/-- One step of a call, of one of the two loops, or of their environment. -/
inductive Event where
  /-- A call takes its number. -/
  | number
  /-- It puts its entry into the map. -/
  | insert (id : RequestId)
  /-- It encodes its parameters, or cannot. -/
  | encode (id : RequestId) (encodes : Bool)
  /-- It writes its request. -/
  | send (id : RequestId)
  /-- It takes its entry back. -/
  | withdraw (id : RequestId)
  /-- It takes its answer. -/
  | receive (id : RequestId)
  /-- The transport stops to accept requests. -/
  | closeWrite
  /-- The reader takes what comes in. -/
  | incoming (incoming : Incoming)
  /-- The channel of what comes in is closed. -/
  | hangUp
  /-- The reader reports that the connection is gone. -/
  | report
  /-- `drain_pending`. -/
  | drain
  /-- The event loop takes its next event. -/
  | handle
  /-- It fails the next session, or is done. -/
  | fail
  /-- `register_session`. -/
  | register (processId : ProcessId)
  /-- `unregister_session`. -/
  | unregister (processId : ProcessId)
  /-- A read of a session has found the transport closed. -/
  | readClosed (session : SessionKey)

namespace Client

/-- `connect`. -/
def new : Client where
  nextRequestId := 1
  calls := fun _ => .idle
  pending := []
  answers := []
  writeOpen := true
  reader := .reading
  events := []
  eventLoop := .running
  sessions := ∅
  nextSession := 0
  failures := []

/-- A call goes from one place to another. -/
def move (client : Client) (id : RequestId) (source target : Call) : Option Client :=
  if client.calls id = source then
    some
      { client with calls := Function.update client.calls id target }
  else none

/-- Send an answer to a pending request, if there is one. -/
def answer (client : Client) (id : RequestId) (answer : Answer) : Client :=
  if id ∈ client.pending then
    { client with
      pending := client.pending.filter (· ≠ id)
      answers := client.answers ++ [(id, answer)] }
  else client

/-- `handle_server_message`, and the events that end the loop. -/
def handleIncoming (client : Client) : Incoming → Client
  | .response id => client.answer id .result
  | .error id => client.answer id .error
  | .notification notification =>
      { client with events := client.events ++ [.notification notification] }
  | .request | .malformed | .disconnected =>
      { client with reader := .reporting }

/-- `take_all_sessions`. -/
def takeAllSessions (client : Client) : Client :=
  { client with eventLoop := .failing (client.sessions.entries.map Sigma.snd), sessions := ∅ }

/-- What the event loop does with an event. -/
def handleEvent (client : Client) : RpcClientEvent → Client
  | .notification (.closed processId) =>
      { client with sessions := client.sessions.erase processId }
  | .notification .other => client
  | .notification .invalid | .disconnected => client.takeAllSessions

/-- Take a step. -/
def step (client : Client) : Event → Option Client
  | .number =>
      some
        { client with
          nextRequestId := client.nextRequestId + 1
          calls := Function.update client.calls client.nextRequestId .numbered }
  | .insert id =>
      (client.move id .numbered .inserted).map fun client =>
        { client with pending := id :: client.pending }
  | .encode id encodes => client.move id .inserted (if encodes then .encoded else .withdrawing)
  | .send id => client.move id .encoded (if client.writeOpen then .waiting else .withdrawing)
  | .withdraw id =>
      (client.move id .withdrawing .returned).map fun client =>
        { client with pending := client.pending.filter (· ≠ id) }
  | .receive id =>
      if id ∈ client.answers.map Prod.fst then client.move id .waiting .returned else none
  | .closeWrite =>
      some
        { client with writeOpen := false }
  | .incoming incoming =>
      if client.reader = .reading then some (client.handleIncoming incoming) else none
  | .hangUp =>
      if client.reader = .reading then
        some
          { client with reader := .reporting }
      else none
  | .report =>
      if client.reader = .reporting then
        some
          { client with reader := .draining, events := client.events ++ [.disconnected] }
      else none
  | .drain =>
      if client.reader = .draining then
        some
          { client with
            reader := .finished
            pending := []
            answers := client.answers ++ client.pending.map fun id => (id, .closed) }
      else none
  | .handle =>
      match client.eventLoop, client.events with
      | .running, event :: events =>
          let popped : Client :=
            { client with events }
          some (popped.handleEvent event)
      | _, _ => none
  | .fail =>
      match client.eventLoop with
      | .failing (session :: taken) =>
          some
            { client with eventLoop := .failing taken, failures := client.failures ++ [session] }
      | .failing [] =>
          some
            { client with eventLoop := .ended }
      | .running | .ended => none
  | .register processId =>
      if (client.sessions.lookup processId).isSome then some client
      else
        some
          { client with
            sessions := client.sessions.insert processId client.nextSession
            nextSession := client.nextSession + 1 }
  | .unregister processId =>
      some
        { client with sessions := client.sessions.erase processId }
  | .readClosed session =>
      some
        { client with failures := client.failures ++ [session] }

end Client

/-- No call whose request has been accepted waits in the map of a reader that has finished. -/
def AnswersCalls (client : Client) : Prop :=
  client.reader = .finished → ∀ id, client.calls id = .waiting → id ∉ client.pending

/-- No session is registered without a failure when the event loop has ended. -/
def FailsSessions (client : Client) : Prop :=
  client.eventLoop = .ended → ∀ processId session,
    client.sessions.lookup processId = some session → session ∈ client.failures

/-- The request that a step writes. -/
def Event.sending : Event → Option RequestId
  | .send id => some id
  | .number | .insert _ | .encode .. | .withdraw _ | .receive _ | .closeWrite | .incoming _
  | .hangUp | .report | .drain | .handle | .fail | .register _ | .unregister _
  | .readClosed _ => none

/-- No request is accepted whose entry has been put into the map behind the drain. -/
def AcceptsInTime (client : Client) (event : Event) : Prop :=
  ∀ id ∈ event.sending, client.calls id = .encoded → client.writeOpen = true →
    client.reader = .finished → id ∉ client.pending

instance : DecidableRel AcceptsInTime := fun client event =>
  inferInstanceAs (Decidable (∀ id ∈ event.sending, client.calls id = .encoded →
    client.writeOpen = true → client.reader = .finished → id ∉ client.pending))

def Event.isRegister : Event → Bool
  | .register _ => true
  | .number | .insert _ | .encode .. | .send _ | .withdraw _ | .receive _ | .closeWrite
  | .incoming _ | .hangUp | .report | .drain | .handle | .fail | .unregister _
  | .readClosed _ => false

/-- No session is registered when the event loop has taken the sessions. -/
def RegistersInTime (client : Client) (event : Event) : Prop :=
  event.isRegister = true → client.eventLoop = .running

instance : DecidableRel RegistersInTime := fun _ _ => inferInstanceAs (Decidable (_ → _))

/-! ## Calls on a dead connection -/

section Calls

variable {client next : Client} {event : Event} {id : RequestId}

/-- A step that neither lets a call wait nor puts an entry into the map keeps what is answered. -/
theorem AnswersCalls.of_le (answers : AnswersCalls client)
    (reader : next.reader = .finished → client.reader = .finished)
    (calls : ∀ id, next.calls id = .waiting → client.calls id = .waiting)
    (pending : next.pending ⊆ client.pending) : AnswersCalls next :=
  fun finished id waiting member => answers (reader finished) id (calls id waiting) (pending member)

theorem move_eq_some {source target : Call} (moved : client.move id source target = some next) :
    client.calls id = source ∧
      next = { client with calls := Function.update client.calls id target } := by
  rw [Client.move] at moved
  split at moved
  case isTrue same =>
    cases moved
    exact ⟨same, rfl⟩
  case isFalse => cases moved

/-- A call that goes somewhere else than to wait does not wait. -/
theorem waiting_of_update {calls : RequestId → Call} {target : Call} (elsewhere : target ≠ .waiting)
    (other : RequestId) (waiting : Function.update calls id target other = .waiting) :
    other ≠ id ∧ calls other = .waiting := by
  obtain rfl | apart := eq_or_ne other id
  · rw [Function.update_self] at waiting
    exact absurd waiting elsewhere
  · rw [Function.update_of_ne apart] at waiting
    exact ⟨apart, waiting⟩

theorem AnswersCalls.answer (answers : AnswersCalls client) (id : RequestId) (answer : Answer) :
    AnswersCalls (client.answer id answer) := by
  rw [Client.answer]
  split
  · exact answers.of_le (fun finished => finished) (fun _ waiting => waiting)
      (List.filter_subset_self _)
  · exact answers

/-- The write of a request leaves no call unanswered exactly when the request is accepted in time.
-/
theorem answersCalls_send_iff (answers : AnswersCalls client)
    (stepped : client.step (.send id) = some next) :
    AnswersCalls next ↔ AcceptsInTime client (.send id) := by
  obtain ⟨encoded, rfl⟩ := move_eq_some stepped
  cases writeOpen : client.writeOpen with
  | true =>
      constructor
      · intro answers' other sending _ _ finished
        cases sending
        exact answers' finished id (Function.update_self ..)
      · intro inTime finished other waiting
        obtain rfl | apart := eq_or_ne other id
        · exact inTime other rfl encoded writeOpen finished
        · exact answers finished other ((Function.update_of_ne apart ..).symm.trans waiting)
  | false =>
      refine iff_of_true ?_ ?_
      · exact answers.of_le (fun finished => finished)
          (fun other waiting => (waiting_of_update (by simp) other waiting).2)
          (List.Subset.refl _)
      · intro other _ _ accepts
        cases writeOpen.symm.trans accepts

/-- A call that does not go to wait leaves no call unanswered. -/
theorem AnswersCalls.update (answers : AnswersCalls client) (id : RequestId) {target : Call}
    (elsewhere : target ≠ .waiting) :
    AnswersCalls { client with calls := Function.update client.calls id target } :=
  answers.of_le (fun finished => finished)
    (fun other waiting => (waiting_of_update elsewhere other waiting).2) (List.Subset.refl _)

/-- No step but a write leaves a call unanswered. -/
theorem AnswersCalls.step (answers : AnswersCalls client) (sending : event.sending = none)
    (stepped : client.step event = some next) : AnswersCalls next := by
  have same {client' : Client} (reader : client'.reader = client.reader)
      (calls : client'.calls = client.calls) (pending : client'.pending = client.pending) :
      AnswersCalls client' :=
    answers.of_le (fun finished => reader ▸ finished) (fun _ waiting => calls ▸ waiting)
      (pending ▸ List.Subset.refl _)
  cases event with
  | send id => cases sending
  | number =>
      cases stepped
      exact answers.of_le (fun finished => finished)
        (fun other waiting => (waiting_of_update (by simp) other waiting).2) (List.Subset.refl _)
  | insert id =>
      obtain ⟨moved, going, rfl⟩ := Option.map_eq_some_iff.mp stepped
      obtain ⟨-, rfl⟩ := move_eq_some going
      intro finished other waiting member
      obtain ⟨apart, waiting'⟩ := waiting_of_update (by simp) other waiting
      obtain rfl | among := List.mem_cons.mp member
      · exact apart rfl
      · exact answers finished other waiting' among
  | encode id encodes =>
      obtain ⟨-, rfl⟩ := move_eq_some stepped
      refine answers.update id ?_
      split <;> simp
  | withdraw id =>
      obtain ⟨moved, going, rfl⟩ := Option.map_eq_some_iff.mp stepped
      obtain ⟨-, rfl⟩ := move_eq_some going
      exact answers.of_le (fun finished => finished)
        (fun other waiting => (waiting_of_update (by simp) other waiting).2)
        (List.filter_subset_self _)
  | receive id =>
      simp only [Client.step] at stepped
      split at stepped
      case isTrue =>
        obtain ⟨-, rfl⟩ := move_eq_some stepped
        exact answers.update id (by simp)
      case isFalse => cases stepped
  | incoming incoming =>
      simp only [Client.step] at stepped
      split at stepped
      case isTrue =>
        cases stepped
        cases incoming with
        | response id => exact answers.answer id .result
        | error id => exact answers.answer id .error
        | notification => exact same rfl rfl rfl
        | request | malformed | disconnected => exact fun finished => by cases finished
      case isFalse => cases stepped
  | hangUp | report =>
      simp only [Client.step] at stepped
      split at stepped
      case isTrue =>
        cases stepped
        exact fun finished => by cases finished
      case isFalse => cases stepped
  | drain =>
      simp only [Client.step] at stepped
      split at stepped
      case isTrue =>
        cases stepped
        exact fun _ id _ => List.not_mem_nil
      case isFalse => cases stepped
  | handle =>
      simp only [Client.step] at stepped
      split at stepped
      case h_1 event events _ _ =>
        cases stepped
        match event with
        | .notification (.closed processId) | .notification .other
        | .notification .invalid | .disconnected => exact same rfl rfl rfl
      case h_2 => cases stepped
  | fail =>
      simp only [Client.step] at stepped
      split at stepped
      case h_1 | h_2 =>
        cases stepped
        exact same rfl rfl rfl
      all_goals cases stepped
  | register processId =>
      simp only [Client.step] at stepped
      split at stepped
      case isTrue =>
        cases stepped
        exact answers
      case isFalse =>
        cases stepped
        exact same rfl rfl rfl
  | closeWrite | unregister | readClosed =>
      cases stepped
      exact same rfl rfl rfl

theorem answersCalls_step_iff (answers : AnswersCalls client)
    (stepped : client.step event = some next) : AnswersCalls next ↔ AcceptsInTime client event := by
  cases sending : event.sending with
  | none =>
      refine iff_of_true (answers.step sending stepped) fun id sends => ?_
      cases sending.symm.trans sends
  | some id =>
      cases event with
      | send => exact answersCalls_send_iff answers stepped
      | number | insert | encode | withdraw | receive | closeWrite | incoming | hangUp | report
      | drain | handle | fail | register | unregister | readClosed => cases sending

end Calls

/-! ## Sessions -/

section Sessions

variable {client next : Client} {event : Event}

/-- When the event loop has taken the sessions, none is registered. -/
def Emptied (client : Client) : Prop :=
  client.eventLoop ≠ .running → ∀ processId, client.sessions.lookup processId = none

theorem Emptied.failsSessions (emptied : Emptied client) : FailsSessions client := by
  intro ended processId session found
  have none := emptied (by rw [ended]; simp) processId
  cases none.symm.trans found

theorem emptied_erase (emptied : Emptied client) (processId : ProcessId) :
    Emptied { client with sessions := client.sessions.erase processId } := by
  intro gone other
  obtain rfl | apart := eq_or_ne other processId
  · exact AList.lookup_erase other client.sessions
  · exact (AList.lookup_erase_ne apart).trans (emptied gone other)

theorem Emptied.step (emptied : Emptied client) (inTime : RegistersInTime client event)
    (stepped : client.step event = some next) : Emptied next := by
  have same {client' : Client} (eventLoop : client'.eventLoop = client.eventLoop)
      (sessions : client'.sessions = client.sessions) : Emptied client' := by
    intro gone processId
    rw [sessions]
    exact emptied (eventLoop ▸ gone) processId
  have moved {id : RequestId} {source target : Call} {client' : Client}
      (going : client.move id source target = some client') : Emptied client' := by
    obtain ⟨-, rfl⟩ := move_eq_some going
    exact same rfl rfl
  cases event with
  | number | closeWrite | readClosed =>
      cases stepped
      exact same rfl rfl
  | insert id | withdraw id =>
      obtain ⟨client', going, rfl⟩ := Option.map_eq_some_iff.mp stepped
      have emptied' : Emptied client' := moved going
      exact fun gone => emptied' gone
  | encode | send => exact moved stepped
  | receive id =>
      simp only [Client.step] at stepped
      split at stepped
      case isTrue => exact moved stepped
      case isFalse => cases stepped
  | incoming incoming =>
      simp only [Client.step] at stepped
      split at stepped
      case isTrue =>
        cases stepped
        cases incoming with
        | response id | error id =>
            simp only [Client.handleIncoming, Client.answer]
            split
            · exact same rfl rfl
            · exact emptied
        | notification | request | malformed | disconnected => exact same rfl rfl
      case isFalse => cases stepped
  | hangUp | report | drain =>
      simp only [Client.step] at stepped
      split at stepped
      case isTrue =>
        cases stepped
        exact same rfl rfl
      case isFalse => cases stepped
  | handle =>
      simp only [Client.step] at stepped
      split at stepped
      case h_1 event events running _ =>
        cases stepped
        match event with
        | .notification (.closed processId) => exact emptied_erase emptied processId
        | .notification .other => exact same rfl rfl
        | .notification .invalid | .disconnected => exact fun _ processId => AList.lookup_empty _
      case h_2 => cases stepped
  | fail =>
      simp only [Client.step] at stepped
      split at stepped
      case h_1 failing | h_2 failing =>
        cases stepped
        exact fun _ => emptied (by rw [failing]; simp)
      all_goals cases stepped
  | register processId =>
      have running : client.eventLoop = .running := inTime rfl
      simp only [Client.step] at stepped
      split at stepped
      case isTrue =>
        cases stepped
        exact emptied
      case isFalse =>
        cases stepped
        exact fun gone => absurd running gone
  | unregister processId =>
      cases stepped
      exact emptied_erase emptied processId

end Sessions

/-- In every state on the way all calls on a dead connection are answered exactly when no request is
accepted whose entry has been put into the map behind the drain; and all sessions are failed when
none is registered behind the end of the event loop. -/
theorem answers_and_fails_of_run (events : List Event) :
    (Along Client.step AcceptsInTime .new events ↔
      ∀ before, before <+: events → ∀ client, run Client.step .new before = some client →
        AnswersCalls client) ∧
      (Along Client.step RegistersInTime .new events →
        ∀ before, before <+: events → ∀ client, run Client.step .new before = some client →
          FailsSessions client) := by
  constructor
  · have exactly : ∀ client event next, AnswersCalls client → Client.step client event = some next →
        (AnswersCalls next ↔ AcceptsInTime client event) :=
      fun client event next answers stepped => answersCalls_step_iff answers stepped
    exact along_iff_invariant exactly fun finished => by cases finished
  · rintro along before ⟨after, rfl⟩ client ran
    have kept : ∀ client event next, Emptied client → RegistersInTime client event →
        Client.step client event = some next → Emptied next :=
      fun client event next emptied inTime stepped => emptied.step inTime stepped
    have start : Emptied .new := fun gone => absurd rfl gone
    exact (invariant_of_run kept start (along_append ran along).1 ran).failsSessions

/-- A malformed message stops the reader while a call has its entry in the map; its request is
accepted behind the drain. -/
def calledAhead : List Event :=
  [.register ['p'], .number, .insert 1, .encode 1 true, .incoming .malformed, .report, .drain,
    .send 1, .receive 1, .handle, .fail, .fail]

theorem answers_and_fails_calledAhead :
    ∀ before, before <+: calledAhead → ∀ client, run Client.step .new before = some client →
      AnswersCalls client ∧ FailsSessions client := by
  intro before isPrefix client ran
  obtain ⟨answers, fails⟩ := answers_and_fails_of_run calledAhead
  exact ⟨answers.mp (by decide) before isPrefix client ran,
    fails (by decide) before isPrefix client ran⟩

/-- A malformed message stops the reader; then a call is made, and a session is registered. -/
def calledBehind : List Event :=
  [.incoming .malformed, .report, .drain, .handle, .fail, .number, .insert 1, .encode 1 true,
    .send 1, .register ['p']]

/-- The call waits, and the session is registered, and nobody answers the one or fails the other. -/
theorem not_answers_calledBehind :
    ∃ client, run Client.step .new calledBehind = some client ∧ client.reader = .finished ∧
      client.calls 1 = .waiting ∧ 1 ∈ client.pending ∧ client.eventLoop = .ended ∧
      client.sessions.lookup ['p'] = some 0 ∧ client.failures = [] ∧
      ¬AnswersCalls client ∧ ¬FailsSessions client := by
  refine ⟨_, rfl, rfl, rfl, List.mem_singleton_self _, rfl, rfl, rfl, fun answers => ?_,
    fun fails => ?_⟩
  · exact answers rfl 1 rfl (List.mem_singleton_self _)
  · cases fails rfl ['p'] 0 rfl

end Rpc

end CodexPilot.ExecServer
