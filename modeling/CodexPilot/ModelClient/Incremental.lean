import CodexPilot.Library.Transitions
import CodexPilot.RustStd.Text

/-!
# Incremental requests on a websocket

A request whose input extends the last request and its response is sent as the new items alone, with
the id of that response.  The server answers it from what it remembers under the id.  Requests,
streamed responses, lost connections and resets come in any order, and the server never reads
anything but the full input.
-/

namespace CodexPilot.ModelClient

open RustStd Transitions

/-- `ResponsesApiRequest`: its input, and the other fields. -/
structure ResponsesApiRequest (ι π : Type*) where
  input : List ι
  properties : π

/-- `LastResponse`. -/
structure LastResponse (ι : Type*) where
  responseId : Text
  itemsAdded : List ι

/-- `ResponseCreateWsRequest` without its `client_metadata`, which no decision reads. -/
structure ResponseCreateWsRequest (ι π : Type*) where
  previousResponseId : Option Text
  input : List ι
  properties : π
  generate : Option Bool

variable {ι π : Type*}

/-- `ResponseCreateWsRequest::from`, and `generate` for a warm-up. -/
def wsPayload (request : ResponsesApiRequest ι π) (warmup : Bool) : ResponseCreateWsRequest ι π :=
  ⟨none, request.input, request.properties, if warmup then some false else none⟩

/-- A streamed response: the task of `map_response_stream` with the items it has seen and what it
has put into the oneshot channel, and what the server answers. -/
structure ResponseStream (ι : Type*) where
  connection : ℕ
  context : List ι
  itemsAdded : List ι
  lastResponse : Option (LastResponse ι)

/-- `WebsocketSession`.  The receiving half of the oneshot channel is the index of its stream. -/
structure WebsocketSession (ι π : Type*) where
  connection : Option ℕ
  lastRequest : Option (ResponsesApiRequest ι π)
  lastResponseRx : Option ℕ

/-- The session, the connections opened so far, the streams, what the server remembers on each
connection, and every request with the input the server read for it. -/
structure Exchange (ι π : Type*) where
  session : WebsocketSession ι π
  connections : ℕ
  streams : List (ResponseStream ι)
  memory : List ((ℕ × Text) × List ι)
  sent : List (ResponsesApiRequest ι π × Option (List ι))

/-- A session without a connection. -/
def start : Exchange ι π := ⟨⟨none, none, none⟩, 0, [], [], []⟩

/-- The input the server reads: what it remembers under the id, and then the items sent. -/
def understood (memory : List ((ℕ × Text) × List ι)) (connection : ℕ)
    (request : ResponseCreateWsRequest ι π) : Option (List ι) :=
  match request.previousResponseId with
  | none => some request.input
  | some id => (memory.lookup (connection, id)).map (· ++ request.input)

section Client

variable [DecidableEq ι] [DecidableEq π]

/-- `get_incremental_items`. -/
def getIncrementalItems (lastRequest : Option (ResponsesApiRequest ι π))
    (request : ResponsesApiRequest ι π) (lastResponse : Option (LastResponse ι))
    (allowEmptyDelta : Bool) : Option (List ι) :=
  match lastRequest with
  | none => none
  | some previousRequest =>
      if previousRequest.properties ≠ request.properties then none
      else
        let baseline := previousRequest.input ++ (lastResponse.map (·.itemsAdded)).getD []
        if baseline <+: request.input ∧
            (allowEmptyDelta ∨ baseline.length < request.input.length) then
          some (request.input.drop baseline.length)
        else none

/-- `get_last_response`: what the channel holds; the session no longer has the receiver. -/
def getLastResponse (state : Exchange ι π) : Option (LastResponse ι) :=
  state.session.lastResponseRx.bind fun index => (state.streams[index]?).bind (·.lastResponse)

/-- `prepare_websocket_request`. -/
def prepareWebsocketRequest (state : Exchange ι π) (payload : ResponseCreateWsRequest ι π)
    (request : ResponsesApiRequest ι π) : ResponseCreateWsRequest ι π :=
  match getLastResponse state with
  | none => payload
  | some lastResponse =>
      match getIncrementalItems state.session.lastRequest request (some lastResponse) true with
      | none => payload
      | some incrementalItems =>
          if lastResponse.responseId.isEmpty then payload
          else
            { payload with
              previousResponseId := some lastResponse.responseId
              input := incrementalItems }

/-- What happens to a session and to the streams of its responses. -/
inductive Step (ι π : Type*)
  /-- `websocket_connection` finds no open connection, and opens one. -/
  | connect
  /-- The new connection fails or times out. -/
  | connectFails (timeout : Bool)
  /-- `reset_websocket_session`. -/
  | resetWebsocketSession
  /-- The end of `stream_responses_websocket`; `fails` when `stream_request` does. -/
  | streamRequest (request : ResponsesApiRequest ι π) (warmup fails : Bool)
  /-- An item of a response that is not completed. -/
  | outputItemDone (stream : ℕ) (item : ι)
  /-- The response is completed under an id. -/
  | completed (stream : ℕ) (responseId : Text)

/-- One step.  The server is taken to remember, under the id of a completed response, the input that
it read for it and the items that it streamed, and to give no id to two responses of one
connection. -/
def step (state : Exchange ι π) : Step ι π → Option (Exchange ι π)
  | .connect =>
      some { state with
        session := ⟨some state.connections, none, none⟩
        connections := state.connections + 1 }
  | .connectFails timeout =>
      some { state with
        session := ⟨if timeout then none else state.session.connection, none, none⟩ }
  | .resetWebsocketSession => some { state with session := ⟨none, none, none⟩ }
  | .streamRequest request warmup fails =>
      match state.session.connection with
      | none => none
      | some connection =>
          let wsRequest := prepareWebsocketRequest state (wsPayload request warmup) request
          let read := understood state.memory connection wsRequest
          let sent := state.sent ++ [(request, read)]
          if fails then
            some { state with session := ⟨some connection, some request, none⟩, sent }
          else
            some { state with
              session := ⟨some connection, some request, some state.streams.length⟩
              streams := state.streams ++ [⟨connection, read.getD [], [], none⟩]
              sent }
  | .outputItemDone stream item =>
      match state.streams[stream]? with
      | some ⟨connection, context, itemsAdded, none⟩ =>
          some { state with
            streams := state.streams.set stream ⟨connection, context, itemsAdded ++ [item], none⟩ }
      | _ => none
  | .completed stream responseId =>
      match state.streams[stream]? with
      | some ⟨connection, context, itemsAdded, none⟩ =>
          if (state.memory.lookup (connection, responseId)).isSome then none
          else
            some { state with
              streams := state.streams.set stream
                ⟨connection, context, [], some ⟨responseId, itemsAdded⟩⟩
              memory := ((connection, responseId), context ++ itemsAdded) :: state.memory }
      | _ => none

end Client

/-! ## What the server reads -/

/-- The server remembers a response under its id as the client has it. -/
def Remembered (memory : List ((ℕ × Text) × List ι)) (stream : ResponseStream ι) : Prop :=
  ∀ lastResponse, stream.lastResponse = some lastResponse →
    memory.lookup (stream.connection, lastResponse.responseId) =
      some (stream.context ++ lastResponse.itemsAdded)

/-- The response the session waits for answers its last request, on its connection. -/
def Paired (session : WebsocketSession ι π) (streams : List (ResponseStream ι)) : Prop :=
  ∀ index, session.lastResponseRx = some index →
    ∃ stream, streams[index]? = some stream ∧ session.connection = some stream.connection ∧
      ∃ request, session.lastRequest = some request ∧ stream.context = request.input

/-- The session knows what the server remembers. -/
structure Synchronised (state : Exchange ι π) : Prop where
  remembered : ∀ stream ∈ state.streams, Remembered state.memory stream
  paired : Paired state.session state.streams
  sent : ∀ exchange ∈ state.sent, exchange.2 = some exchange.1.input

variable {memory : List ((ℕ × Text) × List ι)} {session : WebsocketSession ι π}
  {streams : List (ResponseStream ι)} {stream later : ResponseStream ι}

theorem paired_of_none (none : session.lastResponseRx = none) : Paired session streams := by
  intro index waiting
  rw [none] at waiting
  cases waiting

/-- A new id hides nothing the server remembers. -/
theorem Remembered.cons (remembered : Remembered memory stream) {key : ℕ × Text} {items : List ι}
    (fresh : memory.lookup key = none) : Remembered ((key, items) :: memory) stream := by
  intro lastResponse received
  have found := remembered lastResponse received
  rw [List.lookup_cons, found]
  split
  · rename_i same
    rw [eq_of_beq same, fresh] at found
    cases found
  · rfl

variable {state next : Exchange ι π}

/-- A stream that moves on keeps what it answers. -/
theorem Synchronised.advance (synchronised : Synchronised state) {index : ℕ}
    (found : state.streams[index]? = some stream) (connection : later.connection = stream.connection)
    (context : later.context = stream.context)
    (grows : ∀ other, Remembered state.memory other → Remembered memory other)
    (own : Remembered memory later) :
    Synchronised { state with streams := state.streams.set index later, memory } where
  remembered := by
    intro other member
    obtain earlier | rfl := List.mem_or_eq_of_mem_set member
    · exact grows other (synchronised.remembered other earlier)
    · exact own
  paired := by
    intro other waiting
    obtain ⟨answer, read, sameConnection, request, lastRequest, sameContext⟩ :=
      synchronised.paired other waiting
    obtain rfl | apart := eq_or_ne index other
    · cases found.symm.trans read
      have bound := (List.getElem?_eq_some_iff.mp found).1
      refine ⟨later, List.getElem?_set_self bound, ?_, request, lastRequest, ?_⟩
      · rw [connection, sameConnection]
      · rw [context, sameContext]
    · refine ⟨answer, ?_, sameConnection, request, lastRequest, sameContext⟩
      rw [List.getElem?_set_ne apart, read]
  sent := synchronised.sent

variable [DecidableEq ι] [DecidableEq π]

/-- The items sent are what the input has behind the baseline. -/
theorem input_of_getIncrementalItems {lastRequest request : ResponsesApiRequest ι π}
    {lastResponse : LastResponse ι} {allowEmptyDelta : Bool} {items : List ι}
    (incremental : getIncrementalItems (some lastRequest) request (some lastResponse)
      allowEmptyDelta = some items) :
    request.input = lastRequest.input ++ lastResponse.itemsAdded ++ items := by
  simp only [getIncrementalItems, Option.map_some, Option.getD_some] at incremental
  split_ifs at incremental with properties extends'
  obtain ⟨rest, split⟩ := extends'.1
  cases incremental
  rw [← split, List.drop_left]

theorem understood_prepareWebsocketRequest (synchronised : Synchronised state) {connection : ℕ}
    (connected : state.session.connection = some connection)
    (request : ResponsesApiRequest ι π) (warmup : Bool) :
    understood state.memory connection
      (prepareWebsocketRequest state (wsPayload request warmup) request) = some request.input := by
  have full : understood state.memory connection (wsPayload request warmup) =
      some request.input := rfl
  rw [prepareWebsocketRequest]
  split
  · exact full
  · rename_i lastResponse received
    obtain ⟨index, waiting, received⟩ := Option.bind_eq_some_iff.mp received
    obtain ⟨stream, read, sameConnection, previous, lastRequest, context⟩ :=
      synchronised.paired index waiting
    rw [read, Option.bind_some] at received
    have remembered :=
      synchronised.remembered stream (List.mem_of_getElem? read) lastResponse received
    cases connected.symm.trans sameConnection
    split
    · exact full
    · rename_i items incremental
      rw [lastRequest] at incremental
      split
      · exact full
      · rw [input_of_getIncrementalItems incremental]
        simp [understood, remembered, context]

theorem synchronised_step {action : Step ι π} (synchronised : Synchronised state)
    (stepped : step state action = some next) : Synchronised next := by
  cases action with
  | connect | connectFails | resetWebsocketSession =>
      cases stepped
      exact { synchronised with paired := paired_of_none rfl }
  | streamRequest request warmup fails =>
      simp only [step] at stepped
      cases connected : state.session.connection with
      | none => simp [connected] at stepped
      | some connection =>
          have read := understood_prepareWebsocketRequest synchronised connected request warmup
          simp only [connected, read, Option.getD_some] at stepped
          have sent : ∀ exchange ∈ state.sent ++ [(request, some request.input)],
              exchange.2 = some exchange.1.input := by
            intro exchange member
            obtain earlier | last := List.mem_append.mp member
            · exact synchronised.sent exchange earlier
            · rw [List.mem_singleton.mp last]
          split at stepped
          · cases stepped
            exact ⟨synchronised.remembered, paired_of_none rfl, sent⟩
          · cases stepped
            refine ⟨?_, ?_, sent⟩
            · intro stream member
              obtain earlier | last := List.mem_append.mp member
              · exact synchronised.remembered stream earlier
              · rw [List.mem_singleton.mp last]
                exact fun _ impossible => nomatch impossible
            · intro index waiting
              cases waiting
              exact ⟨_, List.getElem?_concat_length, rfl, request, rfl, rfl⟩
  | outputItemDone index item =>
      simp only [step] at stepped
      split at stepped
      · rename_i found
        cases stepped
        refine synchronised.advance found ?_ ?_ (fun _ remembered => remembered) ?_
        · rfl
        · rfl
        · exact fun _ impossible => nomatch impossible
      · cases stepped
  | completed index responseId =>
      simp only [step] at stepped
      split at stepped
      · rename_i found
        split at stepped
        · cases stepped
        · rename_i fresh
          cases stepped
          refine synchronised.advance found ?_ ?_ (fun _ remembered => remembered.cons ?_) ?_
          · rfl
          · rfl
          · exact Option.not_isSome_iff_eq_none.mp fresh
          · intro lastResponse received
            cases received
            exact List.lookup_cons_self
      · cases stepped

/-- Whatever the order of requests, events of the responses, lost connections and resets, the server
reads exactly the full input for every request. -/
theorem understood_of_run {steps : List (Step ι π)} (ran : run step start steps = some state) :
    ∀ exchange ∈ state.sent, exchange.2 = some exchange.1.input := by
  have synchronised : Synchronised (start : Exchange ι π) := by
    refine ⟨?_, paired_of_none rfl, ?_⟩
    · exact fun stream member => absurd member List.not_mem_nil
    · exact fun exchange member => absurd member List.not_mem_nil
  exact (preserved_of_run (fun _ _ _ kept stepped => synchronised_step kept stepped)
    synchronised ran).sent

/-- A response of one item, and a request that goes on from it. -/
def continuedTurn : List (Step ℕ Unit) :=
  [.connect, .streamRequest ⟨[1], ()⟩ false false, .outputItemDone 0 2, .completed 0 ['r'],
    .streamRequest ⟨[1, 2, 3], ()⟩ false false]

theorem understood_of_run_continuedTurn :
    ∃ reached, run step start continuedTurn = some reached ∧
      ∀ exchange ∈ reached.sent, exchange.2 = some exchange.1.input := by
  obtain ⟨reached, ran⟩ : ∃ reached, run step start continuedTurn = some reached := ⟨_, rfl⟩
  exact ⟨reached, ran, understood_of_run ran⟩

end CodexPilot.ModelClient
