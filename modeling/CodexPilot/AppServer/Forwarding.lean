import CodexPilot.Library.Transitions
import CodexPilot.RustStd.Text
import Mathlib.Algebra.Group.Nat.Defs

/-!
# Forwarding app-server events

The worker of the in-process client passes the events of the runtime on to a bounded queue.  It
waits for room with the events that must not be lost, drops the others when the queue is full, and
puts a marker with their number before the next event that fits.  The consumer takes events from the
queue between any two operations of the worker on it, or goes away.
-/

namespace CodexPilot.AppServer

open RustStd Transitions

/-- The notifications by their methods. -/
inductive Method
  | turnCompleted
  | itemCompleted
  | agentMessageDelta
  | planDelta
  | reasoningSummaryTextDelta
  | reasoningTextDelta
  | other (name : Text)

/-- `ServerNotification`. -/
structure ServerNotification (π : Type*) where
  method : Method
  params : π

/-- `ServerRequest`: its id, and whether it is a `ChatgptAuthTokensRefresh`. -/
structure ServerRequest (ρ : Type*) where
  requestId : ρ
  chatgptAuthTokensRefresh : Bool

/-- `InProcessServerEvent`. -/
inductive InProcessServerEvent (ρ π : Type*)
  | serverRequest (request : ServerRequest ρ)
  | serverNotification (notification : ServerNotification π)
  | lagged (skipped : ℕ)

variable {ρ π : Type*}

/-- Events in their order. -/
abbrev Events (ρ π : Type*) := List (InProcessServerEvent ρ π)

/-- The notifications that survive backpressure. -/
def serverNotificationRequiresDelivery (notification : ServerNotification π) : Bool :=
  match notification.method with
  | .turnCompleted | .itemCompleted | .agentMessageDelta | .planDelta
  | .reasoningSummaryTextDelta | .reasoningTextDelta => true
  | .other _ => false

/-- `event_requires_delivery`. -/
def eventRequiresDelivery : InProcessServerEvent ρ π → Bool
  | .serverNotification notification => serverNotificationRequiresDelivery notification
  | _ => false

/-- The request in an event, which waits for an answer. -/
def request? : InProcessServerEvent ρ π → Option (ServerRequest ρ)
  | .serverRequest request => some request
  | _ => none

/-- `saturating_add` of one to a `usize`. -/
def saturatingSucc (count : ℕ) : ℕ := min (count + 1) (2 ^ 64 - 1)

/-- Where the worker stands: its next operation on the queue is for this event. -/
inductive Phase (ρ π : Type*)
  | idle
  | flushing (event : InProcessServerEvent ρ π)
  | sending (event : InProcessServerEvent ρ π)
  /-- `ForwardEventResult::DisableStream`: the consumer was gone. -/
  | disabled (event : InProcessServerEvent ρ π)

/-- The event that is neither in the queue nor dropped. -/
def Phase.events : Phase ρ π → Events ρ π
  | .idle => []
  | .flushing event | .sending event | .disabled event => [event]

/-- The worker, the queue and the consumer, with what has passed each of them so far. -/
structure Forwarding (ρ π : Type*) where
  channelCapacity : ℕ
  /-- What the worker took to pass it on. -/
  taken : Events ρ π
  phase : Phase ρ π
  skippedEvents : ℕ
  queue : Events ρ π
  received : Events ρ π
  /-- `fail_server_request` with the code -32001: the queue was full. -/
  rejected : List (ServerRequest ρ)
  /-- `fail_server_request` with the code -32000: tokens are not refreshed in process. -/
  unsupported : List (ServerRequest ρ)
  closed : Bool

/-- `InProcessAppServerClient::start`. -/
def start (channelCapacity : ℕ) : Forwarding ρ π :=
  ⟨max channelCapacity 1, [], .idle, 0, [], [], [], [], false⟩

namespace Forwarding

/-- The queue is full, and the event can be spared. -/
def drop (state : Forwarding ρ π) (event : InProcessServerEvent ρ π) : Forwarding ρ π :=
  { state with
    phase := .idle
    skippedEvents := saturatingSucc state.skippedEvents
    rejected := state.rejected ++ (request? event).toList }

/-- Try the queue for an event: a blocking send that finds it full is not taken. -/
def offer (state : Forwarding ρ π) (event : InProcessServerEvent ρ π) (sent : Forwarding ρ π) :
    Option (Forwarding ρ π) :=
  if state.closed then some { state with phase := .disabled event }
  else if state.queue.length < state.channelCapacity then some sent
  else if eventRequiresDelivery event then none
  else some (state.drop event)

/-- `forward_in_process_event`, its next operation on the queue: first the marker, if one is due,
and then the event. -/
def forwardInProcessEvent (state : Forwarding ρ π) : Option (Forwarding ρ π) :=
  match state.phase with
  | .flushing event => state.offer event { state with
      queue := state.queue ++ [.lagged state.skippedEvents]
      skippedEvents := 0
      phase := .sending event }
  | .sending event =>
      state.offer event { state with queue := state.queue ++ [event], phase := .idle }
  | .idle | .disabled _ => none

/-- The worker takes an event from the runtime. -/
def takeEvent (state : Forwarding ρ π) (event : InProcessServerEvent ρ π) :
    Option (Forwarding ρ π) :=
  match state.phase, event with
  | .idle, .serverRequest ⟨requestId, true⟩ =>
      some { state with unsupported := state.unsupported ++ [⟨requestId, true⟩] }
  | .idle, event =>
      some { state with
        taken := state.taken ++ [event]
        phase := if 0 < state.skippedEvents then .flushing event else .sending event }
  | _, _ => none

/-- The consumer takes the next event. -/
def receive (state : Forwarding ρ π) : Option (Forwarding ρ π) :=
  match state.closed, state.queue with
  | false, event :: queue =>
      some { state with queue, received := state.received ++ [event] }
  | _, _ => none

end Forwarding

/-- Who moves. -/
inductive Step (ρ π : Type*)
  | runtime (event : InProcessServerEvent ρ π)
  | worker
  | consumer
  | close

/-- One move. -/
def step (state : Forwarding ρ π) : Step ρ π → Option (Forwarding ρ π)
  | .runtime event => state.takeEvent event
  | .worker => state.forwardInProcessEvent
  | .consumer => state.receive
  | .close => some { state with closed := true }

/-- The requests that the worker refuses itself. -/
def Step.refused : Step ρ π → List (ServerRequest ρ)
  | .runtime (.serverRequest ⟨requestId, true⟩) => [⟨requestId, true⟩]
  | _ => []

/-! ## The account of a run -/

/-- An event that was passed on, or the events that one marker stands for. -/
inductive Segment (ρ π : Type*)
  | shown (event : InProcessServerEvent ρ π)
  | lag (dropped : Events ρ π)

/-- The number of events on a marker. -/
def skipped (dropped : Events ρ π) : ℕ := min dropped.length (2 ^ 64 - 1)

namespace Segment

/-- The events of a segment. -/
def events : Segment ρ π → Events ρ π
  | shown event => [event]
  | lag dropped => dropped

/-- The events that did not get through. -/
def dropped : Segment ρ π → Events ρ π
  | shown _ => []
  | lag dropped => dropped

/-- What stands in the queue for a segment. -/
def delivered : Segment ρ π → InProcessServerEvent ρ π
  | shown event => event
  | lag dropped => .lagged (skipped dropped)

end Segment

/-- What the worker took was passed on, or was dropped and stands behind a marker, or was dropped
since the last marker, or is in flight.  The queue stays within its capacity, only what can be spared
is dropped, and every request that is dropped is rejected. -/
structure Accounted (state : Forwarding ρ π) (segments : List (Segment ρ π))
    (recent : Events ρ π) : Prop where
  taken : state.taken = segments.flatMap Segment.events ++ recent ++ state.phase.events
  delivered : state.received ++ state.queue = segments.map Segment.delivered
  bounded : state.queue.length ≤ state.channelCapacity
  counted : state.skippedEvents = skipped recent
  spared : ∀ event ∈ segments.flatMap Segment.dropped ++ recent,
    eventRequiresDelivery event = false
  marked : Segment.lag [] ∉ segments
  rejected : state.rejected = (segments.flatMap Segment.dropped ++ recent).filterMap request?
  flushing : ∀ event, state.phase = .flushing event → recent ≠ []
  sending : ∀ event, state.phase = .sending event → recent = []

/-- Some segments account for what was taken. -/
def Accountable (state : Forwarding ρ π) : Prop :=
  ∃ segments recent, Accounted state segments recent

variable {state next : Forwarding ρ π} {segments : List (Segment ρ π)}
  {recent : Events ρ π} {event : InProcessServerEvent ρ π}

theorem skipped_pos_iff : 0 < skipped recent ↔ recent ≠ [] := by
  rw [← List.length_pos_iff, skipped]
  omega

namespace Accounted

theorem take (accounted : Accounted state segments recent) (idle : state.phase = .idle) :
    Accounted { state with
        taken := state.taken ++ [event]
        phase := if 0 < state.skippedEvents then .flushing event else .sending event }
      segments recent := by
  have before := accounted.taken
  rw [idle] at before
  refine { accounted with taken := ?_, flushing := ?_, sending := ?_ }
  · split <;> simp [before, Phase.events]
  · intro other flushing
    apply skipped_pos_iff.mp
    rw [← accounted.counted]
    by_contra none
    simp [none] at flushing
  · intro other sending
    by_contra some
    have many := skipped_pos_iff.mpr some
    rw [← accounted.counted] at many
    simp [many] at sending

theorem drop (accounted : Accounted state segments recent)
    (inFlight : state.phase.events = [event]) (spare : eventRequiresDelivery event = false) :
    Accounted (state.drop event) segments (recent ++ [event]) where
  taken := by
    rw [Forwarding.drop, accounted.taken, inFlight]
    simp [Phase.events]
  delivered := accounted.delivered
  bounded := accounted.bounded
  counted := by
    simp only [Forwarding.drop, accounted.counted, saturatingSucc, skipped, List.length_append,
      List.length_singleton]
    omega
  spared := by
    intro other member
    rw [← List.append_assoc] at member
    obtain earlier | last := List.mem_append.mp member
    · exact accounted.spared other earlier
    · rwa [List.mem_singleton.mp last]
  marked := accounted.marked
  rejected := by
    rw [Forwarding.drop, accounted.rejected, ← List.append_assoc, List.filterMap_append]
    cases request : request? event <;> simp [request]
  flushing := fun other impossible => nomatch impossible
  sending := fun other impossible => nomatch impossible

theorem flush (accounted : Accounted state segments recent)
    (flushing : state.phase = .flushing event) (room : state.queue.length < state.channelCapacity) :
    Accounted { state with
        queue := state.queue ++ [.lagged state.skippedEvents]
        skippedEvents := 0
        phase := .sending event }
      (segments ++ [.lag recent]) [] where
  taken := by
    rw [accounted.taken, flushing]
    simp [Segment.events, Phase.events]
  delivered := by
    rw [← List.append_assoc, accounted.delivered, accounted.counted]
    simp [Segment.delivered]
  bounded := by simpa using Nat.succ_le_of_lt room
  counted := by simp [skipped]
  spared := by simpa [Segment.dropped] using accounted.spared
  marked := by simpa [accounted.marked] using (accounted.flushing event flushing).symm
  rejected := by simpa [Segment.dropped] using accounted.rejected
  flushing := fun other impossible => nomatch impossible
  sending := fun _ _ => rfl

theorem send (accounted : Accounted state segments recent)
    (sending : state.phase = .sending event) (room : state.queue.length < state.channelCapacity) :
    Accounted { state with queue := state.queue ++ [event], phase := .idle }
      (segments ++ [.shown event]) [] := by
  have none := accounted.sending event sending
  subst none
  constructor
  · rw [accounted.taken, sending]
    simp [Segment.events, Phase.events]
  · rw [← List.append_assoc, accounted.delivered]
    simp [Segment.delivered]
  · simpa using Nat.succ_le_of_lt room
  · exact accounted.counted
  · simpa [Segment.dropped] using accounted.spared
  · simpa using accounted.marked
  · simpa [Segment.dropped] using accounted.rejected
  · exact fun other impossible => nomatch impossible
  · exact fun _ _ => rfl

/-- An event that does not go out is kept by the worker or dropped. -/
theorem offer (accounted : Accounted state segments recent) {sent : Forwarding ρ π}
    (inFlight : state.phase.events = [event])
    (sends : state.queue.length < state.channelCapacity → Accountable sent)
    (offered : state.offer event sent = some next) : Accountable next := by
  rw [Forwarding.offer] at offered
  split_ifs at offered with closed room required
  · cases offered
    refine ⟨segments, recent, { accounted with taken := ?_, flushing := ?_, sending := ?_ }⟩
    · rw [accounted.taken, inFlight]
      rfl
    all_goals exact fun other impossible => nomatch impossible
  · cases offered
    exact sends room
  · cases offered
    exact ⟨segments, recent ++ [event], accounted.drop inFlight (by simpa using required)⟩

end Accounted

end CodexPilot.AppServer
