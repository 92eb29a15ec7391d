import CodexPilot.ExecPolicy.Approval
import CodexPilot.Library.Interleaving
import Mathlib.Data.Finset.Basic

/-!
# The network approval service

A request for a host that no rule allows is answered from the caches of the session, or joins the
pending approval of its host, or owns a new one: then it asks the user, records what the session is
to remember, publishes the decision and removes the pending entry.  Every section under a lock is
one step, and between two steps of a call every other call may step.
-/

namespace CodexPilot.NetworkApproval

open Interleaving RustStd ExecPolicy

/-! ## Requests and decisions -/

/-- `NetworkProtocol`. -/
inductive NetworkProtocol
  | http
  | httpsConnect
  | socks5Tcp
  | socks5Udp
  deriving DecidableEq

/-- `NetworkPolicyRequest`: what the service reads of it. -/
structure NetworkPolicyRequest where
  protocol : NetworkProtocol
  host : Text
  port : UInt16
  deriving DecidableEq

/-- `HostApprovalKey`. -/
structure HostApprovalKey where
  host : Text
  protocol : Text
  port : UInt16
  deriving DecidableEq

/-- `protocol_key_label`, of the approval protocol that stands for the protocol of the request. -/
def protocolKeyLabel : NetworkProtocol → Text
  | .http => "http".toList
  | .httpsConnect => "https".toList
  | .socks5Tcp => "socks5-tcp".toList
  | .socks5Udp => "socks5-udp".toList

/-- `HostApprovalKey::from_request`. -/
def NetworkPolicyRequest.key (request : NetworkPolicyRequest) : HostApprovalKey where
  host := request.host.toAsciiLowercase
  protocol := protocolKeyLabel request.protocol
  port := request.port

/-- `NetworkDecisionSource`. -/
inductive NetworkDecisionSource
  | baselinePolicy
  | modeGuard
  | proxyState
  | decider
  deriving DecidableEq

/-- `NetworkPolicyDecision`. -/
inductive NetworkPolicyDecision
  | deny
  | ask
  deriving DecidableEq

/-- `NetworkDecision`. -/
inductive NetworkDecision
  | allow
  | denied (reason : Text) (source : NetworkDecisionSource) (decision : NetworkPolicyDecision)
  deriving DecidableEq

/-- `NetworkDecision::deny`. -/
def NetworkDecision.deny (reason : Text) : NetworkDecision :=
  .denied (if reason = [] then "policy_denied".toList else reason) .decider .deny

/-- `REASON_NOT_ALLOWED`. -/
def reasonNotAllowed : Text := "not_allowed".toList

/-- `PendingApprovalDecision`. -/
inductive PendingApprovalDecision
  | allowOnce
  | allowForSession
  | deny
  deriving DecidableEq

/-- `PendingApprovalDecision::to_network_decision`. -/
def PendingApprovalDecision.toNetworkDecision : PendingApprovalDecision → NetworkDecision
  | .allowOnce | .allowForSession => .allow
  | .deny => .deny reasonNotAllowed

/-- `NetworkPolicyRuleAction`. -/
inductive NetworkPolicyRuleAction
  | allow
  | deny
  deriving DecidableEq

/-- `ReviewDecision`: what the user or the guardian answers. -/
inductive ReviewDecision
  | approved
  | approvedExecpolicyAmendment
  | approvedForSession
  | networkPolicyAmendment (action : NetworkPolicyRuleAction)
  | denied
  | abort
  deriving DecidableEq

/-- `NetworkApprovalOutcome`. -/
inductive NetworkApprovalOutcome
  | deniedByUser
  | deniedByPolicy (message : Text)
  deriving DecidableEq

/-- `ApprovalsReviewer`. -/
inductive ApprovalsReviewer
  | user
  | guardianSubagent
  deriving DecidableEq

/-- What the service reads of the active turn. -/
structure TurnContext where
  approvalPolicy : AskForApproval
  approvalsReviewer : ApprovalsReviewer
  deriving DecidableEq

/-- `allows_network_approval_flow`. -/
def allowsNetworkApprovalFlow (policy : AskForApproval) : Bool := policy ≠ .never

/-- `routes_approval_to_guardian`. -/
def routesApprovalToGuardian (turn : TurnContext) : Bool :=
  turn.approvalPolicy = .onRequest ∧ turn.approvalsReviewer = .guardianSubagent

/-- `GUARDIAN_REJECTION_MESSAGE`. -/
def guardianRejectionMessage : Text :=
  ("This action was rejected due to unacceptable risk. " ++
    "The agent must not attempt to achieve the same outcome via workaround, " ++
    "indirect execution, or policy circumvention. " ++
    "Proceed only with a materially safer alternative, " ++
    "or if the user explicitly approves the action after being informed of the risk. " ++
    "Otherwise, stop and request user input.").toList

/-- `format_network_target`. -/
def formatNetworkTarget (request : NetworkPolicyRequest) : Text :=
  request.key.protocol ++ "://".toList ++ request.host ++ ":".toList ++
    (toString request.port.toNat).toList

/-- The message of a request that is blocked without asking. -/
def policyDenialMessage (request : NetworkPolicyRequest) : Text :=
  "Network access to \"".toList ++ formatNetworkTarget request ++ "\" was blocked by policy.".toList

/-! ## The service -/

/-- `ActiveNetworkApprovalCall`. -/
structure ActiveNetworkApprovalCall where
  registrationId : Text
  turnId : Text
  deriving DecidableEq

/-- `NetworkApprovalService`.  A pending approval is known by the call that created it; its decision
and how often its waiters were notified stand beside the map.  `guard` is the call that holds the
lock of `pending_host_approvals` beyond one step. -/
structure NetworkApprovalService (ι : Type*) where
  activeCalls : List ActiveNetworkApprovalCall
  callOutcomes : Text → Option NetworkApprovalOutcome
  pendingHostApprovals : HostApprovalKey → Option ι
  guard : Option ι
  decisions : ι → Option PendingApprovalDecision
  notifications : ι → ℕ
  sessionApprovedHosts : Finset HostApprovalKey
  sessionDeniedHosts : Finset HostApprovalKey

/-- `NetworkApprovalService::default`. -/
def NetworkApprovalService.new {ι : Type*} : NetworkApprovalService ι where
  activeCalls := []
  callOutcomes _ := none
  pendingHostApprovals _ := none
  guard := none
  decisions _ := none
  notifications _ := 0
  sessionApprovedHosts := ∅
  sessionDeniedHosts := ∅

/-- What the owner makes of the answer, and whether the session is to remember a denial. -/
structure Resolution where
  decision : PendingApprovalDecision
  cacheSessionDeny : Bool
  deriving DecidableEq

/-- Which of its `return`s a call takes. -/
inductive Source (ι : Type*)
  | cache
  | joined (owner : ι)
  | owned (resolution : Resolution)
  deriving DecidableEq

/-- Where a call of `handle_inline_policy_request` stands. -/
inductive Point (ι : Type*)
  | checkDenied
  | checkApproved
  | join
  -- a call that joined a pending approval: `wait_for_decision`
  | wait (owner : ι)
  | poll (owner : ι) (seen : ℕ)
  | notified (owner : ι) (seen : ℕ)
  -- the call that owns it
  | readTurn
  | resolveCall (turn : TurnContext)
  | review (turn : TurnContext) (call : Option ActiveNetworkApprovalCall)
  | persist (call : Option ActiveNetworkApprovalCall) (action : NetworkPolicyRuleAction)
  | record (call : ActiveNetworkApprovalCall) (outcome : NetworkApprovalOutcome)
      (resolution : Resolution)
  | uncacheDenied
  | cacheApproved
  | uncacheApproved
  | cacheDenied
  | publish (resolution : Resolution) (byPolicy : Bool)
  | notify (resolution : Resolution) (byPolicy : Bool)
  | remove (resolution : Resolution) (byPolicy : Bool)
  -- the lock of the pending approvals is held
  | resolveOutcome (resolution : Resolution)
  | recordOutcome (call : ActiveNetworkApprovalCall) (resolution : Resolution)
  | leave (resolution : Resolution)
  | returned (source : Source ι) (decision : NetworkDecision)
  deriving DecidableEq

/-- A task makes one call; its future may be dropped at a point. -/
inductive Place (ι : Type*)
  | idle
  | running (request : NetworkPolicyRequest) (point : Point ι)
  | dropped (request : NetworkPolicyRequest) (point : Point ι)
  deriving DecidableEq

/-- What a task does: make its call, take its next step, be told the active turn or the answer of
the review, be dropped; or register or unregister a tool call. -/
inductive Action
  | request (request : NetworkPolicyRequest)
  | proceed
  | turn (context : Option TurnContext)
  | answer (decision : ReviewDecision)
  | drop
  | registerCall (call : ActiveNetworkApprovalCall)
  | unregisterCall (registrationId : Text)
  deriving DecidableEq

variable {ι : Type*} [DecidableEq ι]

namespace NetworkApprovalService

omit [DecidableEq ι] in
/-- `register_call`: an index map keeps the place of a key it has. -/
def registerCall (service : NetworkApprovalService ι) (call : ActiveNetworkApprovalCall) :
    NetworkApprovalService ι :=
  { service with
    activeCalls :=
      if service.activeCalls.any fun active => active.registrationId == call.registrationId then
        service.activeCalls.map fun active =>
          if active.registrationId = call.registrationId then call else active
      else service.activeCalls ++ [call] }

omit [DecidableEq ι] in
/-- `unregister_call`. -/
def unregisterCall (service : NetworkApprovalService ι) (registrationId : Text) :
    NetworkApprovalService ι :=
  { service with
    activeCalls := service.activeCalls.filter fun active => active.registrationId ≠ registrationId
    callOutcomes := Function.update service.callOutcomes registrationId none }

omit [DecidableEq ι] in
/-- `resolve_single_active_call`. -/
def resolveSingleActiveCall (service : NetworkApprovalService ι) :
    Option ActiveNetworkApprovalCall :=
  match service.activeCalls with
  | [call] => some call
  | _ => none

omit [DecidableEq ι] in
/-- `record_call_outcome`: a denial by the user stays. -/
def recordCallOutcome (service : NetworkApprovalService ι) (registrationId : Text)
    (outcome : NetworkApprovalOutcome) : NetworkApprovalService ι :=
  if service.callOutcomes registrationId = some .deniedByUser then service
  else { service with
    callOutcomes := Function.update service.callOutcomes registrationId (some outcome) }

end NetworkApprovalService

/-- After the answer: what the session is to remember is cached first. -/
def Resolution.settle (resolution : Resolution) : Point ι :=
  if resolution.decision = .allowForSession then .uncacheDenied
  else if resolution.cacheSessionDeny then .uncacheApproved
  else .publish resolution false

/-- The match on the answer of the review. -/
def settleAnswer (turn : TurnContext) (call : Option ActiveNetworkApprovalCall) :
    ReviewDecision → Point ι
  | .approved | .approvedExecpolicyAmendment => Resolution.settle ⟨.allowOnce, false⟩
  | .approvedForSession => Resolution.settle ⟨.allowForSession, false⟩
  | .networkPolicyAmendment action => .persist call action
  | .denied | .abort =>
      match call with
      | some call =>
          .record call
            (if routesApprovalToGuardian turn then .deniedByPolicy guardianRejectionMessage
              else .deniedByUser)
            ⟨.deny, false⟩
      | none => Resolution.settle ⟨.deny, false⟩

/-- A request that may not be reviewed. -/
def deniedByPolicy : Point ι := .publish ⟨.deny, false⟩ true

/-- One step of a call at a point. -/
def proceed (id : ι) (service : NetworkApprovalService ι) (request : NetworkPolicyRequest) :
    Point ι → Option (NetworkApprovalService ι × Point ι)
  | .checkDenied =>
      some (service, if request.key ∈ service.sessionDeniedHosts then
        .returned .cache (.deny reasonNotAllowed) else .checkApproved)
  | .checkApproved =>
      some (service, if request.key ∈ service.sessionApprovedHosts then .returned .cache .allow
        else .join)
  | .join =>
      -- `get_or_create_pending_approval`
      if service.guard = none then
        match service.pendingHostApprovals request.key with
        | some owner => some (service, .wait owner)
        | none =>
            some ({ service with
              pendingHostApprovals :=
                Function.update service.pendingHostApprovals request.key (some id) }, .readTurn)
      else none
  | .wait owner => some (service, .poll owner (service.notifications owner))
  | .poll owner seen =>
      match service.decisions owner with
      | some decision => some (service, .returned (.joined owner) decision.toNetworkDecision)
      | none => some (service, .notified owner seen)
  | .notified owner seen =>
      if service.notifications owner = seen then none else some (service, .wait owner)
  | .resolveCall turn => some (service, .review turn service.resolveSingleActiveCall)
  | .persist _ .allow => some (service, Resolution.settle ⟨.allowForSession, false⟩)
  | .persist call .deny =>
      some (service,
        match call with
        | some call => .record call .deniedByUser ⟨.deny, true⟩
        | none => Resolution.settle ⟨.deny, true⟩)
  | .record call outcome resolution =>
      some (service.recordCallOutcome call.registrationId outcome, resolution.settle)
  | .uncacheDenied =>
      some ({ service with
        sessionDeniedHosts := service.sessionDeniedHosts.erase request.key }, .cacheApproved)
  | .cacheApproved =>
      some ({ service with
        sessionApprovedHosts := insert request.key service.sessionApprovedHosts },
        .publish ⟨.allowForSession, false⟩ false)
  | .uncacheApproved =>
      some ({ service with
        sessionApprovedHosts := service.sessionApprovedHosts.erase request.key }, .cacheDenied)
  | .cacheDenied =>
      some ({ service with sessionDeniedHosts := insert request.key service.sessionDeniedHosts },
        .publish ⟨.deny, true⟩ false)
  | .publish resolution byPolicy =>
      some ({ service with
        decisions := Function.update service.decisions id (some resolution.decision) },
        .notify resolution byPolicy)
  | .notify resolution byPolicy =>
      some ({ service with
        notifications := Function.update service.notifications id (service.notifications id + 1) },
        .remove resolution byPolicy)
  | .remove resolution byPolicy =>
      if service.guard = none then
        some ({ service with
          pendingHostApprovals := Function.update service.pendingHostApprovals request.key none
          guard := some id },
          if byPolicy then .resolveOutcome resolution else .leave resolution)
      else none
  | .resolveOutcome resolution =>
      some (service, match service.resolveSingleActiveCall with
        | some call => .recordOutcome call resolution
        | none => .leave resolution)
  | .recordOutcome call resolution =>
      some (service.recordCallOutcome call.registrationId
        (.deniedByPolicy (policyDenialMessage request)), .leave resolution)
  | .leave resolution =>
      some ({ service with guard := none },
        .returned (.owned resolution) resolution.decision.toNetworkDecision)
  | _ => none

/-- The call waits for a lock, for its session or for a notification: here its future can be
dropped. -/
def Point.IsAwait : Point ι → Prop
  | .wait _ | .notify _ _ | .leave _ | .returned _ _ => False
  | _ => True

omit [DecidableEq ι] in
instance (point : Point ι) : Decidable point.IsAwait := by
  cases point <;> first | exact isTrue trivial | exact isFalse id

/-- One step of one task. -/
def move (id : ι) (service : NetworkApprovalService ι) :
    Place ι → Action → Option (NetworkApprovalService ι × Place ι)
  | .idle, .request request => some (service, .running request .checkDenied)
  | .idle, .registerCall call => some (service.registerCall call, .idle)
  | .idle, .unregisterCall registrationId => some (service.unregisterCall registrationId, .idle)
  | .running request point, .proceed =>
      (proceed id service request point).map fun next => (next.1, .running request next.2)
  | .running request .readTurn, .turn context =>
      some (service, .running request
        (match context with
        | none => deniedByPolicy
        | some turn =>
            if allowsNetworkApprovalFlow turn.approvalPolicy then .resolveCall turn
            else deniedByPolicy))
  | .running request (.review turn call), .answer decision =>
      some (service, .running request (settleAnswer turn call decision))
  | .running request point, .drop =>
      -- a guard that the future holds is dropped with it
      if point.IsAwait then
        some ({ service with guard := if service.guard = some id then none else service.guard },
          .dropped request point)
      else none
  | _, _ => none

/-- A fresh service, and tasks that have not called it yet. -/
def start : Tasks ι (NetworkApprovalService ι) (Place ι) where
  shared := .new
  place _ := .idle

end CodexPilot.NetworkApproval
