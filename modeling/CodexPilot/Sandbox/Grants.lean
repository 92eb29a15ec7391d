import CodexPilot.ExecPolicy.Approval
import CodexPilot.Library.Transitions
import CodexPilot.Sandbox.Transforms

/-!
# Granted permissions

Permissions are asked for during a turn and granted for it or for the session.  A command whose
permissions have all been granted runs without being asked about again.  A profile denotes the
permissions that it allows: merging denotes their union, intersecting what is common, and over every
run of requests, answers and turns the grants denote what was asked for and granted.
-/

namespace CodexPilot.Sandbox

open RustStd Transitions ExecPolicy

def FileSystemPermissions.isEmpty (permissions : FileSystemPermissions) : Bool :=
  permissions.read.isNone && permissions.write.isNone

def PermissionProfile.isEmpty (profile : PermissionProfile) : Bool :=
  profile.network.isNone && profile.fileSystem.isNone

/-- `merge_permission_paths`. -/
def mergePermissionPaths : Option (List AbsolutePathBuf) → Option (List AbsolutePathBuf) →
    Option (List AbsolutePathBuf)
  | some base, some permissions => some (base ++ permissions).eraseDups |>.filter (!·.isEmpty)
  | some base, none => some base
  | none, permissions => permissions

/-- `merge_permission_profiles`. -/
def mergePermissionProfiles (base : Option PermissionProfile) :
    Option PermissionProfile → Option PermissionProfile
  | none => base
  | some permissions =>
      match base with
      | none => some permissions |>.filter (!·.isEmpty)
      | some base =>
          let network : Option NetworkPermissions :=
            if base.network = some ⟨some true⟩ ∨ permissions.network = some ⟨some true⟩ then
              some ⟨some true⟩
            else none
          let fileSystem : Option FileSystemPermissions :=
            match base.fileSystem, permissions.fileSystem with
            | some base, some permissions =>
                some ⟨mergePermissionPaths base.read permissions.read,
                  mergePermissionPaths base.write permissions.write⟩ |>.filter (!·.isEmpty)
            | some base, none => some base
            | none, permissions => permissions
          some ⟨network, fileSystem⟩ |>.filter (!·.isEmpty)

def intersectPermissionPaths (requested granted : Option (List AbsolutePathBuf)) :
    Option (List AbsolutePathBuf) :=
  requested.bind fun requestedPaths =>
    if requestedPaths.isEmpty then granted.map fun _ => []
    else some (requestedPaths.filter (· ∈ granted.getD [])) |>.filter (!·.isEmpty)

/-- `intersect_permission_profiles`. -/
def intersectPermissionProfiles (requested granted : PermissionProfile) : PermissionProfile where
  network :=
    if requested.network = some ⟨some true⟩ ∧ granted.network = some ⟨some true⟩ then
      some ⟨some true⟩
    else none
  fileSystem :=
    (requested.fileSystem.map fun requested =>
      let granted := granted.fileSystem.getD ⟨none, none⟩
      ⟨intersectPermissionPaths requested.read granted.read,
        intersectPermissionPaths requested.write granted.write⟩).filter (!·.isEmpty)

/-! ## What a profile allows -/

/-- What may be done with a path. -/
inductive Access
  | read
  | write

/-- Access to the network, or to what is below a path. -/
inductive Permission
  | network
  | path (access : Access) (path : AbsolutePathBuf)

def FileSystemPermissions.part (permissions : FileSystemPermissions) :
    Access → Option (List AbsolutePathBuf)
  | .read => permissions.read
  | .write => permissions.write

/-- What a profile allows. -/
def PermissionProfile.Allows (profile : PermissionProfile) : Permission → Prop
  | .network => profile.network = some ⟨some true⟩
  | .path access path => path ∈ (profile.fileSystem.bind (·.part access)).getD []

/-- A profile that need not be there. -/
def Allowed (profile : Option PermissionProfile) (permission : Permission) : Prop :=
  ∃ present, profile = some present ∧ present.Allows permission

variable {requested granted : PermissionProfile} {base more : Option PermissionProfile}
  {left right : Option (List AbsolutePathBuf)} {permission : Permission}

theorem getD_filter_nonempty (paths : Option (List AbsolutePathBuf)) :
    (paths.filter (!·.isEmpty)).getD [] = paths.getD [] := by
  cases paths with
  | none => rfl
  | some paths => cases paths <;> rfl

theorem mem_mergePermissionPaths {path : AbsolutePathBuf} :
    path ∈ (mergePermissionPaths left right).getD [] ↔ path ∈ left.getD [] ∨ path ∈ right.getD [] := by
  cases left <;> cases right <;> simp [mergePermissionPaths, getD_filter_nonempty]

theorem mem_intersectPermissionPaths {path : AbsolutePathBuf} :
    path ∈ (intersectPermissionPaths left right).getD [] ↔
      path ∈ left.getD [] ∧ path ∈ right.getD [] := by
  cases left with
  | none => simp [intersectPermissionPaths]
  | some paths =>
      cases paths with
      | nil => cases right <;> simp [intersectPermissionPaths]
      | cons first rest => simp [intersectPermissionPaths, getD_filter_nonempty]

/-- A file system part that allows nothing may be left out. -/
theorem getD_filter_part (fileSystem : Option FileSystemPermissions) (access : Access) :
    ((fileSystem.filter (!·.isEmpty)).bind (·.part access)).getD [] =
      (fileSystem.bind (·.part access)).getD [] := by
  cases fileSystem with
  | none => rfl
  | some permissions =>
      obtain ⟨read, write⟩ := permissions
      cases access <;> cases read <;> cases write <;> rfl

/-- Intersecting denotes what is common. -/
theorem allows_intersectPermissionProfiles :
    (intersectPermissionProfiles requested granted).Allows permission ↔
      requested.Allows permission ∧ granted.Allows permission := by
  cases permission with
  | network => simp [PermissionProfile.Allows, intersectPermissionProfiles]
  | path access path =>
      simp only [PermissionProfile.Allows, intersectPermissionProfiles, getD_filter_part]
      cases access <;> cases requested.fileSystem <;> cases granted.fileSystem <;>
        simp [FileSystemPermissions.part, mem_intersectPermissionPaths]

/-- A profile that allows nothing may be left out. -/
theorem allowed_filter : Allowed (base.filter (!·.isEmpty)) permission ↔ Allowed base permission := by
  cases base with
  | none => exact Iff.rfl
  | some profile =>
      obtain ⟨network, fileSystem⟩ := profile
      cases network <;> cases fileSystem <;> cases permission <;>
        simp [Allowed, PermissionProfile.isEmpty, PermissionProfile.Allows]

/-- Merging denotes the union. -/
theorem allowed_mergePermissionProfiles :
    Allowed (mergePermissionProfiles base more) permission ↔
      Allowed base permission ∨ Allowed more permission := by
  cases more with
  | none => simp [mergePermissionProfiles, Allowed]
  | some more =>
      cases base with
      | none =>
          rw [mergePermissionProfiles, allowed_filter]
          simp [Allowed]
      | some base =>
          obtain ⟨network, fileSystem⟩ := base
          obtain ⟨network', fileSystem'⟩ := more
          rw [mergePermissionProfiles, allowed_filter]
          simp only [Allowed, Option.some.injEq, exists_eq_left']
          cases permission with
          | network => simp [PermissionProfile.Allows, or_iff_not_imp_left]
          | path access path =>
              cases fileSystem <;> cases fileSystem' <;>
                simp only [PermissionProfile.Allows, getD_filter_part] <;>
                  cases access <;> simp [FileSystemPermissions.part, mem_mergePermissionPaths]

/-! ## The permissions of a command -/

/-- `EffectiveAdditionalPermissions`. -/
structure EffectiveAdditionalPermissions where
  sandboxPermissions : SandboxPermissions
  additionalPermissions : Option PermissionProfile
  permissionsPreapproved : Bool

def applyGrantedTurnPermissions (grantedSession grantedTurn : Option PermissionProfile)
    (sandboxPermissions : SandboxPermissions) (additionalPermissions : Option PermissionProfile) :
    EffectiveAdditionalPermissions :=
  if sandboxPermissions = .requireEscalated then ⟨sandboxPermissions, additionalPermissions, false⟩
  else
    let granted := mergePermissionProfiles grantedSession grantedTurn
    let effective := mergePermissionProfiles additionalPermissions granted
    ⟨if effective.isSome then .withAdditionalPermissions else sandboxPermissions, effective,
      match effective, granted with
      | some effective, some granted => intersectPermissionProfiles effective granted = effective
      | _, _ => false⟩

/-! ## Requests and answers -/

/-- What was asked for, and what the client granted of it. -/
structure Answer where
  requested : PermissionProfile
  granted : PermissionProfile

/-- `TurnState`: the calls that wait for an answer, the grants, and the answers behind them. -/
structure TurnState where
  pendingRequestPermissions : List Text
  grantedPermissions : Option PermissionProfile
  answers : List Answer

/-- The session, its active turn, and the requests that clients have got. -/
structure Session where
  grantedPermissions : Option PermissionProfile
  answers : List Answer
  activeTurn : Option TurnState
  asked : List (Text × PermissionProfile)

def Session.start : Session := ⟨none, [], none, []⟩

/-- How long a grant lasts. -/
inductive PermissionGrantScope
  | turn
  | session

/-- What happens to a session. -/
inductive SessionEvent
  | beginTurn
  | endTurn
  | requestPermissions (callId : Text) (permissions : PermissionProfile)
  /-- The client answers one of the requests it has got, also a stale one. -/
  | respond (request : ℕ) (granted : PermissionProfile) (scope : PermissionGrantScope)

/-- `notify_request_permissions_response`, for what the app server makes of an answer. -/
def Session.notify (session : Session) (turn : TurnState) (callId : Text) (answer : Answer)
    (scope : PermissionGrantScope) : Session :=
  let permissions := intersectPermissionProfiles answer.requested answer.granted
  let waiting := { turn with
    pendingRequestPermissions := turn.pendingRequestPermissions.erase callId }
  if !turn.pendingRequestPermissions.contains callId || permissions.isEmpty then
    { session with activeTurn := some waiting }
  else
    match scope with
    | .turn =>
        { session with
          activeTurn := some { waiting with
            grantedPermissions := mergePermissionProfiles turn.grantedPermissions permissions
            answers := turn.answers ++ [answer] } }
    | .session =>
        { session with
          grantedPermissions := mergePermissionProfiles session.grantedPermissions permissions
          answers := session.answers ++ [answer]
          activeTurn := some waiting }

/-- One event of the session. -/
def Session.step (session : Session) : SessionEvent → Option Session
  | .beginTurn => some { session with activeTurn := some ⟨[], none, []⟩ }
  | .endTurn => some { session with activeTurn := none }
  | .requestPermissions callId permissions =>
      some { session with
        asked := session.asked ++ [(callId, permissions)]
        activeTurn := session.activeTurn.map fun turn =>
          { turn with pendingRequestPermissions := turn.pendingRequestPermissions.insert callId } }
  | .respond request granted scope =>
      match session.asked[request]?, session.activeTurn with
      | some (callId, requested), some turn =>
          some (session.notify turn callId ⟨requested, granted⟩ scope)
      | some _, none => some session
      | none, _ => none

/-- The permissions of a command in a session. -/
def Session.permissionsFor (session : Session) (sandboxPermissions : SandboxPermissions)
    (additionalPermissions : Option PermissionProfile) : EffectiveAdditionalPermissions :=
  applyGrantedTurnPermissions session.grantedPermissions
    (session.activeTurn.bind (·.grantedPermissions)) sandboxPermissions additionalPermissions

/-- The grants are what was asked for and granted. -/
def Recorded (grants : Option PermissionProfile) (answers : List Answer) : Prop :=
  ∀ permission, Allowed grants permission ↔ ∃ answer ∈ answers,
    answer.requested.Allows permission ∧ answer.granted.Allows permission

/-- What is granted was answered. -/
structure Session.Honest (session : Session) : Prop where
  recorded : Recorded session.grantedPermissions session.answers
  ofTurn : ∀ turn, session.activeTurn = some turn → Recorded turn.grantedPermissions turn.answers

theorem recorded_nil : Recorded none [] := by
  intro permission
  simp [Allowed]

theorem Recorded.concat {grants : Option PermissionProfile} {answers : List Answer}
    (recorded : Recorded grants answers) (answer : Answer) :
    Recorded (mergePermissionProfiles grants
      (some (intersectPermissionProfiles answer.requested answer.granted)))
      (answers ++ [answer]) := by
  intro permission
  rw [allowed_mergePermissionProfiles, recorded permission]
  simp [Allowed, allows_intersectPermissionProfiles, or_and_right, exists_or]

theorem Session.Honest.step {session next : Session} {event : SessionEvent}
    (honest : session.Honest) (stepped : session.step event = some next) : next.Honest := by
  cases event with
  | beginTurn =>
      cases stepped
      refine ⟨honest.recorded, fun turn active => ?_⟩
      cases active
      exact recorded_nil
  | endTurn =>
      cases stepped
      exact ⟨honest.recorded, fun _ active => nomatch active⟩
  | requestPermissions callId permissions =>
      cases stepped
      refine ⟨honest.recorded, fun turn active => ?_⟩
      obtain ⟨before, there, rfl⟩ := Option.map_eq_some_iff.mp active
      exact honest.ofTurn before there
  | respond request granted scope =>
      simp only [Session.step] at stepped
      split at stepped
      · rename_i callId requested turn _ active
        cases stepped
        have recorded := honest.ofTurn turn active
        simp only [Session.notify]
        split
        · refine ⟨honest.recorded, fun after active => ?_⟩
          cases active
          exact recorded
        · cases scope with
          | turn =>
              refine ⟨honest.recorded, fun after active => ?_⟩
              cases active
              exact recorded.concat ⟨requested, granted⟩
          | session =>
              refine ⟨honest.recorded.concat ⟨requested, granted⟩, fun after active => ?_⟩
              cases active
              exact recorded
      · cases stepped
        exact honest
      · cases stepped

/-! ## Nothing runs with what nobody granted -/

variable {session : Session} {grantedSession grantedTurn : Option PermissionProfile}
  {additional : Option PermissionProfile} {sandboxPermissions : SandboxPermissions}

/-- What a preapproved command gets was granted, and so was what a command gets that asks for
nothing. -/
theorem granted_of_applyGrantedTurnPermissions
    (safe : (applyGrantedTurnPermissions grantedSession grantedTurn sandboxPermissions
        additional).permissionsPreapproved = true ∨
      sandboxPermissions ≠ .requireEscalated ∧ additional = none)
    (allowed : Allowed (applyGrantedTurnPermissions grantedSession grantedTurn sandboxPermissions
      additional).additionalPermissions permission) :
    Allowed grantedSession permission ∨ Allowed grantedTurn permission := by
  rw [← allowed_mergePermissionProfiles]
  rw [applyGrantedTurnPermissions] at safe allowed
  split at safe
  · rename_i escalated
    obtain impossible | ⟨other, -⟩ := safe
    · cases impossible
    · exact absurd escalated other
  · rename_i other
    simp only [if_neg other] at allowed
    obtain preapproved | ⟨-, rfl⟩ := safe
    · obtain ⟨effective, merged, allows⟩ := allowed
      simp only [merged] at preapproved
      split at preapproved
      · rename_i profile granted same present
        cases same
        rw [← of_decide_eq_true preapproved, allows_intersectPermissionProfiles] at allows
        exact ⟨granted, present, allows.2⟩
      · cases preapproved
    · obtain none | granted := allowed_mergePermissionProfiles.mp allowed
      · obtain ⟨_, absent, -⟩ := none
        cases absent
      · exact granted

/-- Over every run of requests, answers and turns: a command that counts as preapproved, or asks for
nothing itself, gets no permission but those that were requested and granted, for this turn or for
the session. -/
theorem granted_of_run {events : List SessionEvent}
    (ran : run Session.step .start events = some session)
    (safe : (session.permissionsFor sandboxPermissions additional).permissionsPreapproved = true ∨
      sandboxPermissions ≠ .requireEscalated ∧ additional = none)
    (allowed : Allowed (session.permissionsFor sandboxPermissions additional).additionalPermissions
      permission) :
    ∃ answer ∈ session.answers ++ (session.activeTurn.map (·.answers)).getD [],
      answer.requested.Allows permission ∧ answer.granted.Allows permission := by
  have started : Session.start.Honest := ⟨recorded_nil, fun _ active => nomatch active⟩
  have honest : session.Honest :=
    preserved_of_run (fun _ _ _ honest stepped => honest.step stepped) started ran
  obtain granted | granted := granted_of_applyGrantedTurnPermissions safe allowed
  · obtain ⟨answer, member, both⟩ := (honest.recorded permission).mp granted
    exact ⟨answer, List.mem_append_left _ member, both⟩
  · cases active : session.activeTurn with
    | none => simp [active, Allowed] at granted
    | some turn =>
        rw [active] at granted
        obtain ⟨answer, member, both⟩ := (honest.ofTurn turn active permission).mp granted
        exact ⟨answer, List.mem_append_right _ member, both⟩

/-- The network is granted for the turn. -/
def networkGranted : List SessionEvent :=
  [.beginTurn, .requestPermissions [] ⟨some ⟨some true⟩, none⟩,
    .respond 0 ⟨some ⟨some true⟩, none⟩ .turn]

theorem granted_of_run_networkGranted :
    ∃ session, run Session.step .start networkGranted = some session ∧
      ∃ answer ∈ session.answers ++ (session.activeTurn.map (·.answers)).getD [],
        answer.requested.Allows .network ∧ answer.granted.Allows .network := by
  obtain ⟨session, ran, allowed⟩ : ∃ session, run Session.step .start networkGranted =
      some session ∧ Allowed (session.permissionsFor .useDefault none).additionalPermissions
        .network := ⟨_, rfl, ⟨some ⟨some true⟩, none⟩, rfl, rfl⟩
  exact ⟨session, ran, granted_of_run ran (.inr ⟨by decide, rfl⟩) allowed⟩

end CodexPilot.Sandbox
