import CodexPilot.ExecPolicy.Policy
import CodexPilot.Sandbox.Permissions
import CodexPilot.ShellCommand.Safety

/-!
# Approval of commands

A request to execute a command is split into commands, each of which is matched against the exec
policy; the matches together decide whether the request runs, needs an approval or is forbidden, and
whether its first attempt runs outside the sandbox.
-/

namespace CodexPilot.ExecPolicy

open RustStd ShellCommand Sandbox

/-! ## Requests -/

/-- The approval flows that are turned on one by one. -/
structure GranularApprovalConfig where
  sandboxApproval : Bool
  rules : Bool
  deriving DecidableEq

/-- When the user is asked. -/
inductive AskForApproval where
  | unlessTrusted
  | onFailure
  | onRequest
  | granular (config : GranularApprovalConfig)
  | never
  deriving DecidableEq

/-- The configured sandbox. -/
inductive SandboxPolicy where
  | dangerFullAccess
  | readOnly
  | externalSandbox
  | workspaceWrite
  deriving DecidableEq

/-- The permissions that a request asks for. -/
inductive SandboxPermissions where
  | useDefault
  | requireEscalated
  | withAdditionalPermissions
  deriving DecidableEq

/-- Whether a request asks for more than the configured sandbox. -/
def SandboxPermissions.requestsSandboxOverride : SandboxPermissions → Bool
  | .useDefault => false
  | .requireEscalated | .withAdditionalPermissions => true

/-- A request to execute a command. -/
structure ExecApprovalRequest where
  command : Command
  approvalPolicy : AskForApproval
  sandboxPolicy : SandboxPolicy
  fileSystemSandboxPolicy : FileSystemSandboxPolicy
  sandboxPermissions : SandboxPermissions
  prefixRule : Option (List Text)

/-- A prefix that a new rule would allow. -/
abbrev ExecPolicyAmendment := List Text

/-- What has to happen before a command runs. -/
inductive ExecApprovalRequirement where
  | skip (bypassSandbox : Bool) (proposedExecpolicyAmendment : Option ExecPolicyAmendment)
  | needsApproval (reason : Option Text)
      (proposedExecpolicyAmendment : Option ExecPolicyAmendment)
  | forbidden (reason : Text)

/-! ## Heuristics -/

/-- The development is about hosts other than Windows. -/
def isWindows : Bool := false

section Heuristics

variable (shell : Shell)

/-- The decision about a command that no rule matches. -/
def renderDecisionForUnmatchedCommand (request : ExecApprovalRequest)
    (usedComplexParsing : Bool) (command : Command) : Decision :=
  if isKnownSafeCommand shell command && !usedComplexParsing then .allow
  else
    let environmentLacksSandboxProtections :=
      isWindows && decide (request.sandboxPolicy = .readOnly)
    if commandMightBeDangerous shell command || environmentLacksSandboxProtections then
      match request.approvalPolicy with
      | .never =>
          if request.sandboxPolicy = .dangerFullAccess ∨ request.sandboxPolicy = .externalSandbox
          then .allow
          else .forbidden
      | .onFailure | .onRequest | .unlessTrusted | .granular _ => .prompt
    else
      match request.approvalPolicy with
      | .never | .onFailure => .allow
      | .unlessTrusted => .prompt
      | .onRequest | .granular _ =>
          match request.fileSystemSandboxPolicy.kind with
          | .unrestricted | .externalSandbox => .allow
          -- The sandbox enforces its restrictions without a prompt.
          | .restricted =>
              if request.sandboxPermissions.requestsSandboxOverride then .prompt else .allow

/-- The commands of a request, and whether they were read in front of a heredoc. -/
def commandsForExecPolicy (command : Command) : List Command × Bool :=
  match (parseShellLcPlainCommands shell command).filter (!·.isEmpty) with
  | some commands => (commands, false)
  | none =>
      match parseShellLcSingleCommandPrefix shell command with
      | some singleCommand => ([singleCommand], true)
      | none => ([command], false)

theorem commandsForExecPolicy_ne_nil (command : Command) :
    (commandsForExecPolicy shell command).1 ≠ [] := by
  unfold commandsForExecPolicy
  split
  · rename_i commands found
    have nonempty := (Option.filter_eq_some_iff.mp found).2
    simpa using nonempty
  · split <;> simp

end Heuristics

/-! ## Reasons -/

def promptConflictReason : Text :=
  "approval required by policy, but AskForApproval is set to Never".toList

def rejectSandboxApprovalReason : Text :=
  "approval required by policy, but AskForApproval::Granular.sandbox_approval is false".toList

def rejectRulesApprovalReason : Text :=
  "approval required by policy rule, but AskForApproval::Granular.rules is false".toList

/-- Why a prompt may not be shown. -/
def promptIsRejectedByPolicy (approvalPolicy : AskForApproval) (promptIsRule : Bool) :
    Option Text :=
  match approvalPolicy with
  | .never => some promptConflictReason
  | .onFailure | .onRequest | .unlessTrusted => none
  | .granular config =>
      if promptIsRule then
        if !config.rules then some rejectRulesApprovalReason else none
      else if !config.sandboxApproval then some rejectSandboxApprovalReason
      else none

section Reasons

variable (shell : Shell)

/-- The words of a command as one line. -/
def renderShlexCommand (words : List Text) : Text :=
  (shell.shlexTryJoin words).getD (Text.join [' '] words)

/-- The prefix and justification of a rule match with the given decision. -/
def ruleReason (decision : Decision) : RuleMatch → Option (List Text × Option Text)
  | .prefixRuleMatch matchedPrefix matchDecision _ justification =>
      if matchDecision = decision then some (matchedPrefix, justification) else none
  | .heuristicsRuleMatch _ _ => none

/-- The longest prefix of a rule with the given decision, with its justification. -/
def mostSpecificReason (decision : Decision) (matchedRules : List RuleMatch) :
    Option (List Text × Option Text) :=
  maxByKey (·.1.length) (matchedRules.filterMap (ruleReason decision))

/-- Why a rule asks for an approval. -/
def derivePromptReason (commandArgs : Command) (evaluation : Evaluation) : Option Text :=
  let command := renderShlexCommand shell commandArgs
  match mostSpecificReason .prompt evaluation.matchedRules with
  | some (_, some justification) =>
      some ("`".toList ++ command ++ "` requires approval: ".toList ++ justification)
  | some (_, none) => some ("`".toList ++ command ++ "` requires approval by policy".toList)
  | none => none

/-- Why a command is forbidden. -/
def deriveForbiddenReason (commandArgs : Command) (evaluation : Evaluation) : Text :=
  let command := renderShlexCommand shell commandArgs
  match mostSpecificReason .forbidden evaluation.matchedRules with
  | some (_, some justification) =>
      "`".toList ++ command ++ "` rejected: ".toList ++ justification
  | some (matchedPrefix, none) =>
      "`".toList ++ command ++ "` rejected: policy forbids commands starting with `".toList ++
        renderShlexCommand shell matchedPrefix ++ "`".toList
  | none => "`".toList ++ command ++ "` rejected: blocked by policy".toList

end Reasons

/-! ## Amendments -/

/-- Prefixes that are too broad for a rule. -/
def bannedPrefixSuggestions : List (List Text) :=
  [["python3"], ["python3", "-"], ["python3", "-c"], ["python"], ["python", "-"],
    ["python", "-c"], ["py"], ["py", "-3"], ["pythonw"], ["pyw"], ["pypy"], ["pypy3"], ["git"],
    ["bash"], ["bash", "-lc"], ["sh"], ["sh", "-c"], ["sh", "-lc"], ["zsh"], ["zsh", "-lc"],
    ["/bin/zsh"], ["/bin/zsh", "-lc"], ["/bin/bash"], ["/bin/bash", "-lc"], ["pwsh"],
    ["pwsh", "-Command"], ["pwsh", "-c"], ["powershell"], ["powershell", "-Command"],
    ["powershell", "-c"], ["powershell.exe"], ["powershell.exe", "-Command"],
    ["powershell.exe", "-c"], ["env"], ["sudo"], ["node"], ["node", "-e"], ["perl"],
    ["perl", "-e"], ["ruby"], ["ruby", "-e"], ["php"], ["php", "-r"], ["lua"], ["lua", "-e"],
    ["osascript"]].map fun words => words.map String.toList

/-- A match of a rule with the given decision. -/
def isPolicyMatchWith (decision : Decision) (ruleMatch : RuleMatch) : Bool :=
  ruleMatch.isPolicyMatch && decide (ruleMatch.decision = decision)

/-- The first command that the heuristics decided in the given way. -/
def firstHeuristic (decision : Decision) (matchedRules : List RuleMatch) :
    Option ExecPolicyAmendment :=
  matchedRules.findSome? fun
    | .heuristicsRuleMatch command matchDecision =>
        if matchDecision = decision then some command else none
    | .prefixRuleMatch _ _ _ _ => none

/-- The rule to propose with a prompt; a prompt of a rule would stay. -/
def tryDeriveExecpolicyAmendmentForPromptRules (matchedRules : List RuleMatch) :
    Option ExecPolicyAmendment :=
  if matchedRules.any (isPolicyMatchWith .prompt) then none
  else firstHeuristic .prompt matchedRules

/-- The rule to propose when the sandbox stops an allowed command. -/
def tryDeriveExecpolicyAmendmentForAllowRules (matchedRules : List RuleMatch) :
    Option ExecPolicyAmendment :=
  if matchedRules.any RuleMatch.isPolicyMatch then none
  else firstHeuristic .allow matchedRules

/-- Whether a rule for the given prefix would allow all commands. -/
def prefixRuleWouldApproveAllCommands (host : Host) (policy : Policy) (prefixRule : List Text)
    (commands : List Command) (fallback : Command → Decision) : Bool :=
  match policy.addPrefixRule prefixRule .allow with
  | none => false
  | some policyWithPrefixRule =>
      commands.all fun command =>
        ((policyWithPrefixRule.check host true fallback command).map Evaluation.decision) ==
          some .allow

/-- The rule that a request asks for, when it would help. -/
def deriveRequestedExecpolicyAmendmentFromPrefixRule (host : Host)
    (prefixRule : Option (List Text)) (matchedRules : List RuleMatch) (policy : Policy)
    (commands : List Command) (fallback : Command → Decision) : Option ExecPolicyAmendment :=
  match prefixRule with
  | none => none
  | some words =>
      if words.isEmpty then none
      else if bannedPrefixSuggestions.contains words then none
      else if matchedRules.any RuleMatch.isPolicyMatch then none
      else if prefixRuleWouldApproveAllCommands host policy words commands fallback then some words
      else none

/-! ## Requirements -/

section Requirements

variable (shell : Shell) (host : Host) (policy : Policy) (request : ExecApprovalRequest)

/-- What follows from the evaluation of the commands of a request. -/
def requirementFor (commands : List Command) (usedComplexParsing : Bool)
    (evaluation : Evaluation) : ExecApprovalRequirement :=
  -- The commands of a heredoc are matched against rules but propose none.
  let autoAmendmentAllowed := !usedComplexParsing
  let requestedAmendment := deriveRequestedExecpolicyAmendmentFromPrefixRule host
    request.prefixRule evaluation.matchedRules policy commands
    (renderDecisionForUnmatchedCommand shell request usedComplexParsing)
  match evaluation.decision with
  | .forbidden => .forbidden (deriveForbiddenReason shell request.command evaluation)
  | .prompt =>
      let promptIsRule := evaluation.matchedRules.any (isPolicyMatchWith .prompt)
      match promptIsRejectedByPolicy request.approvalPolicy promptIsRule with
      | some reason => .forbidden reason
      | none =>
          .needsApproval (derivePromptReason shell request.command evaluation)
            (requestedAmendment.or
              (if autoAmendmentAllowed then
                tryDeriveExecpolicyAmendmentForPromptRules evaluation.matchedRules
              else none))
  | .allow =>
      .skip (evaluation.matchedRules.any (isPolicyMatchWith .allow))
        (if autoAmendmentAllowed then
          tryDeriveExecpolicyAmendmentForAllowRules evaluation.matchedRules
        else none)

/-- What has to happen before a request runs, given how its command is split.  There is no result
when the command is split into nothing. -/
def createExecApprovalRequirementForCommand (commandsFor : Command → List Command × Bool) :
    Option ExecApprovalRequirement :=
  let (commands, usedComplexParsing) := commandsFor request.command
  let fallback := renderDecisionForUnmatchedCommand shell request usedComplexParsing
  (policy.checkMultiple host true fallback commands).map
    (requirementFor shell host policy request commands usedComplexParsing)

end Requirements

/-! ## Bypassing the sandbox -/

section Bypass

variable {shell : Shell} {host : Host} {policy : Policy} {request : ExecApprovalRequest}
  {commandsFor : Command → List Command × Bool}

/-- A rule of the policy allows a command. -/
def AllowedByRule (host : Host) (policy : Policy) (command : Command) : Prop :=
  ∃ ruleMatch ∈ policy.ruleMatches host true command, ruleMatch.decision = .allow

/-- A request that mixes commands that rules allow with commands that only the heuristics allow. -/
structure MixedAllow (shell : Shell) (host : Host) (policy : Policy)
    (request : ExecApprovalRequest) (commandsFor : Command → List Command × Bool) : Prop where
  /-- Some command is matched by a rule. -/
  matched : ∃ command ∈ (commandsFor request.command).1,
    policy.ruleMatches host true command ≠ []
  /-- Some command is matched by no rule. -/
  unmatched : ∃ command ∈ (commandsFor request.command).1,
    policy.ruleMatches host true command = []
  /-- All the rules that match allow. -/
  rulesAllow : ∀ command ∈ (commandsFor request.command).1,
    ∀ ruleMatch ∈ policy.ruleMatches host true command, ruleMatch.decision = .allow
  /-- The heuristics allow all the commands without a rule. -/
  heuristicsAllow : ∀ command ∈ (commandsFor request.command).1,
    policy.ruleMatches host true command = [] →
    renderDecisionForUnmatchedCommand shell request (commandsFor request.command).2 command =
      .allow

/-- The matches of all the commands of a request. -/
def requestMatches (shell : Shell) (host : Host) (policy : Policy)
    (request : ExecApprovalRequest) (commandsFor : Command → List Command × Bool) :
    List RuleMatch :=
  (commandsFor request.command).1.flatMap (policy.matchesForCommand host true
    (renderDecisionForUnmatchedCommand shell request (commandsFor request.command).2))

/-- A request whose command is split into something has a result. -/
theorem exists_requirement (nonempty : (commandsFor request.command).1 ≠ []) :
    ∃ requirement, createExecApprovalRequirementForCommand shell host policy request commandsFor =
      some requirement := by
  have hasMatch : requestMatches shell host policy request commandsFor ≠ [] := by
    obtain ⟨command, member⟩ := List.exists_mem_of_ne_nil _ nonempty
    intro none
    exact matchesForCommand_ne_nil (List.flatMap_eq_nil_iff.mp none command member)
  obtain ⟨evaluation, evaluated⟩ := exists_fromMatches hasMatch
  exact ⟨_, congrArg (Option.map _) evaluated⟩

theorem matchedRules_of_fromMatches {matchedRules : List RuleMatch} {evaluation : Evaluation}
    (evaluated : Evaluation.fromMatches matchedRules = some evaluation) :
    evaluation.matchedRules = matchedRules := by
  obtain ⟨decision, _, rfl⟩ := Option.map_eq_some_iff.mp evaluated
  rfl

theorem exists_skip_iff {commands : List Command} {usedComplexParsing : Bool}
    {evaluation : Evaluation} :
    (∃ amendment, requirementFor shell host policy request commands usedComplexParsing evaluation =
        .skip true amendment) ↔
      evaluation.decision = .allow ∧
        ∃ ruleMatch ∈ evaluation.matchedRules, isPolicyMatchWith .allow ruleMatch = true := by
  unfold requirementFor
  cases decided : evaluation.decision with
  | allow => simp [List.any_eq_true]
  | prompt =>
      dsimp only
      split <;> simp
  | forbidden => simp

/-- A request skips the approval and the sandbox exactly when all its matches allow and one of them
is the match of a rule. -/
theorem bypasses_iff :
    (∃ amendment, createExecApprovalRequirementForCommand shell host policy request commandsFor =
        some (.skip true amendment)) ↔
      (∀ ruleMatch ∈ requestMatches shell host policy request commandsFor,
        ruleMatch.decision = .allow) ∧
      ∃ ruleMatch ∈ requestMatches shell host policy request commandsFor,
        ruleMatch.isPolicyMatch = true := by
  have unfolded : createExecApprovalRequirementForCommand shell host policy request commandsFor =
      (Evaluation.fromMatches (requestMatches shell host policy request commandsFor)).map
        (requirementFor shell host policy request (commandsFor request.command).1
          (commandsFor request.command).2) := rfl
  rw [unfolded]
  cases evaluated : Evaluation.fromMatches
    (requestMatches shell host policy request commandsFor) with
  | none =>
      have noMatches : requestMatches shell host policy request commandsFor = [] := by
        by_contra nonempty
        obtain ⟨evaluation, some_⟩ := exists_fromMatches nonempty
        rw [evaluated] at some_
        cases some_
      simp [noMatches]
  | some evaluation =>
      simp only [Option.map_some, Option.some.injEq]
      rw [exists_skip_iff, fromMatches_allow_iff evaluated, matchedRules_of_fromMatches evaluated]
      apply and_congr_right
      intro allAllow
      apply exists_congr
      intro ruleMatch
      apply and_congr_right
      intro member
      simp [isPolicyMatchWith, allAllow ruleMatch member]

/-- A mixed request is taken out of the sandbox as a whole. -/
theorem bypasses_of_mixed (mixed : MixedAllow shell host policy request commandsFor) :
    ∃ amendment, createExecApprovalRequirementForCommand shell host policy request commandsFor =
      some (.skip true amendment) := by
  refine bypasses_iff.mpr ⟨?_, ?_⟩
  · intro ruleMatch member
    obtain ⟨command, inCommands, matched⟩ := List.mem_flatMap.mp member
    by_cases unmatched : policy.ruleMatches host true command = []
    · rw [matchesForCommand_of_unmatched unmatched] at matched
      rw [List.mem_singleton.mp matched]
      exact mixed.heuristicsAllow command inCommands unmatched
    · rw [matchesForCommand_of_matched unmatched] at matched
      exact mixed.rulesAllow command inCommands ruleMatch matched
  · obtain ⟨command, inCommands, matched⟩ := mixed.matched
    obtain ⟨ruleMatch, member⟩ := List.exists_mem_of_ne_nil _ matched
    refine ⟨ruleMatch, List.mem_flatMap.mpr ⟨command, inCommands, ?_⟩,
      isPolicyMatch_of_mem_ruleMatches member⟩
    rwa [matchesForCommand_of_matched matched]

/-- When all the matches of a request allow, so do the rules that match one of its commands. -/
theorem rule_allows_of_allAllow
    (allAllow : ∀ ruleMatch ∈ requestMatches shell host policy request commandsFor,
      ruleMatch.decision = .allow)
    {command : Command} (inCommands : command ∈ (commandsFor request.command).1)
    {ruleMatch : RuleMatch} (member : ruleMatch ∈ policy.ruleMatches host true command) :
    ruleMatch.decision = .allow := by
  apply allAllow
  refine List.mem_flatMap.mpr ⟨command, inCommands, ?_⟩
  rwa [matchesForCommand_of_matched (List.ne_nil_of_mem member)]

/-- A request that bypasses the sandbox with a command that no rule matches is mixed. -/
theorem mixed_of_unmatched
    (allAllow : ∀ ruleMatch ∈ requestMatches shell host policy request commandsFor,
      ruleMatch.decision = .allow)
    (ruled : ∃ ruleMatch ∈ requestMatches shell host policy request commandsFor,
      ruleMatch.isPolicyMatch = true)
    {command : Command} (inCommands : command ∈ (commandsFor request.command).1)
    (unmatched : policy.ruleMatches host true command = []) :
    MixedAllow shell host policy request commandsFor where
  matched := by
    -- The match of a rule belongs to another command.
    obtain ⟨ruleMatch, inMatches, isRule⟩ := ruled
    obtain ⟨other, inside, isMatch⟩ := List.mem_flatMap.mp inMatches
    refine ⟨other, inside, ?_⟩
    intro otherUnmatched
    rw [matchesForCommand_of_unmatched otherUnmatched] at isMatch
    rw [List.mem_singleton.mp isMatch] at isRule
    cases isRule
  unmatched := ⟨command, inCommands, unmatched⟩
  rulesAllow := fun _ inside _ member => rule_allows_of_allAllow allAllow inside member
  heuristicsAllow := by
    intro other inside otherUnmatched
    have isMatch := List.mem_singleton_self (RuleMatch.heuristicsRuleMatch other
      (renderDecisionForUnmatchedCommand shell request (commandsFor request.command).2 other))
    rw [← matchesForCommand_of_unmatched otherUnmatched] at isMatch
    exact allAllow _ (List.mem_flatMap.mpr ⟨other, inside, isMatch⟩)

/-- The sandbox is bypassed only when a rule allows every command of the request, unless the request
mixes commands that rules allow with commands that only the heuristics allow. -/
theorem bypass_covers_commands_iff :
    (∀ amendment, createExecApprovalRequirementForCommand shell host policy request commandsFor =
        some (.skip true amendment) →
      ∀ command ∈ (commandsFor request.command).1, AllowedByRule host policy command) ↔
    ¬ MixedAllow shell host policy request commandsFor := by
  constructor
  · intro covers mixed
    obtain ⟨amendment, bypasses⟩ := bypasses_of_mixed mixed
    obtain ⟨command, inCommands, unmatched⟩ := mixed.unmatched
    obtain ⟨ruleMatch, member, _⟩ := covers amendment bypasses command inCommands
    rw [unmatched] at member
    cases member
  · intro unmixed amendment bypasses command inCommands
    obtain ⟨allAllow, ruled⟩ := bypasses_iff.mp ⟨amendment, bypasses⟩
    by_cases unmatched : policy.ruleMatches host true command = []
    · exact absurd (mixed_of_unmatched allAllow ruled inCommands unmatched) unmixed
    · obtain ⟨ruleMatch, member⟩ := List.exists_mem_of_ne_nil _ unmatched
      exact ⟨ruleMatch, member, rule_allows_of_allAllow allAllow inCommands member⟩

/-- A script of two commands. -/
def chainedScript : Text := "git status && make install".toList

/-- A shell that reads this script. -/
def chainedShell : Shell where
  parseWordOnlyCommands script :=
    if script = chainedScript then
      some [["git".toList, "status".toList], ["make".toList, "install".toList]]
    else none
  parseHeredocCommand _ := none
  isSafeCommandWindows _ := false
  shlexTryJoin _ := none

/-- A policy that allows `git status`. -/
def gitStatusPolicy : Policy where
  rulesByProgram :=
    AList.insert "git".toList
      [⟨⟨"git".toList, [.single "status".toList]⟩, .allow, none⟩] ∅
  hostExecutablesByName := ∅

/-- The script under the default settings of a restricted sandbox. -/
def chainedRequest : ExecApprovalRequest where
  command := ["bash".toList, "-lc".toList, chainedScript]
  approvalPolicy := .onRequest
  sandboxPolicy := .workspaceWrite
  fileSystemSandboxPolicy := ⟨.restricted, []⟩
  sandboxPermissions := .useDefault
  prefixRule := none

/-- The rule for the first command takes the second one out of the sandbox. -/
theorem bypass_leaves_command_uncovered :
    ¬ ∀ shell host policy request commandsFor,
      (∀ command : Command, (commandsFor command).1 ≠ ([] : List Command)) →
      ∀ amendment, createExecApprovalRequirementForCommand shell host policy request commandsFor =
          some (.skip true amendment) →
        ∀ command ∈ (commandsFor request.command).1, AllowedByRule host policy command := by
  intro covers
  obtain ⟨ruleMatch, member, _⟩ := covers chainedShell Host.bare gitStatusPolicy chainedRequest
    (commandsForExecPolicy chainedShell) (commandsForExecPolicy_ne_nil chainedShell) none (by rfl)
    ["make".toList, "install".toList] (by decide)
  have unmatched : gitStatusPolicy.ruleMatches Host.bare true
      ["make".toList, "install".toList] = [] := by rfl
  rw [unmatched] at member
  cases member

end Bypass

end CodexPilot.ExecPolicy
