import CodexPilot.AbsolutePath
import CodexPilot.RustStd.Iter
import Mathlib.Data.List.AList

/-!
# Exec policies

A policy holds prefix rules by the program they are about.  A command is matched against the rules
of its first word and, when none of them matches, as a host executable against the rules of its base
name.  The strictest of all matches decides.
-/

namespace CodexPilot.ExecPolicy

open RustStd

/-- The words of a command. -/
abbrev Command := List Text

/-- What may happen to a command, from the most lenient to the strictest decision. -/
inductive Decision where
  | allow
  | prompt
  | forbidden
  deriving DecidableEq

namespace Decision

/-- The strictness of a decision. -/
def rank : Decision → ℕ
  | .allow => 0
  | .prompt => 1
  | .forbidden => 2

theorem rank_injective : Function.Injective rank := by
  intro left right
  cases left <;> cases right <;> simp [rank]

instance : LinearOrder Decision := LinearOrder.lift' rank rank_injective

theorem le_allow_iff {decision : Decision} : decision ≤ .allow ↔ decision = .allow := by
  cases decision <;> decide

end Decision

/-! ## Rules -/

/-- One word of a pattern: a fixed one or one of several. -/
inductive PatternToken where
  | single (expected : Text)
  | alts (alternatives : List Text)

/-- Whether a word fits a token of a pattern. -/
def PatternToken.accepts : PatternToken → Text → Bool
  | .single expected, token => expected == token
  | .alts alternatives, token => alternatives.any (· == token)

/-- A pattern for the beginning of a command; its first word is fixed. -/
structure PrefixPattern where
  first : Text
  rest : List PatternToken

/-- The part of a command that fits a pattern. -/
def PrefixPattern.matchesPrefix (pattern : PrefixPattern) (command : Command) :
    Option (List Text) :=
  let patternLength := pattern.rest.length + 1
  if command.length < patternLength ∨ command.head? ≠ some pattern.first then none
  else if (pattern.rest.zip (command.tail.take pattern.rest.length)).all
      fun (token, word) => token.accepts word then
    some (command.take patternLength)
  else none

/-- How a command was decided: by a rule, or by the heuristics when no rule matches. -/
inductive RuleMatch where
  | prefixRuleMatch (matchedPrefix : List Text) (decision : Decision)
      (resolvedProgram : Option AbsolutePathBuf) (justification : Option Text)
  | heuristicsRuleMatch (command : Command) (decision : Decision)

namespace RuleMatch

/-- The decision of a match. -/
def decision : RuleMatch → Decision
  | .prefixRuleMatch _ decision _ _ => decision
  | .heuristicsRuleMatch _ decision => decision

/-- Note the executable that a match stands for. -/
def withResolvedProgram (ruleMatch : RuleMatch) (program : AbsolutePathBuf) : RuleMatch :=
  match ruleMatch with
  | .prefixRuleMatch matchedPrefix decision _ justification =>
      .prefixRuleMatch matchedPrefix decision (some program) justification
  | other => other

/-- Whether a match comes from a rule. -/
def isPolicyMatch : RuleMatch → Bool
  | .prefixRuleMatch _ _ _ _ => true
  | .heuristicsRuleMatch _ _ => false

end RuleMatch

/-- A rule about the commands with a given beginning. -/
structure PrefixRule where
  pattern : PrefixPattern
  decision : Decision
  justification : Option Text

/-- The match of a rule with a command. -/
def PrefixRule.matchCommand (rule : PrefixRule) (command : Command) : Option RuleMatch :=
  (rule.pattern.matchesPrefix command).map fun matchedPrefix =>
    .prefixRuleMatch matchedPrefix rule.decision none rule.justification

/-! ## Policies -/

/-- Rules by program, and the paths that a program may have on the host. -/
structure Policy where
  rulesByProgram : AList fun _ : Text => List PrefixRule
  hostExecutablesByName : AList fun _ : Text => List AbsolutePathBuf

namespace Policy

/-- A policy without rules. -/
def empty : Policy := ⟨∅, ∅⟩

/-- Add a rule for the commands with the given beginning. -/
def addPrefixRule (policy : Policy) (words : List Text) (decision : Decision) : Option Policy :=
  match words with
  | [] => none
  | first :: rest =>
      let rule : PrefixRule := ⟨⟨first, rest.map .single⟩, decision, none⟩
      let rules := (policy.rulesByProgram.lookup first).getD []
      some { policy with rulesByProgram := policy.rulesByProgram.insert first (rules ++ [rule]) }

/-- The matches of the rules of the first word. -/
def matchExactRules (policy : Policy) (command : Command) : List RuleMatch :=
  match command with
  | [] => []
  | first :: _ =>
      ((policy.rulesByProgram.lookup first).getD []).filterMap (·.matchCommand command)

/-- Whether an executable may stand for its base name. -/
def permitsExecutable (policy : Policy) (basename : Text) (program : AbsolutePathBuf) : Bool :=
  match policy.hostExecutablesByName.lookup basename with
  | some paths => paths.any (· == program)
  | none => true

/-- The matches of the rules of the base name of an executable. -/
def matchHostExecutableRules (host : Host) (policy : Policy) (command : Command) : List RuleMatch :=
  match command with
  | [] => []
  | first :: arguments =>
      match AbsolutePathBuf.fromAbsolutePath host first with
      | none => []
      | some program =>
          match program.segments.getLast? with
          | none => []
          | some basename =>
              match policy.rulesByProgram.lookup basename with
              | none => []
              | some rules =>
                  if policy.permitsExecutable basename program then
                    (rules.filterMap (·.matchCommand (basename :: arguments))).map
                      (·.withResolvedProgram program)
                  else []

/-- The matches of the rules of a policy. -/
def ruleMatches (host : Host) (policy : Policy) (resolveHostExecutables : Bool)
    (command : Command) : List RuleMatch :=
  let exact := policy.matchExactRules command
  if exact.isEmpty && resolveHostExecutables then policy.matchHostExecutableRules host command
  else exact

/-- The matches of a command; without a rule that matches, the heuristics decide. -/
def matchesForCommand (host : Host) (policy : Policy) (resolveHostExecutables : Bool)
    (fallback : Command → Decision) (command : Command) : List RuleMatch :=
  let matched := policy.ruleMatches host resolveHostExecutables command
  if matched.isEmpty then [.heuristicsRuleMatch command (fallback command)] else matched

end Policy

/-- The matches of commands and what follows from them. -/
structure Evaluation where
  decision : Decision
  matchedRules : List RuleMatch

/-- The strictest decision of the matches; there has to be one. -/
def Evaluation.fromMatches (matchedRules : List RuleMatch) : Option Evaluation :=
  (maxByKey id (matchedRules.map RuleMatch.decision)).map fun decision =>
    { decision, matchedRules }

/-- Check a single command. -/
def Policy.check (host : Host) (policy : Policy) (resolveHostExecutables : Bool)
    (fallback : Command → Decision) (command : Command) : Option Evaluation :=
  Evaluation.fromMatches (policy.matchesForCommand host resolveHostExecutables fallback command)

/-- Check several commands together. -/
def Policy.checkMultiple (host : Host) (policy : Policy) (resolveHostExecutables : Bool)
    (fallback : Command → Decision) (commands : List Command) : Option Evaluation :=
  Evaluation.fromMatches
    (commands.flatMap (policy.matchesForCommand host resolveHostExecutables fallback))

/-! ## Matches -/

section Matches

variable {host : Host} {policy : Policy} {resolveHostExecutables : Bool}
  {fallback : Command → Decision} {command : Command} {ruleMatch : RuleMatch}

theorem isPolicyMatch_of_matchCommand {rule : PrefixRule}
    (matched : rule.matchCommand command = some ruleMatch) : ruleMatch.isPolicyMatch = true := by
  obtain ⟨_, _, rfl⟩ := Option.map_eq_some_iff.mp matched
  rfl

theorem isPolicyMatch_withResolvedProgram (program : AbsolutePathBuf) :
    (ruleMatch.withResolvedProgram program).isPolicyMatch = ruleMatch.isPolicyMatch := by
  cases ruleMatch <;> rfl

/-- The rules of a policy only give matches of rules. -/
theorem isPolicyMatch_of_mem_ruleMatches
    (member : ruleMatch ∈ policy.ruleMatches host resolveHostExecutables command) :
    ruleMatch.isPolicyMatch = true := by
  have exactMatch (inExact : ruleMatch ∈ policy.matchExactRules command) :
      ruleMatch.isPolicyMatch = true := by
    unfold Policy.matchExactRules at inExact
    split at inExact
    · cases inExact
    · obtain ⟨rule, _, matched⟩ := List.mem_filterMap.mp inExact
      exact isPolicyMatch_of_matchCommand matched
  have hostMatch (inHost : ruleMatch ∈ policy.matchHostExecutableRules host command) :
      ruleMatch.isPolicyMatch = true := by
    unfold Policy.matchHostExecutableRules at inHost
    repeat' split at inHost
    all_goals first
      | cases inHost
      | obtain ⟨inner, inMatches, rfl⟩ := List.mem_map.mp inHost
        obtain ⟨rule, _, matched⟩ := List.mem_filterMap.mp inMatches
        rw [isPolicyMatch_withResolvedProgram]
        exact isPolicyMatch_of_matchCommand matched
  simp only [Policy.ruleMatches] at member
  split at member
  · exact hostMatch member
  · exact exactMatch member

theorem matchesForCommand_of_unmatched
    (unmatched : policy.ruleMatches host resolveHostExecutables command = []) :
    policy.matchesForCommand host resolveHostExecutables fallback command =
      [.heuristicsRuleMatch command (fallback command)] := by
  simp [Policy.matchesForCommand, unmatched]

theorem matchesForCommand_of_matched
    (matched : policy.ruleMatches host resolveHostExecutables command ≠ []) :
    policy.matchesForCommand host resolveHostExecutables fallback command =
      policy.ruleMatches host resolveHostExecutables command := by
  simp [Policy.matchesForCommand, matched]

/-- With heuristics, every command has a match. -/
theorem matchesForCommand_ne_nil :
    policy.matchesForCommand host resolveHostExecutables fallback command ≠ [] := by
  by_cases unmatched : policy.ruleMatches host resolveHostExecutables command = []
  · simp [matchesForCommand_of_unmatched unmatched]
  · rwa [matchesForCommand_of_matched unmatched]

theorem exists_fromMatches {matchedRules : List RuleMatch} (nonempty : matchedRules ≠ []) :
    ∃ evaluation, Evaluation.fromMatches matchedRules = some evaluation := by
  cases strictest : maxByKey id (matchedRules.map RuleMatch.decision) with
  | none => simp [maxByKey_eq_none_iff, nonempty] at strictest
  | some decision => exact ⟨_, by rw [Evaluation.fromMatches, strictest]; rfl⟩

/-- Every command can be checked. -/
theorem exists_check (host : Host) (policy : Policy) (resolveHostExecutables : Bool)
    (fallback : Command → Decision) (command : Command) :
    ∃ evaluation, policy.check host resolveHostExecutables fallback command = some evaluation :=
  exists_fromMatches matchesForCommand_ne_nil

/-- Several commands are allowed exactly when each of their matches allows. -/
theorem fromMatches_allow_iff {matchedRules : List RuleMatch} {evaluation : Evaluation}
    (evaluated : Evaluation.fromMatches matchedRules = some evaluation) :
    evaluation.decision = .allow ↔ ∀ ruleMatch ∈ matchedRules, ruleMatch.decision = .allow := by
  obtain ⟨decision, strictest, rfl⟩ := Option.map_eq_some_iff.mp evaluated
  obtain ⟨attained, bound⟩ := maxByKey_spec strictest
  constructor
  · intro allowed ruleMatch member
    have isAllow : decision = .allow := allowed
    have below := bound _ (List.mem_map_of_mem member)
    rw [isAllow] at below
    exact Decision.le_allow_iff.mp below
  · intro allAllow
    obtain ⟨ruleMatch, member, isDecision⟩ := List.mem_map.mp attained
    exact isDecision ▸ allAllow ruleMatch member

end Matches

end CodexPilot.ExecPolicy
