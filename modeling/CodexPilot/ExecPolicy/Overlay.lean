import CodexPilot.ExecPolicy.Policy

/-!
# Policies with an overlay

The rules of a requirements file are laid over the rules of the user.  All rules stay, so that the
strictest of both sides decides, unless a command reaches the managed rules through the base name of
an executable: a user rule for its full path comes first, and a user list of host executables may
leave its path out.
-/

namespace CodexPilot.ExecPolicy

open RustStd

/-- Rules by program. -/
abbrev RulesByProgram := AList fun _ : Text => List PrefixRule

namespace RulesByProgram

/-- The rules of a program. -/
def rulesOf (rules : RulesByProgram) (program : Text) : List PrefixRule :=
  (rules.lookup program).getD []

/-- Add a rule to the rules of a program. -/
def insertRule (rules : RulesByProgram) (program : Text) (rule : PrefixRule) : RulesByProgram :=
  rules.insert program (rules.rulesOf program ++ [rule])

/-- Add the rules of an overlay one by one. -/
def merge (rules overlay : RulesByProgram) : RulesByProgram :=
  overlay.entries.foldl
    (fun combined entry => entry.2.foldl (fun combined => insertRule combined entry.1) combined)
    rules

theorem rulesOf_insertRule (rules : RulesByProgram) (program key : Text) (rule : PrefixRule) :
    (insertRule rules program rule).rulesOf key =
      rules.rulesOf key ++ if key = program then [rule] else [] := by
  by_cases same : key = program
  · subst same
    simp [insertRule, rulesOf]
  · simp [insertRule, rulesOf, AList.lookup_insert_ne same, same]

theorem rulesOf_foldl_insertRule (rules : RulesByProgram) (program key : Text)
    (added : List PrefixRule) :
    (added.foldl (fun combined => insertRule combined program) rules).rulesOf key =
      rules.rulesOf key ++ if key = program then added else [] := by
  induction added generalizing rules with
  | nil => simp
  | cons rule added ih =>
      rw [List.foldl_cons, ih, rulesOf_insertRule]
      split <;> simp

/-- The rules of a program after a merge: those of the overlay come last. -/
@[simp]
theorem rulesOf_merge (rules overlay : RulesByProgram) (key : Text) :
    (rules.merge overlay).rulesOf key = rules.rulesOf key ++ overlay.rulesOf key := by
  obtain ⟨entries, distinct⟩ := overlay
  simp only [merge, rulesOf, AList.lookup]
  induction entries generalizing rules with
  | nil => simp
  | cons entry entries ih =>
      obtain ⟨program, added⟩ := entry
      have rest := ih
        (added.foldl (fun combined => insertRule combined program) rules)
        (List.nodupKeys_cons.mp distinct).2
      rw [List.foldl_cons]
      refine rest.trans ?_
      have merged := rulesOf_foldl_insertRule rules program key added
      simp only [rulesOf, AList.lookup] at merged
      rw [merged]
      by_cases same : key = program
      · subst same
        have absent : List.dlookup key entries = none :=
          List.dlookup_eq_none.mpr (List.nodupKeys_cons.mp distinct).1
        simp [absent]
      · rw [if_neg same, List.dlookup_cons_ne entries ⟨program, added⟩ same]
        simp

end RulesByProgram

namespace Policy

/-- Lay the rules and host executables of another policy over a policy. -/
def mergeOverlay (policy overlay : Policy) : Policy where
  rulesByProgram := RulesByProgram.merge policy.rulesByProgram overlay.rulesByProgram
  hostExecutablesByName := overlay.hostExecutablesByName ∪ policy.hostExecutablesByName

/-- The executable that a command names, with its base name. -/
def hostExecutable (host : Host) (command : Command) : Option (AbsolutePathBuf × Text) :=
  match command with
  | [] => none
  | first :: _ =>
      (AbsolutePathBuf.fromAbsolutePath host first).bind fun program =>
        program.segments.getLast?.map fun basename => (program, basename)

/-- The matches of the rules of a base name, for an executable that may stand for it. -/
def basenameMatches (policy : Policy) (command : Command) (program : AbsolutePathBuf)
    (basename : Text) : List RuleMatch :=
  ((RulesByProgram.rulesOf policy.rulesByProgram basename).filterMap
    (·.matchCommand (basename :: command.tail))).map (·.withResolvedProgram program)

end Policy

/-! ## Matches of the merged policy -/

section Merged

variable {host : Host} {user managed policy : Policy} {resolveHostExecutables : Bool}
  {fallback : Command → Decision} {command : Command}

theorem matchExactRules_mergeOverlay :
    (user.mergeOverlay managed).matchExactRules command =
      user.matchExactRules command ++ managed.matchExactRules command := by
  cases command with
  | nil => rfl
  | cons first arguments =>
      have merged := RulesByProgram.rulesOf_merge user.rulesByProgram managed.rulesByProgram first
      simp only [RulesByProgram.rulesOf] at merged
      simp only [Policy.matchExactRules, Policy.mergeOverlay, merged, List.filterMap_append]

theorem matchHostExecutableRules_eq :
    policy.matchHostExecutableRules host command =
      match Policy.hostExecutable host command with
      | none => []
      | some (program, basename) =>
          if policy.permitsExecutable basename program then
            policy.basenameMatches command program basename
          else [] := by
  cases command with
  | nil => rfl
  | cons first arguments =>
      simp only [Policy.matchHostExecutableRules, Policy.hostExecutable]
      cases AbsolutePathBuf.fromAbsolutePath host first with
      | none => rfl
      | some program =>
          cases last : program.segments.getLast? with
          | none => simp [last]
          | some basename =>
              simp only [last, Option.bind_some, Option.map_some, Policy.basenameMatches,
                RulesByProgram.rulesOf, List.tail_cons]
              cases policy.rulesByProgram.lookup basename <;> simp

theorem basenameMatches_mergeOverlay (program : AbsolutePathBuf) (basename : Text) :
    (user.mergeOverlay managed).basenameMatches command program basename =
      user.basenameMatches command program basename ++
        managed.basenameMatches command program basename := by
  simp [Policy.basenameMatches, Policy.mergeOverlay]

/-- The executables of the overlay come first. -/
theorem permitsExecutable_mergeOverlay (basename : Text) (program : AbsolutePathBuf) :
    (user.mergeOverlay managed).permitsExecutable basename program =
      if managed.hostExecutablesByName.lookup basename = none then
        user.permitsExecutable basename program
      else managed.permitsExecutable basename program := by
  by_cases listed : basename ∈ managed.hostExecutablesByName
  · have found : managed.hostExecutablesByName.lookup basename ≠ none := by
      simpa [AList.lookup_eq_none] using listed
    simp [Policy.permitsExecutable, Policy.mergeOverlay, AList.lookup_union_left listed, found]
  · have missing : managed.hostExecutablesByName.lookup basename = none :=
      AList.lookup_eq_none.mpr listed
    simp [Policy.permitsExecutable, Policy.mergeOverlay, AList.lookup_union_right listed, missing]

/-- One evaluation is at least as strict as another when each match of the other one is reached. -/
theorem decision_le_iff {lower upper : List RuleMatch}
    {lowerEvaluation upperEvaluation : Evaluation}
    (lowerEvaluated : Evaluation.fromMatches lower = some lowerEvaluation)
    (upperEvaluated : Evaluation.fromMatches upper = some upperEvaluation) :
    lowerEvaluation.decision ≤ upperEvaluation.decision ↔
      ∀ ruleMatch ∈ lower, ∃ other ∈ upper, ruleMatch.decision ≤ other.decision := by
  obtain ⟨low, lowest, rfl⟩ := Option.map_eq_some_iff.mp lowerEvaluated
  obtain ⟨high, highest, rfl⟩ := Option.map_eq_some_iff.mp upperEvaluated
  obtain ⟨lowAttained, lowBound⟩ := maxByKey_spec lowest
  obtain ⟨highAttained, highBound⟩ := maxByKey_spec highest
  constructor
  · intro below ruleMatch member
    obtain ⟨other, inUpper, isHigh⟩ := List.mem_map.mp highAttained
    refine ⟨other, inUpper, ?_⟩
    rw [isHigh]
    exact (lowBound _ (List.mem_map_of_mem member)).trans below
  · intro reached
    obtain ⟨ruleMatch, inLower, isLow⟩ := List.mem_map.mp lowAttained
    obtain ⟨other, inUpper, below⟩ := reached ruleMatch inLower
    calc
      low = ruleMatch.decision := isLow.symm
      _ ≤ other.decision := below
      _ ≤ high := highBound _ (List.mem_map_of_mem inUpper)

end Merged

/-! ## Weakened rules -/

section Weakened

variable {host : Host} {user managed : Policy} {resolveHostExecutables : Bool}
  {fallback : Command → Decision} {command : Command}

/-- A command for which the managed policy only has rules of the base name of its executable, and
the policy of the user keeps them from deciding. -/
inductive Weakens (host : Host) (user managed : Policy) (fallback : Command → Decision)
    (command : Command) : Prop where
  /-- A user rule for the command as it is written comes first, and all such rules are laxer. -/
  | shadowed (unmatched : managed.matchExactRules command = [])
      (matched : user.matchExactRules command ≠ [])
      (ruleMatch : RuleMatch) (member : ruleMatch ∈ managed.matchHostExecutableRules host command)
      (laxer : ∀ other ∈ user.matchExactRules command, other.decision < ruleMatch.decision)
  /-- The user lists the executables of the base name without this one, and the heuristics are
  laxer. -/
  | excluded (unmatched : managed.matchExactRules command = [])
      (userUnmatched : user.matchExactRules command = [])
      (program : AbsolutePathBuf) (basename : Text)
      (names : Policy.hostExecutable host command = some (program, basename))
      (unlisted : managed.hostExecutablesByName.lookup basename = none)
      (leftOut : user.permitsExecutable basename program = false)
      (ruleMatch : RuleMatch) (member : ruleMatch ∈ managed.matchHostExecutableRules host command)
      (laxer : fallback command < ruleMatch.decision)

/-- Rules for a command as it is written stay in the merged policy. -/
theorem ruleMatches_subset_of_exact (matched : managed.matchExactRules command ≠ []) :
    managed.ruleMatches host resolveHostExecutables command ⊆
      (user.mergeOverlay managed).ruleMatches host resolveHostExecutables command := by
  simp [Policy.ruleMatches, matchExactRules_mergeOverlay, matched]

theorem ruleMatches_of_noExact {policy : Policy} (unmatched : policy.matchExactRules command = []) :
    policy.ruleMatches host true command = policy.matchHostExecutableRules host command := by
  simp [Policy.ruleMatches, unmatched]

theorem ruleMatches_of_exact {policy : Policy} (matched : policy.matchExactRules command ≠ []) :
    policy.ruleMatches host resolveHostExecutables command = policy.matchExactRules command := by
  simp [Policy.ruleMatches, matched]

/-- The executable behind a match of a base name. -/
theorem hostExecutable_of_matched {policy : Policy}
    (matched : policy.matchHostExecutableRules host command ≠ []) :
    ∃ program basename, Policy.hostExecutable host command = some (program, basename) ∧
      policy.permitsExecutable basename program = true ∧
      policy.matchHostExecutableRules host command =
        policy.basenameMatches command program basename := by
  rw [matchHostExecutableRules_eq] at matched ⊢
  cases names : Policy.hostExecutable host command with
  | none => simp [names] at matched
  | some pair =>
      obtain ⟨program, basename⟩ := pair
      simp only [names] at matched ⊢
      by_cases permitted : policy.permitsExecutable basename program = true
      · exact ⟨program, basename, rfl, permitted, if_pos permitted⟩
      · simp [permitted] at matched

/-- Every managed match is reached by a match of the merged policy. -/
def Reached (host : Host) (user managed : Policy) (resolveHostExecutables : Bool)
    (fallback : Command → Decision) (command : Command) : Prop :=
  ∀ ruleMatch ∈ managed.ruleMatches host resolveHostExecutables command,
    ∃ other ∈ (user.mergeOverlay managed).matchesForCommand host resolveHostExecutables fallback
      command, ruleMatch.decision ≤ other.decision

theorem reached_of_subset
    (kept : managed.ruleMatches host resolveHostExecutables command ⊆
      (user.mergeOverlay managed).ruleMatches host resolveHostExecutables command) :
    Reached host user managed resolveHostExecutables fallback command := by
  intro ruleMatch member
  have inMerged := kept member
  refine ⟨ruleMatch, ?_, le_rfl⟩
  rwa [matchesForCommand_of_matched (List.ne_nil_of_mem inMerged)]

/-- A user rule for the command as it is written replaces the managed rules of its base name. -/
theorem reached_iff_of_userExact (unmatched : managed.matchExactRules command = [])
    (userMatched : user.matchExactRules command ≠ []) :
    Reached host user managed true fallback command ↔
      ∀ ruleMatch ∈ managed.matchHostExecutableRules host command,
        ∃ other ∈ user.matchExactRules command, ruleMatch.decision ≤ other.decision := by
  have exactMerged : (user.mergeOverlay managed).matchExactRules command =
      user.matchExactRules command := by
    rw [matchExactRules_mergeOverlay, unmatched, List.append_nil]
  have merged : (user.mergeOverlay managed).ruleMatches host true command =
      user.matchExactRules command := by
    rw [← exactMerged]
    exact ruleMatches_of_exact (exactMerged ▸ userMatched)
  rw [Reached, matchesForCommand_of_matched (merged ▸ userMatched), merged,
    ruleMatches_of_noExact unmatched]

/-- Without exact rules, an executable that the merged policy permits keeps its managed rules. -/
theorem reached_of_permitted {program : AbsolutePathBuf} {basename : Text}
    (unmatched : managed.matchExactRules command = [])
    (userUnmatched : user.matchExactRules command = [])
    (names : Policy.hostExecutable host command = some (program, basename))
    (permitted : (user.mergeOverlay managed).permitsExecutable basename program = true)
    (byBasename : managed.matchHostExecutableRules host command =
      managed.basenameMatches command program basename) :
    Reached host user managed true fallback command := by
  apply reached_of_subset
  have exactMerged : (user.mergeOverlay managed).matchExactRules command = [] := by
    rw [matchExactRules_mergeOverlay, unmatched, userUnmatched, List.append_nil]
  rw [ruleMatches_of_noExact unmatched, ruleMatches_of_noExact exactMerged, byBasename,
    matchHostExecutableRules_eq, names]
  simp only [permitted, if_true, basenameMatches_mergeOverlay]
  exact List.subset_append_right _ _

/-- Without exact rules, an executable that the user leaves out is left to the heuristics. -/
theorem reached_iff_of_excluded {program : AbsolutePathBuf} {basename : Text}
    (unmatched : managed.matchExactRules command = [])
    (userUnmatched : user.matchExactRules command = [])
    (names : Policy.hostExecutable host command = some (program, basename))
    (excluded : (user.mergeOverlay managed).permitsExecutable basename program = false) :
    Reached host user managed true fallback command ↔
      ∀ ruleMatch ∈ managed.matchHostExecutableRules host command,
        ruleMatch.decision ≤ fallback command := by
  have exactMerged : (user.mergeOverlay managed).matchExactRules command = [] := by
    rw [matchExactRules_mergeOverlay, unmatched, userUnmatched, List.append_nil]
  have merged : (user.mergeOverlay managed).ruleMatches host true command = [] := by
    rw [ruleMatches_of_noExact exactMerged, matchHostExecutableRules_eq, names]
    simp [excluded]
  rw [Reached, matchesForCommand_of_unmatched merged, ruleMatches_of_noExact unmatched]
  simp [RuleMatch.decision]

/-- Where user rules match the command as it is written, only they can weaken the managed rules. -/
theorem weakens_iff_of_userExact (unmatched : managed.matchExactRules command = [])
    (userMatched : user.matchExactRules command ≠ []) :
    Weakens host user managed fallback command ↔
      ∃ ruleMatch ∈ managed.matchHostExecutableRules host command,
        ∀ other ∈ user.matchExactRules command, other.decision < ruleMatch.decision := by
  constructor
  · intro weakens
    cases weakens with
    | shadowed _ _ ruleMatch member laxer => exact ⟨ruleMatch, member, laxer⟩
    | excluded _ userUnmatched => exact absurd userUnmatched userMatched
  · rintro ⟨ruleMatch, member, laxer⟩
    exact .shadowed unmatched userMatched ruleMatch member laxer

/-- Without exact rules, the managed rules are weakened by a list of the user that leaves the
executable out. -/
theorem weakens_iff_of_noExact {program : AbsolutePathBuf} {basename : Text}
    (unmatched : managed.matchExactRules command = [])
    (userUnmatched : user.matchExactRules command = [])
    (names : Policy.hostExecutable host command = some (program, basename))
    (permitted : managed.permitsExecutable basename program = true) :
    Weakens host user managed fallback command ↔
      (user.mergeOverlay managed).permitsExecutable basename program = false ∧
        ∃ ruleMatch ∈ managed.matchHostExecutableRules host command,
          fallback command < ruleMatch.decision := by
  constructor
  · intro weakens
    cases weakens with
    | shadowed _ userMatched => exact absurd userUnmatched userMatched
    | excluded _ _ otherProgram otherName otherNames unlisted leftOut ruleMatch member laxer =>
        obtain ⟨rfl, rfl⟩ := Prod.ext_iff.mp (Option.some.inj (names.symm.trans otherNames))
        rw [permitsExecutable_mergeOverlay, if_pos unlisted]
        exact ⟨leftOut, ruleMatch, member, laxer⟩
  · rintro ⟨leftOut, ruleMatch, member, laxer⟩
    -- The managed policy permits the executable, so the list is one of the user.
    have unlisted : managed.hostExecutablesByName.lookup basename = none := by
      by_contra listed
      rw [permitsExecutable_mergeOverlay, if_neg listed, permitted] at leftOut
      cases leftOut
    rw [permitsExecutable_mergeOverlay, if_pos unlisted] at leftOut
    exact .excluded unmatched userUnmatched program basename names unlisted leftOut ruleMatch member
      laxer

/-- The managed matches are reached unless the user policy weakens them. -/
theorem reached_iff (matched : managed.ruleMatches host resolveHostExecutables command ≠ []) :
    Reached host user managed resolveHostExecutables fallback command ↔
      ¬ (resolveHostExecutables = true ∧ Weakens host user managed fallback command) := by
  by_cases unmatched : managed.matchExactRules command = []
  · obtain rfl : resolveHostExecutables = true := by
      by_contra unresolved
      simp [Policy.ruleMatches, unmatched, unresolved] at matched
    rw [ruleMatches_of_noExact unmatched] at matched
    obtain ⟨program, basename, names, permitted, byBasename⟩ := hostExecutable_of_matched matched
    rw [eq_self, true_and]
    by_cases userUnmatched : user.matchExactRules command = []
    · rw [weakens_iff_of_noExact unmatched userUnmatched names permitted]
      cases mergedPermits : (user.mergeOverlay managed).permitsExecutable basename program with
      | true =>
          refine iff_of_true ?_ (by simp)
          exact reached_of_permitted unmatched userUnmatched names mergedPermits byBasename
      | false =>
          rw [reached_iff_of_excluded unmatched userUnmatched names mergedPermits]
          push Not
          simp
    · rw [reached_iff_of_userExact unmatched userUnmatched,
        weakens_iff_of_userExact unmatched userUnmatched]
      push Not
      rfl
  · refine iff_of_true (reached_of_subset (ruleMatches_subset_of_exact unmatched)) ?_
    rintro ⟨_, weakened⟩
    cases weakened with
    | shadowed none | excluded none => exact unmatched none

/-- The merged policy is at least as strict as the managed policy on every command that a managed
rule matches, unless the command reaches the managed rules only through the base name of its
executable and the user policy weakens them there. -/
theorem overlay_at_least_as_strict_iff :
    (managed.ruleMatches host resolveHostExecutables command ≠ [] →
      ∀ alone merged,
        managed.check host resolveHostExecutables fallback command = some alone →
        (user.mergeOverlay managed).check host resolveHostExecutables fallback command =
          some merged →
        alone.decision ≤ merged.decision) ↔
    ¬ (resolveHostExecutables = true ∧ Weakens host user managed fallback command) := by
  by_cases matched : managed.ruleMatches host resolveHostExecutables command = []
  · refine iff_of_true (fun managedMatches => absurd matched managedMatches) ?_
    rintro ⟨rfl, weakened⟩
    cases weakened with
    | shadowed unmatched _ ruleMatch member | excluded unmatched _ _ _ _ _ _ ruleMatch member =>
        rw [ruleMatches_of_noExact unmatched] at matched
        rw [matched] at member
        cases member
  · rw [← reached_iff matched]
    have stays : managed.matchesForCommand host resolveHostExecutables fallback command =
        managed.ruleMatches host resolveHostExecutables command :=
      matchesForCommand_of_matched matched
    constructor
    · intro stricter
      obtain ⟨alone, aloneEvaluated⟩ :=
        exists_check host managed resolveHostExecutables fallback command
      obtain ⟨merged, mergedEvaluated⟩ :=
        exists_check host (user.mergeOverlay managed) resolveHostExecutables fallback command
      have below := stricter matched alone merged aloneEvaluated mergedEvaluated
      rw [decision_le_iff aloneEvaluated mergedEvaluated, stays] at below
      exact below
    · intro reached _ alone merged aloneEvaluated mergedEvaluated
      rw [decision_le_iff aloneEvaluated mergedEvaluated, stays]
      exact reached

/-- A policy with one rule about a program. -/
def singleRulePolicy (program : Text) (decision : Decision) : Policy where
  rulesByProgram := AList.insert program [⟨⟨program, []⟩, decision, none⟩] ∅
  hostExecutablesByName := ∅

/-- A user rule for the full path of an executable takes a managed rule for its base name away. -/
theorem overlay_weakened_by_path :
    ¬ ∀ (host : Host) (user managed : Policy) (resolveHostExecutables : Bool)
        (fallback : Command → Decision) (command : Command),
      managed.ruleMatches host resolveHostExecutables command ≠ [] →
      ∀ alone merged,
        managed.check host resolveHostExecutables fallback command = some alone →
        (user.mergeOverlay managed).check host resolveHostExecutables fallback command =
          some merged →
        alone.decision ≤ merged.decision := by
  intro stricter
  have below := stricter Host.bare (singleRulePolicy "/usr/bin/git".toList .allow)
    (singleRulePolicy "git".toList .forbidden) true (fun _ => .prompt)
    ["/usr/bin/git".toList, "push".toList] (by decide) _ _ rfl rfl
  revert below
  decide

end Weakened

end CodexPilot.ExecPolicy
