import CodexPilot.ExecPolicy.Approval
import CodexPilot.ExecPolicy.Overlay

/-!
# Amendments of a policy

A request may ask for a prefix rule that would allow its commands.  When the user accepts it, the
rule is added to the policy in memory, unless the policy already allows the prefix when it is read
as a command of its own.
-/

namespace CodexPilot.ExecPolicy

open RustStd

/-- The policy in memory after an amendment was written to its file. -/
def appendAmendmentAndUpdate (host : Host) (policy : Policy) (amendment : ExecPolicyAmendment) :
    Option Policy :=
  match policy.checkMultiple host true (fun _ => .forbidden) [amendment] with
  | none => none
  | some existing =>
      let alreadyAllowed := decide (existing.decision = .allow) &&
        existing.matchedRules.any (isPolicyMatchWith .allow)
      if alreadyAllowed then some policy else policy.addPrefixRule amendment .allow

/-! ## Patterns -/

section Patterns

variable {host : Host} {policy : Policy} {command : Command}

/-- A pattern matches the commands that begin with words it accepts. -/
theorem isSome_matchesPrefix_iff {pattern : PrefixPattern} :
    (pattern.matchesPrefix command).isSome = true ↔
      ∃ words rest, command = pattern.first :: (words ++ rest) ∧
        List.Forall₂ (fun token word => token.accepts word = true) pattern.rest words := by
  constructor
  · intro isSome
    unfold PrefixPattern.matchesPrefix at isSome
    dsimp only at isSome
    split at isSome
    next => exact absurd isSome (by simp)
    next fits =>
      split at isSome
      next accepted =>
        obtain ⟨long, sameFirst⟩ := not_or.mp fits
        obtain ⟨arguments, rfl⟩ := List.head?_eq_some_iff.mp (not_not.mp sameFirst)
        rw [List.length_cons, Nat.add_lt_add_iff_right, not_lt] at long
        refine ⟨arguments.take pattern.rest.length, arguments.drop pattern.rest.length, ?_, ?_⟩
        · rw [List.take_append_drop]
        · rw [List.forall₂_iff_zip, List.length_take, min_eq_left long]
          exact ⟨rfl, fun {token word} inZip => List.all_eq_true.mp accepted (token, word) inZip⟩
      next => exact absurd isSome (by simp)
  · rintro ⟨words, rest, rfl, accepted⟩
    have sameLength := accepted.length_eq
    unfold PrefixPattern.matchesPrefix
    dsimp only
    split
    next short =>
      rw [List.length_cons, List.length_append, ← sameLength] at short
      obtain tooShort | differs := short
      · omega
      · exact absurd rfl differs
    next =>
      split
      next => rfl
      next rejected =>
        refine absurd (List.all_eq_true.mpr ?_) rejected
        rintro ⟨token, word⟩ inZip
        rw [List.tail_cons, sameLength, List.take_left] at inZip
        exact List.forall₂_zip accepted inZip

theorem isSome_matchCommand {rule : PrefixRule} :
    (rule.matchCommand command).isSome = (rule.pattern.matchesPrefix command).isSome := by
  simp [PrefixRule.matchCommand]

/-- A rule that matches a command matches every longer one. -/
theorem isSome_matchCommand_append {rule : PrefixRule} (rest : List Text)
    (matched : (rule.matchCommand command).isSome = true) :
    (rule.matchCommand (command ++ rest)).isSome = true := by
  rw [isSome_matchCommand, isSome_matchesPrefix_iff] at matched ⊢
  obtain ⟨words, more, rfl, accepted⟩ := matched
  exact ⟨words, more ++ rest, by simp, accepted⟩

theorem filterMap_matchCommand_ne_nil_iff {rules : List PrefixRule} :
    rules.filterMap (·.matchCommand command) ≠ [] ↔
      ∃ rule ∈ rules, (rule.matchCommand command).isSome = true := by
  simp [List.filterMap_eq_nil_iff, Option.isSome_iff_ne_none]

/-- The rule of an amendment matches the commands that begin with it. -/
theorem isSome_matchCommand_single_iff {first : Text} {words : List Text} {decision : Decision} :
    ((⟨⟨first, words.map .single⟩, decision, none⟩ : PrefixRule).matchCommand command).isSome =
        true ↔
      first :: words <+: command := by
  rw [isSome_matchCommand, isSome_matchesPrefix_iff]
  constructor
  · rintro ⟨accepted, rest, rfl, sameWords⟩
    rw [List.forall₂_map_left_iff] at sameWords
    have same : List.Forall₂ Eq words accepted :=
      sameWords.imp fun _ _ accepts => by simpa [PatternToken.accepts] using accepts
    rw [List.forall₂_eq_eq_eq] at same
    exact ⟨rest, by simp [same]⟩
  · rintro ⟨rest, rfl⟩
    refine ⟨words, rest, rfl, ?_⟩
    rw [List.forall₂_map_left_iff]
    exact List.forall₂_same.mpr fun _ _ => by simp [PatternToken.accepts]

end Patterns

/-! ## Matched commands -/

section Matched

variable {host : Host} {policy : Policy} {command : Command}

theorem matchExactRules_ne_nil_iff {first : Text} {arguments : List Text} :
    policy.matchExactRules (first :: arguments) ≠ [] ↔
      ∃ rule ∈ RulesByProgram.rulesOf policy.rulesByProgram first,
        (rule.matchCommand (first :: arguments)).isSome = true :=
  filterMap_matchCommand_ne_nil_iff

theorem basenameMatches_ne_nil_iff {program : AbsolutePathBuf} {basename : Text} :
    policy.basenameMatches command program basename ≠ [] ↔
      ∃ rule ∈ RulesByProgram.rulesOf policy.rulesByProgram basename,
        (rule.matchCommand (basename :: command.tail)).isSome = true := by
  rw [Policy.basenameMatches, ne_eq, List.map_eq_nil_iff]
  exact filterMap_matchCommand_ne_nil_iff

theorem matchHostExecutableRules_ne_nil_iff :
    policy.matchHostExecutableRules host command ≠ [] ↔
      ∃ program basename, Policy.hostExecutable host command = some (program, basename) ∧
        policy.permitsExecutable basename program = true ∧
        ∃ rule ∈ RulesByProgram.rulesOf policy.rulesByProgram basename,
          (rule.matchCommand (basename :: command.tail)).isSome = true := by
  constructor
  · intro matched
    obtain ⟨program, basename, names, permitted, isMatches⟩ := hostExecutable_of_matched matched
    rw [isMatches, basenameMatches_ne_nil_iff] at matched
    exact ⟨program, basename, names, permitted, matched⟩
  · rintro ⟨program, basename, names, permitted, matched⟩
    rw [matchHostExecutableRules_eq, names]
    simp only [permitted, if_true]
    exact basenameMatches_ne_nil_iff.mpr matched

theorem ruleMatches_ne_nil_iff :
    policy.ruleMatches host true command ≠ [] ↔
      policy.matchExactRules command ≠ [] ∨ policy.matchHostExecutableRules host command ≠ [] := by
  by_cases unmatched : policy.matchExactRules command = []
  · simp [ruleMatches_of_noExact unmatched, unmatched]
  · simp [ruleMatches_of_exact unmatched, unmatched]

/-- A policy that matches a command matches every longer one. -/
theorem ruleMatches_append_ne_nil (rest : List Text)
    (matched : policy.ruleMatches host true command ≠ []) :
    policy.ruleMatches host true (command ++ rest) ≠ [] := by
  cases command with
  | nil => simp [Policy.ruleMatches, Policy.matchExactRules, Policy.matchHostExecutableRules]
      at matched
  | cons first arguments =>
      rw [ruleMatches_ne_nil_iff] at matched ⊢
      rcases matched with exactly | byName
      · left
        obtain ⟨rule, member, isMatch⟩ := matchExactRules_ne_nil_iff.mp exactly
        exact matchExactRules_ne_nil_iff.mpr
          ⟨rule, member, isSome_matchCommand_append rest isMatch⟩
      · right
        obtain ⟨program, basename, names, permitted, rule, member, isMatch⟩ :=
          matchHostExecutableRules_ne_nil_iff.mp byName
        exact matchHostExecutableRules_ne_nil_iff.mpr
          ⟨program, basename, names, permitted, rule, member,
            isSome_matchCommand_append rest isMatch⟩

theorem isName_of_hostExecutable {program : AbsolutePathBuf} {basename : Text}
    (names : Policy.hostExecutable host command = some (program, basename)) : IsName basename := by
  cases command with
  | nil => cases names
  | cons first arguments =>
      obtain ⟨path, _, last⟩ := Option.bind_eq_some_iff.mp names
      obtain ⟨name, isLast, same⟩ := Option.map_eq_some_iff.mp last
      obtain ⟨rfl, rfl⟩ := Prod.ext_iff.mp same
      exact path.named name (List.mem_of_getLast? isLast)

/-- A plain name other than `~` has no rules as a host executable that it does not have itself. -/
theorem matchExactRules_of_isName {name : Text} {arguments : List Text} (named : IsName name)
    (notHome : name ≠ ['~'])
    (matched : policy.matchHostExecutableRules host (name :: arguments) ≠ []) :
    policy.matchExactRules (name :: arguments) ≠ [] := by
  obtain ⟨program, basename, names, _, rule, member, isMatch⟩ :=
    matchHostExecutableRules_ne_nil_iff.mp matched
  obtain ⟨path, resolved, last⟩ := Option.bind_eq_some_iff.mp names
  rw [AbsolutePathBuf.getLast?_fromAbsolutePath_of_isName named notHome resolved] at last
  obtain ⟨rfl, rfl⟩ := Prod.ext_iff.mp (Option.some.inj last)
  exact matchExactRules_ne_nil_iff.mpr ⟨rule, member, isMatch⟩

end Matched

/-! ## Accepted amendments -/

section Accepted

variable {host : Host} {policy : Policy} {fallback : Command → Decision} {commands : List Command}
  {prefixRule : Option (List Text)} {evaluation : Evaluation} {amendment : ExecPolicyAmendment}

/-- An amendment for the word `~` that is taken for allowed already: as a command, its first word is
the home directory, and the rules of the base name of that directory all allow it. -/
structure HomeShortcut (host : Host) (policy : Policy) (fallback : Command → Decision)
    (commands : List Command) (amendment : ExecPolicyAmendment) : Prop where
  home : amendment.head? = some ['~']
  unmatched : policy.matchExactRules amendment = []
  matched : policy.matchHostExecutableRules host amendment ≠ []
  allows : ∀ ruleMatch ∈ policy.matchHostExecutableRules host amendment,
    ruleMatch.decision = .allow
  /-- The heuristics do not allow all of the commands. -/
  rejected : ∃ command ∈ commands, fallback command ≠ .allow

/-- A policy with the rule of an amendment. -/
def Policy.allowPrefix (policy : Policy) (first : Text) (words : List Text) : Policy :=
  { policy with
    rulesByProgram := RulesByProgram.insertRule policy.rulesByProgram first
      (PrefixRule.mk ⟨first, words.map .single⟩ .allow none) }

/-- What an offered amendment was checked for. -/
structure Offered (host : Host) (policy : Policy) (fallback : Command → Decision)
    (commands : List Command) (first : Text) (words : List Text) : Prop where
  unmatched : ∀ command ∈ commands, policy.ruleMatches host true command = []
  approved : ∀ command ∈ commands,
    ∀ ruleMatch ∈ (policy.allowPrefix first words).matchesForCommand host true fallback command,
      ruleMatch.decision = .allow

theorem offered_of_derived
    (evaluated : policy.checkMultiple host true fallback commands = some evaluation)
    (derived : deriveRequestedExecpolicyAmendmentFromPrefixRule host prefixRule
      evaluation.matchedRules policy commands fallback = some amendment) :
    ∃ first words, amendment = first :: words ∧
      Offered host policy fallback commands first words := by
  obtain ⟨decision, _, rfl⟩ := Option.map_eq_some_iff.mp evaluated
  cases prefixRule with
  | none => cases derived
  | some words =>
      simp only [deriveRequestedExecpolicyAmendmentFromPrefixRule] at derived
      split at derived
      · cases derived
      rename_i nonempty
      split at derived
      · cases derived
      split at derived
      · cases derived
      rename_i noRule
      split at derived
      · rename_i approves
        obtain rfl := Option.some.inj derived
        cases words with
        | nil => simp at nonempty
        | cons first words =>
            refine ⟨first, words, rfl, ?_, ?_⟩
            · intro command member
              by_contra matched
              obtain ⟨ruleMatch, inMatches⟩ := List.exists_mem_of_ne_nil _ matched
              apply noRule
              refine List.any_eq_true.mpr ⟨ruleMatch, List.mem_flatMap.mpr ⟨command, member, ?_⟩,
                isPolicyMatch_of_mem_ruleMatches inMatches⟩
              rwa [matchesForCommand_of_matched matched]
            · intro command member
              have allowed := List.all_eq_true.mp approves command member
              rw [beq_iff_eq, Option.map_eq_some_iff] at allowed
              obtain ⟨single, checked, isAllow⟩ := allowed
              exact (fromMatches_allow_iff checked).mp isAllow
      · cases derived

/-- A policy allows several commands when all their matches do. -/
theorem checkMultiple_allow_iff (nonempty : commands ≠ []) :
    (∃ again, policy.checkMultiple host true fallback commands = some again ∧
        again.decision = .allow) ↔
      ∀ command ∈ commands, ∀ ruleMatch ∈
        policy.matchesForCommand host true fallback command, ruleMatch.decision = .allow := by
  have hasMatch : commands.flatMap (policy.matchesForCommand host true fallback) ≠ [] := by
    obtain ⟨command, member⟩ := List.exists_mem_of_ne_nil _ nonempty
    intro none
    exact matchesForCommand_ne_nil (List.flatMap_eq_nil_iff.mp none command member)
  obtain ⟨again, evaluated⟩ := exists_fromMatches hasMatch
  have checked : policy.checkMultiple host true fallback commands = some again := evaluated
  constructor
  · rintro ⟨other, otherChecked, isAllow⟩ command member ruleMatch isMatch
    obtain rfl : again = other := Option.some.inj (checked.symm.trans otherChecked)
    exact (fromMatches_allow_iff evaluated).mp isAllow ruleMatch
      (List.mem_flatMap.mpr ⟨command, member, isMatch⟩)
  · intro allAllow
    refine ⟨again, checked, (fromMatches_allow_iff evaluated).mpr ?_⟩
    intro ruleMatch isMatch
    obtain ⟨command, member, inMatches⟩ := List.mem_flatMap.mp isMatch
    exact allAllow command member ruleMatch inMatches

/-- The update is skipped when the rules of the policy match the amendment and all allow it. -/
theorem appendAmendmentAndUpdate_eq :
    appendAmendmentAndUpdate host policy amendment =
      if policy.ruleMatches host true amendment ≠ [] ∧
          ∀ ruleMatch ∈ policy.ruleMatches host true amendment, ruleMatch.decision = .allow then
        some policy
      else policy.addPrefixRule amendment .allow := by
  obtain ⟨existing, evaluated⟩ := exists_check host policy true (fun _ => .forbidden) amendment
  have single : policy.checkMultiple host true (fun _ => .forbidden) [amendment] =
      some existing := by
    simpa [Policy.checkMultiple, Policy.check] using evaluated
  have allowed := fromMatches_allow_iff evaluated
  have sameMatches := matchedRules_of_fromMatches evaluated
  simp only [appendAmendmentAndUpdate, single]
  by_cases unmatched : policy.ruleMatches host true amendment = []
  · rw [matchesForCommand_of_unmatched unmatched] at allowed sameMatches
    simp [allowed, sameMatches, unmatched, RuleMatch.decision]
  · rw [matchesForCommand_of_matched unmatched] at allowed sameMatches
    have ruled : existing.decision = .allow →
        existing.matchedRules.any (isPolicyMatchWith .allow) = true := by
      intro isAllow
      obtain ⟨ruleMatch, member⟩ := List.exists_mem_of_ne_nil _ unmatched
      refine List.any_eq_true.mpr ⟨ruleMatch, sameMatches ▸ member, ?_⟩
      simp [isPolicyMatchWith, isPolicyMatch_of_mem_ruleMatches member,
        allowed.mp isAllow ruleMatch member]
    by_cases isAllow : existing.decision = .allow
    · rw [if_pos (by simp [isAllow, ruled isAllow]), if_pos ⟨unmatched, allowed.mp isAllow⟩]
    · have notAll : ¬ ∀ ruleMatch ∈ policy.ruleMatches host true amendment,
          ruleMatch.decision = .allow := fun all => isAllow (allowed.mpr all)
      simp only [isAllow, decide_false, Bool.false_and, Bool.false_eq_true, if_false]
      rw [if_neg fun both => notAll both.2]

theorem addPrefixRule_cons (first : Text) (words : List Text) :
    policy.addPrefixRule (first :: words) .allow = some (policy.allowPrefix first words) :=
  rfl

/-- A rule of the amended policy is one of the policy or the new one. -/
theorem mem_rulesOf_allowPrefix {first key : Text} {words : List Text} {rule : PrefixRule}
    (member : rule ∈ RulesByProgram.rulesOf (policy.allowPrefix first words).rulesByProgram key) :
    rule ∈ RulesByProgram.rulesOf policy.rulesByProgram key ∨
      key = first ∧ rule = ⟨⟨first, words.map .single⟩, .allow, none⟩ := by
  have split := RulesByProgram.rulesOf_insertRule policy.rulesByProgram first key
    (PrefixRule.mk ⟨first, words.map .single⟩ .allow none)
  simp only [Policy.allowPrefix, split] at member
  rcases List.mem_append.mp member with old | new
  · exact .inl old
  · split at new
    · rename_i same
      exact .inr ⟨same, List.mem_singleton.mp new⟩
    · cases new

/-- A command that only the amended policy matches begins with the amendment, or its base name
does. -/
theorem begins_of_allowPrefix {first : Text} {words : List Text} {command : Command}
    (unmatched : policy.ruleMatches host true command = [])
    (matched : (policy.allowPrefix first words).ruleMatches host true command ≠ []) :
    first :: words <+: command ∨
      ∃ program, Policy.hostExecutable host command = some (program, first) ∧
        policy.permitsExecutable first program = true ∧
          first :: words <+: first :: command.tail := by
  have noExact : policy.matchExactRules command = [] := by
    by_contra exactly
    exact ruleMatches_ne_nil_iff.mpr (.inl exactly) unmatched
  have noHost : policy.matchHostExecutableRules host command = [] := by
    by_contra byName
    exact ruleMatches_ne_nil_iff.mpr (.inr byName) unmatched
  rcases ruleMatches_ne_nil_iff.mp matched with exactly | byName
  · left
    cases command with
    | nil => exact absurd rfl exactly
    | cons head arguments =>
        obtain ⟨rule, member, isMatch⟩ := matchExactRules_ne_nil_iff.mp exactly
        rcases mem_rulesOf_allowPrefix member with old | ⟨rfl, rfl⟩
        · exact absurd noExact (matchExactRules_ne_nil_iff.mpr ⟨rule, old, isMatch⟩)
        · exact isSome_matchCommand_single_iff.mp isMatch
  · right
    obtain ⟨program, basename, names, permitted, rule, member, isMatch⟩ :=
      matchHostExecutableRules_ne_nil_iff.mp byName
    rcases mem_rulesOf_allowPrefix member with old | ⟨rfl, rfl⟩
    · exact absurd noHost (matchHostExecutableRules_ne_nil_iff.mpr
        ⟨program, basename, names, permitted, rule, old, isMatch⟩)
    · exact ⟨program, names, permitted, isSome_matchCommand_single_iff.mp isMatch⟩

/-- When the policy already matches an amendment that a command needs, the amendment is about the
word `~` and the home directory stands for it. -/
theorem home_of_needed {first : Text} {words : List Text} {command : Command}
    (unmatched : policy.ruleMatches host true command = [])
    (matched : (policy.allowPrefix first words).ruleMatches host true command ≠ [])
    (already : policy.ruleMatches host true (first :: words) ≠ []) :
    first = ['~'] ∧ policy.matchExactRules (first :: words) = [] ∧
      policy.matchHostExecutableRules host (first :: words) ≠ [] := by
  rcases begins_of_allowPrefix unmatched matched with ⟨rest, rfl⟩ |
    ⟨program, names, permitted, rest, isCommand⟩
  · exact absurd unmatched (ruleMatches_append_ne_nil rest already)
  · have noExact : policy.matchExactRules (first :: words) = [] := by
      by_contra exactly
      obtain ⟨rule, member, isMatch⟩ := matchExactRules_ne_nil_iff.mp exactly
      refine ruleMatches_ne_nil_iff.mpr (.inr ?_) unmatched
      refine matchHostExecutableRules_ne_nil_iff.mpr
        ⟨program, first, names, permitted, rule, member, ?_⟩
      rw [← isCommand]
      exact isSome_matchCommand_append rest isMatch
    have byName : policy.matchHostExecutableRules host (first :: words) ≠ [] :=
      (ruleMatches_ne_nil_iff.mp already).resolve_left (not_not_intro noExact)
    refine ⟨?_, noExact, byName⟩
    by_contra notHome
    exact matchExactRules_of_isName (isName_of_hostExecutable names) notHome byName noExact

/-- After an accepted amendment the commands it was offered for are allowed, unless the amendment
was taken for allowed already through the home directory. -/
theorem amendment_allows_iff
    (evaluated : policy.checkMultiple host true fallback commands = some evaluation)
    (derived : deriveRequestedExecpolicyAmendmentFromPrefixRule host prefixRule
      evaluation.matchedRules policy commands fallback = some amendment) :
    (∃ updated, appendAmendmentAndUpdate host policy amendment = some updated ∧
      ∃ again, updated.checkMultiple host true fallback commands = some again ∧
        again.decision = .allow) ↔
    ¬ HomeShortcut host policy fallback commands amendment := by
  obtain ⟨first, words, rfl, offered⟩ := offered_of_derived evaluated derived
  have nonempty : commands ≠ [] := by
    rintro rfl
    cases evaluated
  rw [appendAmendmentAndUpdate_eq]
  by_cases already : policy.ruleMatches host true (first :: words) ≠ [] ∧
      ∀ ruleMatch ∈ policy.ruleMatches host true (first :: words), ruleMatch.decision = .allow
  · rw [if_pos already]
    have again : (∃ updated, some policy = some updated ∧
        ∃ again, updated.checkMultiple host true fallback commands = some again ∧
          again.decision = .allow) ↔ ∀ command ∈ commands, fallback command = .allow := by
      simp only [Option.some.injEq, exists_eq_left', checkMultiple_allow_iff nonempty]
      refine forall₂_congr fun command member => ?_
      rw [matchesForCommand_of_unmatched (offered.unmatched command member)]
      simp [RuleMatch.decision]
    rw [again]
    constructor
    · intro allowed shortcut
      obtain ⟨command, member, rejected⟩ := shortcut.rejected
      exact rejected (allowed command member)
    · intro noShortcut command member
      by_contra rejected
      have needed : (policy.allowPrefix first words).ruleMatches host true command ≠ [] := by
        intro unneeded
        have approved := offered.approved command member
        rw [matchesForCommand_of_unmatched unneeded] at approved
        exact rejected (approved _ (List.mem_singleton_self _))
      obtain ⟨rfl, noExact, byName⟩ :=
        home_of_needed (offered.unmatched command member) needed already.1
      refine noShortcut ⟨rfl, noExact, byName, ?_, command, member, rejected⟩
      rw [← ruleMatches_of_noExact noExact]
      exact already.2
  · rw [if_neg already, addPrefixRule_cons]
    refine iff_of_true ⟨_, rfl, (checkMultiple_allow_iff nonempty).mpr offered.approved⟩ ?_
    intro shortcut
    apply already
    rw [ruleMatches_of_noExact shortcut.unmatched]
    exact ⟨shortcut.matched, shortcut.allows⟩

/-- A host with a home directory. -/
def homeHost : Host := { Host.bare with homeDir := some "/home/u".toList }

/-- The amendment `make` lets the command it was offered for run. -/
theorem amendment_allows_make :
    ¬ HomeShortcut Host.bare Policy.empty (fun _ => .prompt) [["make".toList]] ["make".toList] ∧
    ∃ updated, appendAmendmentAndUpdate Host.bare Policy.empty ["make".toList] = some updated ∧
      ∃ again, updated.checkMultiple Host.bare true (fun _ => .prompt) [["make".toList]] =
        some again ∧ again.decision = .allow := by
  have other : ¬ HomeShortcut Host.bare Policy.empty (fun _ => .prompt) [["make".toList]]
      ["make".toList] := by
    rintro ⟨home, _⟩
    revert home
    decide
  have derived : deriveRequestedExecpolicyAmendmentFromPrefixRule Host.bare (some ["make".toList])
      [.heuristicsRuleMatch ["make".toList] .prompt] Policy.empty [["make".toList]]
      (fun _ => .prompt) = some ["make".toList] := by decide
  exact ⟨other, (amendment_allows_iff rfl derived).mpr other⟩

/-- A rule for the base name of the home directory keeps an amendment for an executable `~` from
being added. -/
theorem amendment_skipped_for_home :
    ¬ ∀ (host : Host) (policy : Policy) (fallback : Command → Decision) (commands : List Command)
        (prefixRule : Option (List Text)) (evaluation : Evaluation)
        (amendment : ExecPolicyAmendment),
      policy.checkMultiple host true fallback commands = some evaluation →
      deriveRequestedExecpolicyAmendmentFromPrefixRule host prefixRule evaluation.matchedRules
        policy commands fallback = some amendment →
      ∃ updated, appendAmendmentAndUpdate host policy amendment = some updated ∧
        ∃ again, updated.checkMultiple host true fallback commands = some again ∧
          again.decision = .allow := by
  intro allows
  obtain ⟨updated, isUpdated, again, checked, isAllow⟩ :=
    allows homeHost (singleRulePolicy "u".toList .allow) (fun _ => .prompt) [["/x/~".toList]]
      (some [['~']]) _ [['~']] rfl (by decide)
  obtain rfl : singleRulePolicy "u".toList .allow = updated := Option.some.inj isUpdated
  have prompts : again.decision = .prompt := by
    have same := Option.some.inj checked
    rw [← same]
    rfl
  rw [prompts] at isAllow
  cases isAllow

end Accepted

end CodexPilot.ExecPolicy
