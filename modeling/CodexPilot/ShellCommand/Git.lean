import CodexPilot.Library.CommandLine
import CodexPilot.ShellCommand.Safety

/-!
# Git commands that are approved

A git command is approved by what stands behind its subcommand, so the subcommand has to be the one
that git runs, and nothing in front of it may be among the unsafe flags.  The scanner knows most of
the options of git that take the next word as their value.
-/

namespace CodexPilot.ShellCommand

open RustStd CommandLine

/-! ## Two readers -/

/-- The options of git that take the next word as their value. -/
def documentedGitOptions : List Text :=
  ["-C".toList, "-c".toList, "--git-dir".toList, "--work-tree".toList, "--namespace".toList,
    "--config-env".toList, "--attr-source".toList]

/-- How git reads its command line. -/
def documentedReader : Reader Text where
  isOption word := word.startsWith ['-']
  takesValue word := documentedGitOptions.contains word

/-- How `find_git_subcommand` reads the command line of git. -/
def scanningReader : Reader Text where
  isOption word := word.startsWith ['-']
  takesValue word :=
    !isGitGlobalOptionWithInlineValue word && isGitGlobalOptionWithValue word

/-- The subcommand that git runs. -/
def gitSubcommand (arguments : List Text) : Option Text :=
  (documentedReader.operands false arguments).head?

/-- The subcommands that may be approved. -/
def approvedSubcommands : List Text := readOnlySubcommands ++ [branchSubcommand]

/-- One of the flags that are not approved behind a subcommand. -/
def isUnsafeGitFlag (word : Text) : Bool :=
  unsafeGitFlags.contains word || word.startsWith "--output=".toList ||
    word.startsWith "--exec=".toList

/-- The command reads: git runs an approved subcommand, without an unsafe flag anywhere. -/
structure ReadsOnly (command : List Text) : Prop where
  subcommand : ∃ subcommand ∈ approvedSubcommands, gitSubcommand command.tail = some subcommand
  flags : ∀ word ∈ command, isUnsafeGitFlag word = false

/-- What the scanner passes over is harmless: no unsafe flag is in front of the subcommand, and
where git takes a word as a value that the scanner reads itself, it goes on to an approved
subcommand all the same. -/
structure OpensHarmlessly (command : List Text) : Prop where
  flags : ∀ word ∈ command.head?.toList ++ scanningReader.opening false command.tail,
    isUnsafeGitFlag word = false
  parting : ∀ left, Reader.parting documentedReader scanningReader false command.tail = some left →
    ∃ subcommand ∈ approvedSubcommands, gitSubcommand left = some subcommand

section Scanner

variable {word : Text} {words : List Text} {due : Bool}

theorem startsWith_append {marker : Text} (rest : Text)
    (begins : word.startsWith (marker ++ rest) = true) : word.startsWith marker = true := by
  rw [Text.startsWith, List.isPrefixOf_iff_prefix] at begins ⊢
  exact (List.prefix_append marker rest).trans begins

theorem isOption_of_hasInlineValue {options : List Text}
    (dashed : ∀ option ∈ options, option.startsWith ['-'] = true)
    (inline : hasInlineValue options word = true) : word.startsWith ['-'] = true := by
  obtain ⟨option, member, begins⟩ := List.any_eq_true.mp inline
  have dash := dashed option member
  rw [Text.startsWith, List.isPrefixOf_iff_prefix] at dash begins ⊢
  exact (dash.trans (List.prefix_append option _)).trans begins

theorem dashed_gitLongOptions : ∀ option ∈ gitLongOptions, option.startsWith ['-'] = true := by
  decide

theorem isOption_of_inline (inline : isGitGlobalOptionWithInlineValue word = true) :
    word.startsWith ['-'] = true := by
  simp only [isGitGlobalOptionWithInlineValue, Bool.or_eq_true, Bool.and_eq_true] at inline
  obtain long | ⟨upper | lower, -⟩ := inline
  · exact isOption_of_hasInlineValue dashed_gitLongOptions long
  · exact startsWith_append ['C'] upper
  · exact startsWith_append ['c'] lower

/-- The loop finds the first operand, when it is one of the subcommands. -/
theorem findGitSubcommandFrom_eq (subcommands : List Text) (index : ℕ) (due : Bool)
    (words : List Text) :
    findGitSubcommandFrom subcommands index due words =
      match scanningReader.operands due words with
      | [] => none
      | subcommand :: _ =>
          if subcommands.contains subcommand then
            some (index + (scanningReader.opening due words).length, subcommand)
          else none := by
  induction words generalizing index due with
  | nil => cases due <;> rfl
  | cons word rest ih =>
      have shift (length : ℕ) : index + 1 + length = index + (length + 1) := by omega
      cases due with
      | true => simp only [findGitSubcommandFrom, ih, shift, Reader.operands, Reader.opening,
          List.length_cons]
      | false =>
          cases inline : isGitGlobalOptionWithInlineValue word with
          | true =>
              simp [findGitSubcommandFrom, ih, shift, Reader.operands, Reader.opening,
                scanningReader, inline, isOption_of_inline inline]
          | false =>
              cases valued : isGitGlobalOptionWithValue word with
              | true =>
                  simp [findGitSubcommandFrom, ih, shift, Reader.operands, Reader.opening,
                    scanningReader, inline, valued]
              | false =>
                  cases option : word.startsWith ['-'] <;>
                    simp [findGitSubcommandFrom, ih, shift, Reader.operands, Reader.opening,
                      scanningReader, inline, valued, option]

/-- Among words that need no prompt, the readers tell options apart alike, and the scanner takes no
value that git does not take. -/
theorem refines_of_unprompted (unprompted : gitGlobalOptionRequiresPrompt word = false) :
    documentedReader.Refines scanningReader word where
  takesValue takes := by
    have valued := (Bool.and_eq_true_iff.mp takes).2
    simp only [gitGlobalOptionRequiresPrompt, Bool.or_eq_false_iff] at unprompted
    obtain ⟨⟨⟨lower, long⟩, -⟩, -⟩ := unprompted
    rw [isGitGlobalOptionWithValue, lower, long] at valued
    have upper : word = "-C".toList := by simpa using valued
    rw [upper]
    rfl
  isOption := rfl
  option takes := by
    have dashed : ∀ option ∈ documentedGitOptions, option.startsWith ['-'] = true := by decide
    exact dashed word (List.contains_iff_mem.mp takes)

end Scanner

section Approval

variable {command : List Text}

theorem gitSubcommandArgsAreReadOnly_iff {arguments : List Text} :
    gitSubcommandArgsAreReadOnly arguments = true ↔
      ∀ word ∈ arguments, isUnsafeGitFlag word = false := by
  simp [gitSubcommandArgsAreReadOnly, isUnsafeGitFlag]

/-- What is known of an approved git command. -/
structure Approved (command : List Text) (subcommand : Text) (arguments : List Text) : Prop where
  operands : scanningReader.operands false command.tail = subcommand :: arguments
  subcommand : subcommand ∈ approvedSubcommands
  arguments : ∀ word ∈ arguments, isUnsafeGitFlag word = false
  unprompted : ∀ word ∈ command.tail, gitGlobalOptionRequiresPrompt word = false

theorem isSafeGitCommand_of_isSafe
    (isGit : command.head?.bind executableNameLookupKey = some gitName)
    (accepted : isSafeToCallWithExec command = true) : isSafeGitCommand command = true := by
  rw [isSafeToCallWithExec, isGit] at accepted
  exact accepted

/-- The subcommand that is found is the first operand, and its arguments are what follows it. -/
theorem operands_of_findGitSubcommand {subcommands : List Text} {index : ℕ} {subcommand : Text}
    (found : findGitSubcommand command subcommands = some (index, subcommand)) :
    scanningReader.operands false command.tail = subcommand :: command.drop (index + 1) ∧
      subcommand ∈ subcommands := by
  cases command with
  | nil => cases found
  | cons executable words =>
      rw [findGitSubcommand] at found
      split at found
      case isFalse => cases found
      case isTrue =>
        rw [findGitSubcommandFrom_eq] at found
        have whole := scanningReader.opening_append_operands false words
        split at found
        case h_1 => cases found
        case h_2 name arguments reached =>
          split at found
          case isFalse => cases found
          case isTrue member =>
            cases found
            rw [reached] at whole
            have behind : (executable :: words).drop
                (1 + (scanningReader.opening false words).length + 1) = arguments := by
              generalize scanningReader.opening false words = front at whole
              rw [← whole, Nat.add_comm 1, List.drop_succ_cons, ← List.drop_drop, List.drop_left]
              rfl
            exact ⟨reached.trans (congrArg _ behind.symm), List.contains_iff_mem.mp member⟩

theorem approved_of_isSafe (isGit : command.head?.bind executableNameLookupKey = some gitName)
    (accepted : isSafeToCallWithExec command = true) :
    ∃ subcommand arguments, Approved command subcommand arguments := by
  have safe := isSafeGitCommand_of_isSafe isGit accepted
  rw [isSafeGitCommand] at safe
  split at safe
  · cases safe
  case isFalse global =>
    have unprompted : ∀ word ∈ command.tail, gitGlobalOptionRequiresPrompt word = false := by
      simpa [gitHasUnsafeGlobalOption] using global
    split at safe
    · cases safe
    case h_2 index subcommand found =>
      obtain ⟨operands, approved⟩ := operands_of_findGitSubcommand found
      refine ⟨subcommand, _, operands, approved, gitSubcommandArgsAreReadOnly_iff.mp ?_, unprompted⟩
      dsimp only at safe
      split at safe
      · exact safe
      · split at safe
        · exact (Bool.and_eq_true_iff.mp safe).1
        · cases safe

/-- An approved subcommand is no flag. -/
theorem isUnsafeGitFlag_eq_false {subcommand : Text} (approved : subcommand ∈ approvedSubcommands) :
    isUnsafeGitFlag subcommand = false := by
  have each : ∀ subcommand ∈ approvedSubcommands, isUnsafeGitFlag subcommand = false := by decide
  exact each subcommand approved

namespace Approved

variable {subcommand : Text} {arguments : List Text}

/-- The subcommand that git runs is approved exactly when git goes on to an approved one wherever it
parts from the scanner. -/
theorem subcommand_iff (approved : Approved command subcommand arguments) :
    (∃ subcommand ∈ approvedSubcommands, gitSubcommand command.tail = some subcommand) ↔
      ∀ left, Reader.parting documentedReader scanningReader false command.tail = some left →
        ∃ subcommand ∈ approvedSubcommands, gitSubcommand left = some subcommand := by
  have refines : ∀ word ∈ command.tail, documentedReader.Refines scanningReader word :=
    fun word member => refines_of_unprompted (approved.unprompted word member)
  cases parted : Reader.parting documentedReader scanningReader false command.tail with
  | none =>
      have same := Reader.operands_eq refines parted
      refine iff_of_true ⟨subcommand, approved.subcommand, ?_⟩ (fun left none => by cases none)
      rw [gitSubcommand, same, approved.operands]
      rfl
  | some left =>
      have same := Reader.operands_eq_of_parting refines parted
      rw [gitSubcommand, same]
      simp [gitSubcommand]

/-- The flags behind the subcommand have been looked at. -/
theorem flags_iff (approved : Approved command subcommand arguments) :
    (∀ word ∈ command, isUnsafeGitFlag word = false) ↔
      ∀ word ∈ command.head?.toList ++ scanningReader.opening false command.tail,
        isUnsafeGitFlag word = false := by
  have whole := scanningReader.opening_append_operands false command.tail
  have split : command =
      (command.head?.toList ++ scanningReader.opening false command.tail) ++
        subcommand :: arguments := by
    rw [List.append_assoc, ← approved.operands, whole]
    cases command <;> rfl
  constructor
  · intro all word member
    exact all word (split ▸ List.mem_append_left _ member)
  · intro front word member
    rw [split] at member
    obtain inFront | behind := List.mem_append.mp member
    · exact front word inFront
    · obtain rfl | argument := List.mem_cons.mp behind
      · exact isUnsafeGitFlag_eq_false approved.subcommand
      · exact approved.arguments word argument

end Approved

/-- An approved git command reads exactly when what the scanner passes over is harmless. -/
theorem readsOnly_iff_opensHarmlessly
    (isGit : command.head?.bind executableNameLookupKey = some gitName)
    (accepted : isSafeToCallWithExec command = true) :
    ReadsOnly command ↔ OpensHarmlessly command := by
  obtain ⟨subcommand, arguments, approved⟩ := approved_of_isSafe isGit accepted
  constructor
  · rintro ⟨subcommand, flags⟩
    exact ⟨approved.flags_iff.mp flags, approved.subcommand_iff.mp subcommand⟩
  · rintro ⟨flags, parting⟩
    exact ⟨approved.subcommand_iff.mpr parting, approved.flags_iff.mpr flags⟩

/-- A status in another directory. -/
def elsewhereStatus : List Text :=
  ["git".toList, "-C".toList, "..".toList, "status".toList, "--short".toList]

theorem readsOnly_elsewhereStatus :
    isSafeToCallWithExec elsewhereStatus = true ∧ ReadsOnly elsewhereStatus := by
  have accepted : isSafeToCallWithExec elsewhereStatus = true := by decide
  refine ⟨accepted, (readsOnly_iff_opensHarmlessly (by decide) accepted).mpr ⟨by decide, ?_⟩⟩
  intro left parted
  cases parted

/-- `git --attr-source status push` and `git --paginate log`. -/
theorem not_readsOnly_of_unread :
    (isSafeToCallWithExec
          ["git".toList, "--attr-source".toList, "status".toList, "push".toList] = true ∧
        gitSubcommand ["--attr-source".toList, "status".toList, "push".toList] =
          some "push".toList ∧
        ¬ReadsOnly ["git".toList, "--attr-source".toList, "status".toList, "push".toList]) ∧
      isSafeToCallWithExec ["git".toList, "--paginate".toList, "log".toList] = true ∧
        ¬ReadsOnly ["git".toList, "--paginate".toList, "log".toList] := by
  have pushes : gitSubcommand ["--attr-source".toList, "status".toList, "push".toList] =
      some "push".toList := by decide
  refine ⟨⟨by decide, pushes, fun reads => ?_⟩, by decide, fun reads => ?_⟩
  · obtain ⟨subcommand, approved, runs⟩ := reads.subcommand
    cases pushes.symm.trans runs
    exact absurd approved (by decide)
  · exact absurd (reads.flags "--paginate".toList (by decide)) (by decide)

end Approval

end CodexPilot.ShellCommand
