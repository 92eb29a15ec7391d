import CodexPilot.RustStd.Path

/-!
# Command safety

Which commands are known to be safe and which might be dangerous.  A script that is handed to a
shell is judged by the plain commands it consists of; splitting a script is the host's, and so is
the judgement of PowerShell invocations.  Executable names are those of a Linux host.
-/

namespace CodexPilot.ShellCommand

open RustStd

/-- What the host contributes to reading commands. -/
structure Shell where
  /-- The plain commands of a script that has nothing else. -/
  parseWordOnlyCommands : Text → Option (List (List Text))
  /-- The only command of a script, read in front of its heredoc. -/
  parseHeredocCommand : Text → Option (List Text)
  /-- The judgement of a PowerShell invocation. -/
  isSafeCommandWindows : List Text → Bool
  /-- `shlex::try_join`. -/
  shlexTryJoin : List Text → Option Text

/-! ## Scripts -/

/-- The shells that are told apart. -/
inductive ShellType where
  | zsh
  | bash
  | powerShell
  | sh
  | cmd
  deriving DecidableEq

/-- The shells by their plain names. -/
def shellNames : List (Text × ShellType) :=
  [("zsh".toList, .zsh), ("sh".toList, .sh), ("cmd".toList, .cmd), ("bash".toList, .bash),
    ("pwsh".toList, .powerShell), ("powershell".toList, .powerShell)]

/-- Recognize a shell by its path, then by its file stem, then by the stem of that; the number of
rounds is bounded. -/
def detectShellTypeWithin : ℕ → Text → Option ShellType
  | 0, _ => none
  | rounds + 1, shellPath =>
      match shellNames.lookup shellPath with
      | some shellType => some shellType
      | none =>
          match Path.fileStem (PathBuf.components shellPath) with
          | some shellName =>
              if PathBuf.components shellName ≠ PathBuf.components shellPath then
                detectShellTypeWithin rounds shellName
              else none
          | none => none

/-- Recognize a shell by its path. -/
def detectShellType (shellPath : Text) : Option ShellType :=
  detectShellTypeWithin (shellPath.length + 1) shellPath

/-- The script that a command hands to a shell. -/
def extractBashCommand (command : List Text) : Option (Text × Text) :=
  match command with
  | [shell, flag, script] =>
      if (flag = "-lc".toList ∨ flag = "-c".toList) ∧
          (detectShellType shell = some .zsh ∨ detectShellType shell = some .bash ∨
            detectShellType shell = some .sh) then
        some (shell, script)
      else none
  | _ => none

section Shell

variable (shell : Shell)

/-- The plain commands of a shell invocation. -/
def parseShellLcPlainCommands (command : List Text) : Option (List (List Text)) := do
  let (_, script) ← extractBashCommand command
  shell.parseWordOnlyCommands script

/-- The only command of a shell invocation with a heredoc. -/
def parseShellLcSingleCommandPrefix (command : List Text) : Option (List Text) := do
  let (_, script) ← extractBashCommand command
  shell.parseHeredocCommand script

end Shell

/-! ## Git -/

/-- The base name of an executable. -/
def executableNameLookupKey (raw : Text) : Option Text :=
  Path.fileName (PathBuf.components raw)

def gitName : Text := "git".toList

/-- Global options of git that name a value, without `-C` and `-c`. -/
def gitLongOptions : List Text :=
  ["--config-env".toList, "--exec-path".toList, "--git-dir".toList, "--namespace".toList,
    "--super-prefix".toList, "--work-tree".toList]

/-- Whether an option carries its value after an equals sign. -/
def hasInlineValue (options : List Text) (argument : Text) : Bool :=
  options.any fun option => argument.startsWith (option ++ ['='])

def isGitGlobalOptionWithValue (argument : Text) : Bool :=
  argument == "-C".toList || argument == "-c".toList || gitLongOptions.contains argument

def isGitGlobalOptionWithInlineValue (argument : Text) : Bool :=
  hasInlineValue gitLongOptions argument ||
    ((argument.startsWith "-C".toList || argument.startsWith "-c".toList) &&
      decide (2 < argument.length))

/-- Global options of git that can redirect its configuration, repository or helpers. -/
def gitGlobalOptionRequiresPrompt (argument : Text) : Bool :=
  argument == "-c".toList || gitLongOptions.contains argument ||
    (argument.startsWith "-c".toList && decide (2 < argument.length)) ||
    hasInlineValue gitLongOptions argument

/-- The loop over the words of a git command behind its first. -/
def findGitSubcommandFrom (subcommands : List Text) : ℕ → Bool → List Text → Option (ℕ × Text)
  | _, _, [] => none
  | index, true, _ :: rest => findGitSubcommandFrom subcommands (index + 1) false rest
  | index, false, argument :: rest =>
      if isGitGlobalOptionWithInlineValue argument then
        findGitSubcommandFrom subcommands (index + 1) false rest
      else if isGitGlobalOptionWithValue argument then
        findGitSubcommandFrom subcommands (index + 1) true rest
      else if argument.startsWith ['-'] then
        findGitSubcommandFrom subcommands (index + 1) false rest
      else if subcommands.contains argument then some (index, argument)
      -- The first word that is no option is the subcommand, whatever it is.
      else none

/-- The subcommand of a git command with its position, when it is one of those asked for. -/
def findGitSubcommand (command : List Text) (subcommands : List Text) : Option (ℕ × Text) :=
  match command with
  | [] => none
  | first :: rest =>
      if executableNameLookupKey first = some gitName then
        findGitSubcommandFrom subcommands 1 false rest
      else none

def readOnlyBranchFlags : List Text :=
  ["--list".toList, "-l".toList, "--show-current".toList, "-a".toList, "--all".toList, "-r".toList,
    "--remotes".toList, "-v".toList, "-vv".toList, "--verbose".toList]

/-- Whether the arguments of `git branch` only ask for something. -/
def gitBranchIsReadOnly (branchArgs : List Text) : Bool :=
  branchArgs.all fun argument =>
    readOnlyBranchFlags.contains argument || argument.startsWith "--format=".toList

/-- `git_has_unsafe_global_option`. -/
def gitHasUnsafeGlobalOption (command : List Text) : Bool :=
  command.tail.any gitGlobalOptionRequiresPrompt

def unsafeGitFlags : List Text :=
  ["--output".toList, "--ext-diff".toList, "--textconv".toList, "--exec".toList,
    "--paginate".toList]

/-- Whether the arguments of a git subcommand neither write nor run anything. -/
def gitSubcommandArgsAreReadOnly (arguments : List Text) : Bool :=
  !arguments.any fun argument =>
    unsafeGitFlags.contains argument || argument.startsWith "--output=".toList ||
      argument.startsWith "--exec=".toList

def readOnlySubcommands : List Text :=
  ["status".toList, "log".toList, "diff".toList, "show".toList]

def branchSubcommand : Text := "branch".toList

/-- Whether a git command only reads. -/
def isSafeGitCommand (command : List Text) : Bool :=
  if gitHasUnsafeGlobalOption command then false
  else
    match findGitSubcommand command (readOnlySubcommands ++ [branchSubcommand]) with
    | none => false
    | some (subcommandIndex, subcommand) =>
        let subcommandArgs := command.drop (subcommandIndex + 1)
        if readOnlySubcommands.contains subcommand then
          gitSubcommandArgsAreReadOnly subcommandArgs
        else if subcommand = branchSubcommand then
          gitSubcommandArgsAreReadOnly subcommandArgs && gitBranchIsReadOnly subcommandArgs
        else false

/-! ## Other commands -/

/-- Commands that are safe whatever their arguments are. -/
def safeCommands : List Text :=
  ["numfmt".toList, "tac".toList, "cat".toList, "cd".toList, "cut".toList, "echo".toList,
    "expr".toList, "false".toList, "grep".toList, "head".toList, "id".toList, "ls".toList,
    "nl".toList, "paste".toList, "pwd".toList, "rev".toList, "seq".toList, "stat".toList,
    "tail".toList, "tr".toList, "true".toList, "uname".toList, "uniq".toList, "wc".toList,
    "which".toList, "whoami".toList]

def base64Name : Text := "base64".toList

def findName : Text := "find".toList

def ripgrepName : Text := "rg".toList

def sedName : Text := "sed".toList

def isSafeBase64Command (command : List Text) : Bool :=
  !command.tail.any fun argument =>
    argument == "-o".toList || argument == "--output".toList ||
      argument.startsWith "--output=".toList ||
      (argument.startsWith "-o".toList && argument != "-o".toList)

def unsafeFindOptions : List Text :=
  ["-exec".toList, "-execdir".toList, "-ok".toList, "-okdir".toList, "-delete".toList,
    "-fls".toList, "-fprint".toList, "-fprint0".toList, "-fprintf".toList]

/-- No option writes or executes. -/
def isSafeFindCommand (command : List Text) : Bool :=
  !command.any unsafeFindOptions.contains

def unsafeRipgrepOptionsWithArgs : List Text := ["--pre".toList, "--hostname-bin".toList]

def unsafeRipgrepOptionsWithoutArgs : List Text := ["--search-zip".toList, "-z".toList]

def isSafeRipgrepCommand (command : List Text) : Bool :=
  !command.any fun argument =>
    unsafeRipgrepOptionsWithoutArgs.contains argument ||
      unsafeRipgrepOptionsWithArgs.any fun option =>
        argument == option || argument.startsWith (option ++ ['='])

/-- A nonempty text of ASCII digits. -/
def isDigits (text : Text) : Bool := !text.isEmpty && text.all Char.isDigit

/-- Whether an argument asks `sed` for one line or a range of lines. -/
def isValidSedNArg (argument : Option Text) : Bool :=
  match argument with
  | none => false
  | some text =>
      if text.getLast? = some 'p' then
        match List.splitOn ',' text.dropLast with
        | [number] => isDigits number
        | [first, last] => isDigits first && isDigits last
        | _ => false
      else false

def isSafeSedCommand (command : List Text) : Bool :=
  decide (command.length ≤ 4) && command[1]? == some "-n".toList && isValidSedNArg command[2]?

/-- Whether a command may be executed without asking. -/
def isSafeToCallWithExec (command : List Text) : Bool :=
  match command.head?.bind executableNameLookupKey with
  | none => false
  | some name =>
      if safeCommands.contains name then true
      else if name = base64Name then isSafeBase64Command command
      else if name = findName then isSafeFindCommand command
      else if name = ripgrepName then isSafeRipgrepCommand command
      else if name = gitName then isSafeGitCommand command
      else if name = sedName then isSafeSedCommand command
      else false

def sudoName : Text := "sudo".toList

def removeName : Text := "rm".toList

/-- Whether executing a command might be dangerous. -/
def isDangerousToCallWithExec : List Text → Bool
  | [] => false
  | first :: rest =>
      if first = removeName then
        rest.head? == some "-f".toList || rest.head? == some "-rf".toList
      else if first = sudoName then isDangerousToCallWithExec rest
      else false

def zshName : Text := "zsh".toList

def bashName : Text := "bash".toList

/-- Whether a command is known to be safe, also as a script of safe commands. -/
def isKnownSafeCommand (shell : Shell) (command : List Text) : Bool :=
  let command := command.map fun word => if word = zshName then bashName else word
  shell.isSafeCommandWindows command || isSafeToCallWithExec command ||
    match parseShellLcPlainCommands shell command with
    | some allCommands => !allCommands.isEmpty && allCommands.all isSafeToCallWithExec
    | none => false

/-- Whether a command might be dangerous, also as a part of a script. -/
def commandMightBeDangerous (shell : Shell) (command : List Text) : Bool :=
  isDangerousToCallWithExec command ||
    match parseShellLcPlainCommands shell command with
    | some allCommands => allCommands.any isDangerousToCallWithExec
    | none => false

end CodexPilot.ShellCommand
