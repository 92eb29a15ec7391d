import CodexPilot.ExecPolicyLegacy.Resolver
import Mathlib.Data.Finset.Sort
import Mathlib.Data.List.Lex
import Mathlib.Data.Prod.Lex

/-!
# Checking a command line against a program's specification

One pass over the arguments tells options from operands, and the operands are matched against
patterns.  The check accepts exactly the command lines whose parts are allowed, whose operands can
be assigned, and that have every required option with a value.  What it returns accounts for every
argument.
-/

namespace CodexPilot.ExecPolicyLegacy

open RustStd Text CommandLine

/-! ## The check -/

/-- An option with its value. -/
structure MatchedOpt where
  name : Text
  value : Text
  type : ArgType

/-- `MatchedOpt::new`. -/
def newMatchedOpt (name value : Text) (type : ArgType) : Outcome MatchedOpt := do
  type.validate value
  .ok ⟨name, value, type⟩

/-- A flag that was given. -/
structure MatchedFlag where
  name : Text

/-- A call that a rule accepts. -/
structure ValidExec where
  program : Text
  flags : List MatchedFlag
  opts : List MatchedOpt
  args : List MatchedArg
  systemPath : List Text

/-- Whether an option takes a value. -/
inductive OptMeta where
  | flag
  | value (type : ArgType)

/-- An option that a program allows. -/
structure Opt where
  opt : Text
  optMeta : OptMeta
  required : Bool

/-- A rule for one program. -/
structure ProgramSpec where
  program : Text
  systemPath : List Text
  allowedOptions : AList fun _ : Text => Opt
  argPatterns : List ArgMatcher
  forbidden : Option Text
  requiredOptions : Finset Text

/-- A program and its arguments. -/
structure ExecCall where
  program : Text
  args : List Text

/-- What a call is forbidden for. -/
inductive Forbidden where
  | program (program : Text) (execCall : ExecCall)
  | arg (arg : Text) (execCall : ExecCall)
  | exec (exec : ValidExec)

/-- The verdict on a call. -/
inductive MatchedExec where
  | matched (exec : ValidExec)
  | forbidden (cause : Forbidden) (reason : Text)

/-- What the pass over the arguments has found. -/
structure Scan where
  expectingOptionValue : Option (Text × ArgType)
  args : List PositionalArg
  matchedFlags : List MatchedFlag
  matchedOpts : List MatchedOpt

namespace ProgramSpec

/-- `ProgramSpec::new`. -/
def new (program : Text) (systemPath : List Text) (allowedOptions : AList fun _ : Text => Opt)
    (argPatterns : List ArgMatcher) (forbidden : Option Text) : ProgramSpec :=
  { program, systemPath, allowedOptions, argPatterns, forbidden
    requiredOptions := (allowedOptions.entries.filterMap fun entry =>
      if entry.2.required then some entry.1 else none).toFinset }

/-- One round of the pass over the arguments. -/
def scanArg (spec : ProgramSpec) (scan : Scan) (item : Text × ℕ) : Outcome Scan :=
  let (arg, index) := item
  match scan.expectingOptionValue with
  | some (name, type) =>
      if startsWith arg ['-'] then
        fail (.optionFollowedByOptionInsteadOfValue spec.program name arg)
      else do
        let opt ← newMatchedOpt name arg type
        .ok { scan with expectingOptionValue := none, matchedOpts := scan.matchedOpts ++ [opt] }
  | none =>
      if arg = "--".toList then fail (.doubleDashNotSupportedYet spec.program)
      else if startsWith arg ['-'] then
        match spec.allowedOptions.lookup arg with
        | some opt =>
            match opt.optMeta with
            | .flag => .ok { scan with matchedFlags := scan.matchedFlags ++ [⟨arg⟩] }
            | .value type => .ok { scan with expectingOptionValue := some (arg, type) }
        | none => fail (.unknownOption spec.program arg)
      else .ok { scan with args := scan.args ++ [⟨index, arg⟩] }

/-- What a valid command line comes to. -/
def verdict (spec : ProgramSpec) (exec : ValidExec) : MatchedExec :=
  match spec.forbidden with
  | some reason => .forbidden (.exec exec) reason
  | none => .matched exec

/-- What follows the pass over the arguments. -/
def checkScan (spec : ProgramSpec) (scan : Scan) : Outcome MatchedExec :=
  match scan.expectingOptionValue with
  | some (name, _) => fail (.optionMissingValue spec.program name)
  | none => do
      let matchedArgs ← resolveObservedArgsWithPatterns spec.program scan.args spec.argPatterns
      let matchedOptNames := (scan.matchedOpts.map (·.name)).toFinset
      if ¬spec.requiredOptions ⊆ matchedOptNames then
        fail (.missingRequiredOptions spec.program
          (@Finset.sort Text (spec.requiredOptions \ matchedOptNames) (· ≤ ·) _ trans_text
            antisymm_text total_text))
      else
        .ok (spec.verdict
          { program := spec.program, flags := scan.matchedFlags, opts := scan.matchedOpts
            args := matchedArgs, systemPath := spec.systemPath })

/-- `ProgramSpec::check`. -/
def check (spec : ProgramSpec) (execCall : ExecCall) : Outcome MatchedExec := do
  let scan ← execCall.args.zipIdx.foldlM spec.scanArg ⟨none, [], [], []⟩
  spec.checkScan scan

end ProgramSpec

/-! ## Parts of a command line -/

/-- A word that is taken for an option. -/
def Dashed (word : Text) : Prop := ['-'] <+: word

/-- A part of a command line. -/
inductive Part where
  | flag (name : Text)
  | option (name value : Text) (type : ArgType)
  | operand (value : Text)

namespace Part

/-- The arguments that make it up. -/
def words : Part → List Text
  | .flag name => [name]
  | .option name value _ => [name, value]
  | .operand value => [value]

/-- The name of an option, with a value or without. -/
def name? : Part → Option Text
  | .flag name => some name
  | .option name _ _ => some name
  | .operand _ => none

def flag? : Part → Option MatchedFlag
  | .flag name => some ⟨name⟩
  | .option _ _ _ => none
  | .operand _ => none

def opt? : Part → Option MatchedOpt
  | .flag _ => none
  | .option name value type => some ⟨name, value, type⟩
  | .operand _ => none

def operandAt (index : ℕ) : Part → List PositionalArg
  | .flag _ => []
  | .option _ _ _ => []
  | .operand value => [⟨index, value⟩]

theorem words_ne_nil (part : Part) : part.words ≠ [] := by
  cases part <;> exact List.cons_ne_nil _ _

end Part

/-- The operands with their places in the command line. -/
def operands : ℕ → List Part → List PositionalArg
  | _, [] => []
  | index, part :: parts => part.operandAt index ++ operands (index + part.words.length) parts

theorem operands_append (index : ℕ) (front back : List Part) :
    operands index (front ++ back) =
      operands index front ++ operands (index + (front.flatMap Part.words).length) back := by
  induction front generalizing index with
  | nil => rfl
  | cons part front ih =>
      rw [List.cons_append, operands, operands, ih, List.flatMap_cons, List.length_append,
        List.append_assoc, Nat.add_assoc]

/-- What the pass finds in parts. -/
def scanOf (expecting : Option (Text × ArgType)) (parts : List Part) : Scan :=
  ⟨expecting, operands 0 parts, parts.filterMap Part.flag?, parts.filterMap Part.opt?⟩

theorem scanOf_concat (parts : List Part) (part : Part) :
    scanOf none (parts ++ [part]) =
      ⟨none, operands 0 parts ++ part.operandAt (parts.flatMap Part.words).length,
        parts.filterMap Part.flag? ++ part.flag?.toList,
        parts.filterMap Part.opt? ++ part.opt?.toList⟩ := by
  rw [scanOf, operands_append, Nat.zero_add, operands, operands, List.append_nil,
    List.filterMap_append, List.filterMap_append]
  cases part <;> rfl

namespace ProgramSpec

def IsFlag (spec : ProgramSpec) (name : Text) : Prop :=
  Dashed name ∧ (spec.allowedOptions.lookup name).map Opt.optMeta = some .flag

def TakesValue (spec : ProgramSpec) (name : Text) (type : ArgType) : Prop :=
  Dashed name ∧ (spec.allowedOptions.lookup name).map Opt.optMeta = some (.value type)

/-- What the rule says of a part. -/
def Allows (spec : ProgramSpec) : Part → Prop
  | .flag name => spec.IsFlag name
  | .option name value type => spec.TakesValue name type ∧ ¬Dashed value ∧ type.Accepts value
  | .operand value => ¬Dashed value

/-- A command line as a row of parts, with its operands assigned to the patterns.  A value never
begins with a dash, so that `--` is no word at all. -/
structure Parses (spec : ProgramSpec) (words : List Text) (parts : List Part)
    (assigned : List (ArgMatcher × PositionalArg)) : Prop where
  whole : parts.flatMap Part.words = words
  allowed : ∀ part ∈ parts, spec.Allows part
  plain : "--".toList ∉ words
  assigns : Assigns ArgMatcher.Takes spec.argPatterns (operands 0 parts) assigned

/-- The required options are there, with a value. -/
def IsComplete (spec : ProgramSpec) (parts : List Part) : Prop :=
  ∀ name ∈ spec.requiredOptions, ∃ value type, .option name value type ∈ parts

/-- What a command line comes to. -/
def execOf (spec : ProgramSpec) (parts : List Part)
    (assigned : List (ArgMatcher × PositionalArg)) : ValidExec :=
  { program := spec.program, flags := parts.filterMap Part.flag?
    opts := parts.filterMap Part.opt?, args := assigned.map matchedBy
    systemPath := spec.systemPath }

/-- What one round of the pass does. -/
inductive ScanStep (spec : ProgramSpec) (arg : Text) (index : ℕ) : Scan → Scan → Prop
  | value {name : Text} {type : ArgType} {args : List PositionalArg} {flags : List MatchedFlag}
      {opts : List MatchedOpt} (undashed : ¬Dashed arg) (accepts : type.Accepts arg) :
      ScanStep spec arg index ⟨some (name, type), args, flags, opts⟩
        ⟨none, args, flags, opts ++ [⟨name, arg, type⟩]⟩
  | flag {args : List PositionalArg} {flags : List MatchedFlag} {opts : List MatchedOpt}
      (plain : arg ≠ "--".toList) (isFlag : spec.IsFlag arg) :
      ScanStep spec arg index ⟨none, args, flags, opts⟩ ⟨none, args, flags ++ [⟨arg⟩], opts⟩
  | option {type : ArgType} {args : List PositionalArg} {flags : List MatchedFlag}
      {opts : List MatchedOpt} (plain : arg ≠ "--".toList) (takesValue : spec.TakesValue arg type) :
      ScanStep spec arg index ⟨none, args, flags, opts⟩ ⟨some (arg, type), args, flags, opts⟩
  | operand {args : List PositionalArg} {flags : List MatchedFlag} {opts : List MatchedOpt}
      (undashed : ¬Dashed arg) :
      ScanStep spec arg index ⟨none, args, flags, opts⟩ ⟨none, args ++ [⟨index, arg⟩], flags, opts⟩

/-- The words behind the pass: parts, and perhaps an option whose value is due. -/
structure Scanned (spec : ProgramSpec) (words : List Text) (parts : List Part)
    (expecting : Option (Text × ArgType)) : Prop where
  whole : parts.flatMap Part.words ++ (expecting.map Prod.fst).toList = words
  allowed : ∀ part ∈ parts, spec.Allows part
  pending : ∀ name type, expecting = some (name, type) → spec.TakesValue name type
  plain : "--".toList ∉ words

variable {spec : ProgramSpec} {words : List Text} {parts : List Part}
  {expecting : Option (Text × ArgType)} {next : Scan}

theorem newMatchedOpt_returns (name value : Text) (type : ArgType) :
    Returns Failure.IsCrash (newMatchedOpt name value type) fun opt =>
      type.Accepts value ∧ opt = ⟨name, value, type⟩ :=
  (validate_returns type value).bind_unit fun _ => returns_ok _

/-- A word in front of which no value is due. -/
theorem scanOpen_returns (spec : ProgramSpec) (args : List PositionalArg)
    (flags : List MatchedFlag) (opts : List MatchedOpt) (arg : Text) (index : ℕ) :
    Returns Failure.IsCrash (spec.scanArg ⟨none, args, flags, opts⟩ (arg, index))
      (spec.ScanStep arg index ⟨none, args, flags, opts⟩) := by
  unfold scanArg
  dsimp only
  by_cases plain : arg = "--".toList
  · rw [if_pos plain]
    refine (returns_fail _).congr fun next => iff_of_false id ?_
    rintro (_ | ⟨differs, -⟩ | ⟨differs, -⟩ | undashed)
    · exact differs plain
    · exact differs plain
    · exact undashed (plain ▸ ⟨['-'], rfl⟩)
  rw [if_neg plain]
  by_cases dashed : Dashed arg
  · rw [if_pos (startsWith_iff.mpr dashed)]
    cases found : spec.allowedOptions.lookup arg with
    | none =>
        refine (returns_fail _).congr fun next => iff_of_false id ?_
        rintro (_ | ⟨-, -, allowed⟩ | ⟨-, -, allowed⟩ | undashed)
        · rw [found] at allowed
          cases allowed
        · rw [found] at allowed
          cases allowed
        · exact undashed dashed
    | some opt =>
        obtain ⟨name, kind, required⟩ := opt
        cases kind with
        | flag =>
            refine (returns_ok _).congr fun next => ?_
            constructor
            · rintro rfl
              exact .flag plain ⟨dashed, by rw [found]; rfl⟩
            · rintro (_ | _ | ⟨-, -, allowed⟩ | undashed)
              · rfl
              · rw [found] at allowed
                cases allowed
              · exact absurd dashed undashed
        | value type =>
            refine (returns_ok _).congr fun next => ?_
            constructor
            · rintro rfl
              exact .option plain ⟨dashed, by rw [found]; rfl⟩
            · rintro (_ | ⟨-, -, allowed⟩ | ⟨-, -, allowed⟩ | undashed)
              · rw [found] at allowed
                cases allowed
              · rw [found] at allowed
                cases allowed
                rfl
              · exact absurd dashed undashed
  · rw [if_neg fun starts => dashed (startsWith_iff.mp starts)]
    refine (returns_ok _).congr fun next => ?_
    constructor
    · rintro rfl
      exact .operand dashed
    · rintro (_ | ⟨-, dashed', -⟩ | ⟨-, dashed', -⟩ | _)
      · exact absurd dashed' dashed
      · exact absurd dashed' dashed
      · rfl

theorem scanArg_returns (spec : ProgramSpec) (scan : Scan) (arg : Text) (index : ℕ) :
    Returns Failure.IsCrash (spec.scanArg scan (arg, index)) (spec.ScanStep arg index scan) := by
  obtain ⟨expecting, args, flags, opts⟩ := scan
  cases expecting with
  | none => exact scanOpen_returns spec args flags opts arg index
  | some expected =>
      obtain ⟨name, type⟩ := expected
      unfold scanArg
      dsimp only
      refine Returns.congr (returns_guard (fun _ => returns_fail _) fun _ =>
        (newMatchedOpt_returns name arg type).bind_value fun _ => returns_ok _) fun next => ?_
      rw [startsWith_iff]
      constructor
      · rintro ⟨undashed, accepts, rfl⟩
        exact .value undashed accepts
      · rintro ⟨undashed, accepts⟩
        exact ⟨undashed, accepts, rfl⟩

/-- Where no value is due. -/
theorem takesValue_of_none (name : Text) (type : ArgType) (absent : none = some (name, type)) :
    spec.TakesValue name type := by
  cases absent

/-- The pass goes on by one word. -/
theorem Scanned.step {word : Text} (scanned : spec.Scanned words parts expecting)
    (step : spec.ScanStep word words.length (scanOf expecting parts) next) :
    ∃ parts expecting, spec.Scanned (words ++ [word]) parts expecting ∧
      next = scanOf expecting parts := by
  obtain ⟨rfl, allowed, pending, plain⟩ := scanned
  have joined (part : Part) (allows : spec.Allows part) :
      ∀ part' ∈ parts ++ [part], spec.Allows part' := by
    intro part' member
    rcases List.mem_append.mp member with old | new
    · exact allowed part' old
    · rw [List.mem_singleton.mp new]
      exact allows
  have unmarked (differs : word ≠ "--".toList) {front : List Text} (plain : "--".toList ∉ front) :
      "--".toList ∉ front ++ [word] := by
    intro member
    rcases List.mem_append.mp member with old | new
    · exact plain old
    · exact differs (List.mem_singleton.mp new).symm
  have differs (undashed : ¬Dashed word) : word ≠ "--".toList := by
    rintro rfl
    exact undashed ⟨['-'], rfl⟩
  unfold scanOf at step
  cases step with
  | @value name type _ _ _ undashed accepts =>
      refine ⟨parts ++ [.option name word type], none, ⟨?_, joined (.option name word type)
        ⟨pending name type rfl, undashed, accepts⟩, takesValue_of_none,
        unmarked (differs undashed) plain⟩, ?_⟩
      · simp [Part.words]
      · simp [scanOf_concat, Part.operandAt, Part.flag?, Part.opt?]
  | flag differs isFlag =>
      refine ⟨parts ++ [.flag word], none, ⟨?_, joined (.flag word) isFlag,
        takesValue_of_none, unmarked differs plain⟩, ?_⟩
      · simp [Part.words]
      · simp [scanOf_concat, Part.operandAt, Part.flag?, Part.opt?]
  | @option type _ _ _ differs takesValue =>
      refine ⟨parts, some (word, type), ⟨?_, allowed, ?_, unmarked differs plain⟩, rfl⟩
      · simp
      · rintro _ _ ⟨⟩
        exact takesValue
  | operand undashed =>
      refine ⟨parts ++ [.operand word], none, ⟨?_, joined (.operand word) undashed,
        takesValue_of_none, unmarked (differs undashed) plain⟩, ?_⟩
      · simp [Part.words]
      · simp [scanOf_concat, Part.operandAt, Part.flag?, Part.opt?]

/-- What the pass has found it has found by a step from what it found one word before. -/
theorem Scanned.exists_step {word : Text}
    (scanned : spec.Scanned (words ++ [word]) parts expecting) :
    ∃ before due, spec.Scanned words before due ∧
      spec.ScanStep word words.length (scanOf due before) (scanOf expecting parts) := by
  obtain ⟨whole, allowed, pending, plain⟩ := scanned
  have unmarked : "--".toList ∉ words := fun member => plain (List.mem_append_left _ member)
  have differs : word ≠ "--".toList := by
    rintro rfl
    exact plain (List.mem_append_right _ (List.mem_singleton_self _))
  cases expecting with
  | some expected =>
      obtain ⟨name, type⟩ := expected
      obtain ⟨rfl, same⟩ := List.append_inj' whole rfl
      cases same
      exact ⟨parts, none, ⟨List.append_nil _, allowed, takesValue_of_none, unmarked⟩,
        .option differs (pending _ type rfl)⟩
  | none =>
      rw [Option.map_none, Option.toList_none, List.append_nil] at whole
      rcases List.eq_nil_or_concat' parts with rfl | ⟨parts, part, rfl⟩
      · exact absurd whole.symm (List.append_ne_nil_of_right_ne_nil _ (List.cons_ne_nil _ _))
      have before : ∀ part ∈ parts, spec.Allows part :=
        fun part member => allowed part (List.mem_append_left _ member)
      have allows := allowed part (List.mem_append_right _ (List.mem_singleton_self part))
      rw [List.flatMap_append, List.flatMap_singleton] at whole
      cases part with
      | flag name =>
          obtain ⟨rfl, same⟩ := List.append_inj' whole rfl
          cases same
          refine ⟨parts, none, ⟨List.append_nil _, before, takesValue_of_none, unmarked⟩, ?_⟩
          rw [scanOf_concat, Part.operandAt, List.append_nil, Part.opt?, Option.toList_none,
            List.append_nil]
          exact .flag differs allows
      | option name value type =>
          rw [Part.words, List.append_cons] at whole
          obtain ⟨rfl, same⟩ := List.append_inj' whole rfl
          cases same
          obtain ⟨takesValue, undashed, accepts⟩ := allows
          refine ⟨parts, some (name, type), ⟨rfl, before, ?_, unmarked⟩, ?_⟩
          · rintro _ _ ⟨⟩
            exact takesValue
          · rw [scanOf_concat, Part.operandAt, List.append_nil, Part.flag?, Option.toList_none,
              List.append_nil]
            exact .value undashed accepts
      | operand value =>
          obtain ⟨rfl, same⟩ := List.append_inj' whole rfl
          cases same
          refine ⟨parts, none, ⟨List.append_nil _, before, takesValue_of_none, unmarked⟩, ?_⟩
          rw [scanOf_concat, Part.flag?, Part.opt?, Option.toList_none, Option.toList_none,
            List.append_nil, List.append_nil]
          exact .operand allows

theorem scan_returns (spec : ProgramSpec) (words : List Text) :
    Returns Failure.IsCrash (words.zipIdx.foldlM spec.scanArg ⟨none, [], [], []⟩) fun scan =>
      ∃ parts expecting, spec.Scanned words parts expecting ∧ scan = scanOf expecting parts := by
  induction words using List.reverseRecOn with
  | nil =>
      refine (returns_ok _).congr fun scan => ?_
      constructor
      · rintro rfl
        refine ⟨[], none, ⟨rfl, ?_, takesValue_of_none, List.not_mem_nil⟩, rfl⟩
        exact fun part member => absurd member List.not_mem_nil
      · rintro ⟨parts, expecting, scanned, rfl⟩
        obtain ⟨noParts, noOption⟩ := List.append_eq_nil_iff.mp scanned.whole
        obtain rfl : parts = [] := by
          rw [List.flatMap_eq_nil_iff] at noParts
          exact List.eq_nil_iff_forall_not_mem.mpr fun part member =>
            part.words_ne_nil (noParts part member)
        obtain rfl : expecting = none := by simpa using noOption
        rfl
  | append_singleton words word ih =>
      have last (scan : Scan) : Returns Failure.IsCrash
          ([word].zipIdx (0 + words.length) |>.foldlM spec.scanArg scan)
            (spec.ScanStep word words.length scan) := by
        rw [Nat.zero_add, List.zipIdx_singleton, List.foldlM_cons]
        simp only [List.foldlM_nil, bind_pure]
        exact scanArg_returns spec scan word words.length
      rw [List.zipIdx_append, List.foldlM_append]
      refine (ih.bind fun scan _ => last scan).congr fun scan => ?_
      constructor
      · rintro ⟨_, ⟨parts, expecting, scanned, rfl⟩, step⟩
        exact scanned.step step
      · rintro ⟨parts, expecting, scanned, rfl⟩
        obtain ⟨before, due, scanned, step⟩ := scanned.exists_step
        exact ⟨_, ⟨before, due, scanned, rfl⟩, step⟩

theorem subset_names_iff :
    spec.requiredOptions ⊆ ((parts.filterMap Part.opt?).map MatchedOpt.name).toFinset ↔
      spec.IsComplete parts := by
  have named {name : Text} :
      name ∈ ((parts.filterMap Part.opt?).map MatchedOpt.name).toFinset ↔
        ∃ value type, .option name value type ∈ parts := by
    rw [List.mem_toFinset, List.mem_map]
    constructor
    · rintro ⟨opt, found, rfl⟩
      obtain ⟨part, member, same⟩ := List.mem_filterMap.mp found
      cases part with
      | flag name | operand value => cases same
      | option name value type =>
          cases same
          exact ⟨value, type, member⟩
    · rintro ⟨value, type, member⟩
      exact ⟨⟨name, value, type⟩, List.mem_filterMap.mpr ⟨_, member, rfl⟩, rfl⟩
  exact forall₂_congr fun _ _ => named

theorem checkScan_returns (spec : ProgramSpec) (single : AtMostOneVararg spec.argPatterns)
    (scan : Scan) :
    Returns Failure.IsCrash (spec.checkScan scan) fun result =>
      scan.expectingOptionValue = none ∧ ∃ assigned,
        Assigns ArgMatcher.Takes spec.argPatterns scan.args assigned ∧
          spec.requiredOptions ⊆ (scan.matchedOpts.map MatchedOpt.name).toFinset ∧
            result = spec.verdict
              { program := spec.program, flags := scan.matchedFlags, opts := scan.matchedOpts
                args := assigned.map matchedBy, systemPath := spec.systemPath } := by
  unfold checkScan
  cases scan.expectingOptionValue with
  | some expected =>
      exact (returns_fail _).congr fun result => iff_of_false id fun both => by cases both.1
  | none =>
      refine Returns.congr ((resolve_returns spec.program scan.args single).bind
        fun matchedArgs _ => returns_guard (fun _ => returns_fail _) fun _ => returns_ok _)
        fun result => ?_
      constructor
      · rintro ⟨_, ⟨assigned, assigns, rfl⟩, complete, rfl⟩
        exact ⟨rfl, assigned, assigns, not_not.mp complete, rfl⟩
      · rintro ⟨-, assigned, assigns, complete, rfl⟩
        exact ⟨_, ⟨assigned, assigns, rfl⟩, not_not.mpr complete, rfl⟩

/-- The check returns what a parse with every required option comes to. -/
theorem check_returns (spec : ProgramSpec) (single : AtMostOneVararg spec.argPatterns)
    (execCall : ExecCall) :
    Returns Failure.IsCrash (spec.check execCall) fun result => ∃ parts assigned,
      spec.Parses execCall.args parts assigned ∧ spec.IsComplete parts ∧
        result = spec.verdict (spec.execOf parts assigned) := by
  refine Returns.congr ((scan_returns spec execCall.args).bind fun scan _ =>
    checkScan_returns spec single scan) fun result => ?_
  constructor
  · rintro ⟨_, ⟨parts, expecting, scanned, rfl⟩, idle, assigned, assigns, complete, rfl⟩
    obtain rfl : expecting = none := idle
    have whole := scanned.whole
    rw [Option.map_none, Option.toList_none, List.append_nil] at whole
    exact ⟨parts, assigned, ⟨whole, scanned.allowed, scanned.plain, assigns⟩,
      subset_names_iff.mp complete, rfl⟩
  · rintro ⟨parts, assigned, parses, complete, rfl⟩
    have scanned : spec.Scanned execCall.args parts none :=
      ⟨(List.append_nil _).trans parses.whole, parses.allowed, takesValue_of_none, parses.plain⟩
    exact ⟨_, ⟨parts, none, scanned, rfl⟩, rfl, assigned, parses.assigns,
      subset_names_iff.mpr complete, rfl⟩

end ProgramSpec

/-! ## The arguments of a valid command line -/

/-- Flags, options with their values, and arguments make up a command line; the arguments stand at
their indices, in increasing order. -/
structure AccountsFor (exec : ValidExec) (words : List Text) (parts : List Part) : Prop where
  whole : parts.flatMap Part.words = words
  flags : exec.flags = parts.filterMap Part.flag?
  opts : exec.opts = parts.filterMap Part.opt?
  args : exec.args.map (fun arg => ⟨arg.index, arg.value⟩) = operands 0 parts
  increasing : (exec.args.map MatchedArg.index).Pairwise (· < ·)
  inPlace : ∀ arg ∈ exec.args, words[arg.index]? = some arg.value

theorem le_index_of_mem_operands {index : ℕ} {parts : List Part} {arg : PositionalArg}
    (member : arg ∈ operands index parts) : index ≤ arg.index := by
  induction parts generalizing index with
  | nil => exact absurd member List.not_mem_nil
  | cons part parts ih =>
      rw [operands] at member
      rcases List.mem_append.mp member with first | later
      · cases part with
        | flag name | option name value type => exact absurd first List.not_mem_nil
        | operand value => rw [List.mem_singleton.mp first]
      · exact le_trans (Nat.le_add_right _ _) (ih later)

/-- An operand stands at its index, whatever stands in front. -/
theorem getElem?_of_mem_operands {parts : List Part} (front : List Text) {arg : PositionalArg}
    (member : arg ∈ operands front.length parts) :
    (front ++ parts.flatMap Part.words)[arg.index]? = some arg.value := by
  induction parts generalizing front with
  | nil => exact absurd member List.not_mem_nil
  | cons part parts ih =>
      rw [operands] at member
      rcases List.mem_append.mp member with first | later
      · cases part with
        | flag name | option name value type => exact absurd first List.not_mem_nil
        | operand value =>
            rw [List.mem_singleton.mp first, List.getElem?_append_right le_rfl, Nat.sub_self]
            rfl
      · rw [← List.length_append] at later
        rw [List.flatMap_cons, ← List.append_assoc]
        exact ih (front ++ part.words) later

theorem pairwise_operands (index : ℕ) (parts : List Part) :
    ((operands index parts).map PositionalArg.index).Pairwise (· < ·) := by
  induction parts generalizing index with
  | nil => exact .nil
  | cons part parts ih =>
      rw [operands, List.map_append]
      cases part with
      | flag name => exact ih (index + 1)
      | option name value type => exact ih (index + 2)
      | operand value =>
          refine List.pairwise_cons.mpr ⟨fun later member => ?_, ih (index + 1)⟩
          obtain ⟨arg, behind, rfl⟩ := List.mem_map.mp member
          exact Nat.lt_of_succ_le (le_index_of_mem_operands behind)

theorem ProgramSpec.Parses.accountsFor {spec : ProgramSpec} {words : List Text} {parts : List Part}
    {assigned : List (ArgMatcher × PositionalArg)} (parses : spec.Parses words parts assigned) :
    AccountsFor (spec.execOf parts assigned) words parts := by
  have args : (assigned.map matchedBy).map (fun arg => ⟨arg.index, arg.value⟩) =
      operands 0 parts := by
    rw [List.map_map, ← parses.assigns.map_snd]
    rfl
  refine ⟨parses.whole, rfl, rfl, args, ?_, fun arg member => ?_⟩
  · have increasing := pairwise_operands 0 parts
    rw [← args, List.map_map] at increasing
    exact increasing
  · have found : (⟨arg.index, arg.value⟩ : PositionalArg) ∈ operands 0 parts := by
      rw [← args]
      exact List.mem_map_of_mem member
    rw [← parses.whole]
    exact getElem?_of_mem_operands [] found

/-- The check never panics, it accepts exactly the command lines that parse with every required
option, and what it returns accounts for every argument. -/
theorem check_accepts_iff (spec : ProgramSpec) (single : AtMostOneVararg spec.argPatterns)
    (execCall : ExecCall) :
    spec.check execCall ≠ .error .panicked ∧
      ((∃ result, spec.check execCall = .ok result) ↔
        ∃ parts assigned, spec.Parses execCall.args parts assigned ∧ spec.IsComplete parts) ∧
      ∀ result, spec.check execCall = .ok result → ∃ exec parts, result = spec.verdict exec ∧
        (∀ part ∈ parts, spec.Allows part) ∧ AccountsFor exec execCall.args parts := by
  have returns := spec.check_returns single execCall
  refine ⟨fun panics => returns.safe panics rfl, ?_, fun result accepted => ?_⟩
  · constructor
    · rintro ⟨result, accepted⟩
      obtain ⟨parts, assigned, parses, complete, -⟩ := returns.ok_iff.mp accepted
      exact ⟨parts, assigned, parses, complete⟩
    · rintro ⟨parts, assigned, parses, complete⟩
      exact ⟨_, returns.ok_iff.mpr ⟨parts, assigned, parses, complete, rfl⟩⟩
  · obtain ⟨parts, assigned, parses, -, rfl⟩ := returns.ok_iff.mp accepted
    exact ⟨_, parts, rfl, parses.allowed, parses.accountsFor⟩

/-- A program with one option, whose files go to the last one. -/
def copySpec (required : Bool) : ProgramSpec :=
  .new "cp".toList [] ((∅ : AList fun _ : Text => Opt).insert "-f".toList
    ⟨"-f".toList, .flag, required⟩) [.readableFiles, .writeableFile] none

/-- A command line for it. -/
def copyCall : ExecCall := ⟨"cp".toList, ["-f".toList, "a".toList, "b".toList]⟩

theorem check_accepts_iff_copy :
    (copySpec false).check copyCall ≠ .error .panicked ∧
      ((∃ result, (copySpec false).check copyCall = .ok result) ↔ ∃ parts assigned,
        (copySpec false).Parses copyCall.args parts assigned ∧
          (copySpec false).IsComplete parts) ∧
      ∀ result, (copySpec false).check copyCall = .ok result → ∃ exec parts,
        result = (copySpec false).verdict exec ∧
          (∀ part ∈ parts, (copySpec false).Allows part) ∧
            AccountsFor exec copyCall.args parts :=
  check_accepts_iff (copySpec false) (by decide) copyCall

/-- A required flag is missed although it is there. -/
theorem check_requiredFlag :
    ¬((∃ result, (copySpec true).check copyCall = .ok result) ↔ ∃ parts assigned,
      (copySpec true).Parses copyCall.args parts assigned ∧
        ∀ name ∈ (copySpec true).requiredOptions, ∃ part ∈ parts, part.name? = some name) := by
  intro accepts
  have parses : (copySpec true).Parses copyCall.args
      [.flag "-f".toList, .operand "a".toList, .operand "b".toList]
      [(.readableFiles, ⟨1, "a".toList⟩), (.writeableFile, ⟨2, "b".toList⟩)] := by
    refine ⟨rfl, fun part member => ?_, by decide, ?_⟩
    · simp only [List.mem_cons, List.not_mem_nil, or_false] at member
      rcases member with rfl | rfl | rfl
      · exact ⟨⟨['f'], rfl⟩, rfl⟩
      · exact (by decide : ¬['-'] <+: "a".toList)
      · exact (by decide : ¬['-'] <+: "b".toList)
    · have files (arg : PositionalArg) (named : arg.value ≠ []) (pattern : ArgMatcher)
          (file : pattern = .readableFiles ∨ pattern = .writeableFile) : pattern.Takes [arg] := by
        rcases file with rfl | rfl
        · exact ⟨le_rfl, fun _ member => List.mem_singleton.mp member ▸ named⟩
        · exact ⟨rfl, fun _ member => List.mem_singleton.mp member ▸ named⟩
      refine ⟨[[⟨1, "a".toList⟩], [⟨2, "b".toList⟩]], .cons ?_ (.cons ?_ .nil), rfl, rfl⟩
      · exact files _ (List.cons_ne_nil _ _) _ (.inl rfl)
      · exact files _ (List.cons_ne_nil _ _) _ (.inr rfl)
  have present : ∀ name ∈ (copySpec true).requiredOptions,
      ∃ part ∈ [Part.flag "-f".toList, .operand "a".toList, .operand "b".toList],
        part.name? = some name := by
    intro name required
    obtain rfl := Finset.mem_singleton.mp required
    exact ⟨_, List.mem_cons_self, rfl⟩
  obtain ⟨result, accepted⟩ := accepts.mpr ⟨_, _, parses, present⟩
  cases accepted

end CodexPilot.ExecPolicyLegacy
