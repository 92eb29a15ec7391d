import CodexPilot.ExecPolicy.NetworkRules
import CodexPilot.Library.CommandLine

/-!
# Matching operands against patterns

The operands of a command line are matched against a prefix of patterns for one operand each, at
most one pattern for several, and a suffix.  The ranges are computed by subtraction.  Nevertheless
no slice is ever out of range, and the matcher accepts exactly the operands that fall in their order
into one group for each pattern.
-/

namespace CodexPilot.ExecPolicyLegacy

open RustStd Text ExecPolicy CommandLine

/-! ## Types of arguments -/

/-- The type of an argument. -/
inductive ArgType where
  | literal (value : Text)
  | opaqueNonFile
  | readableFile
  | writeableFile
  | positiveInteger
  | sedCommand
  | unknown

/-- Patterns that lists of arguments are compared against. -/
inductive ArgMatcher where
  | literal (value : Text)
  | opaqueNonFile
  | readableFile
  | writeableFile
  | readableFiles
  | readableFilesOrCwd
  | positiveInteger
  | sedCommand
  | unverifiedVarargs

/-- How many arguments a pattern takes. -/
inductive ArgMatcherCardinality where
  | one
  | atLeastOne
  | zeroOrMore
  deriving DecidableEq

def ArgMatcher.cardinality : ArgMatcher → ArgMatcherCardinality
  | .literal _ | .opaqueNonFile | .readableFile | .writeableFile | .positiveInteger
  | .sedCommand => .one
  | .readableFiles => .atLeastOne
  | .readableFilesOrCwd | .unverifiedVarargs => .zeroOrMore

def ArgMatcher.argType : ArgMatcher → ArgType
  | .literal value => .literal value
  | .opaqueNonFile => .opaqueNonFile
  | .readableFile => .readableFile
  | .writeableFile => .writeableFile
  | .readableFiles => .readableFile
  | .readableFilesOrCwd => .readableFile
  | .positiveInteger => .positiveInteger
  | .sedCommand => .sedCommand
  | .unverifiedVarargs => .unknown

def ArgMatcherCardinality.isExact : ArgMatcherCardinality → Option ℕ
  | .one => some 1
  | .atLeastOne => none
  | .zeroOrMore => none

/-! ## Errors -/

/-- An argument and its position. -/
structure PositionalArg where
  index : ℕ
  value : Text

/-- Why a call does not match. -/
inductive Error where
  | optionMissingValue (program option : Text)
  | optionFollowedByOptionInsteadOfValue (program option value : Text)
  | unknownOption (program option : Text)
  | unexpectedArguments (program : Text) (args : List PositionalArg)
  | doubleDashNotSupportedYet (program : Text)
  | multipleVarargPatterns (program : Text) (first second : ArgMatcher)
  | rangeStartExceedsEnd (start stop : ℕ)
  | rangeEndOutOfBounds (stop len : ℕ)
  | prefixOverlapsSuffix
  | notEnoughArgs (program : Text) (args : List PositionalArg) (argPatterns : List ArgMatcher)
  | internalInvariantViolation (message : Text)
  | varargMatcherDidNotMatchAnything (program : Text) (matcher : ArgMatcher)
  | emptyFileName
  | literalValueDidNotMatch (expected actual : Text)
  | invalidPositiveInteger (value : Text)
  | missingRequiredOptions (program : Text) (options : List Text)
  | sedCommandNotProvablySafe (command : Text)

/-- How a check ends without a result. -/
inductive Failure where
  | returned (error : Error)
  /-- A slice is out of range. -/
  | panicked

/-- A panic. -/
def Failure.IsCrash (failure : Failure) : Prop := failure = .panicked

/-- A result, an error or a panic. -/
abbrev Outcome := Except Failure

/-- Return an error. -/
def fail {α : Type} (error : Error) : Outcome α := .error (.returned error)

/-- `&items[start..stop]`. -/
def slice {α : Type} (items : List α) (start stop : ℕ) : Outcome (List α) :=
  if start ≤ stop ∧ stop ≤ items.length then .ok ((items.drop start).take (stop - start))
  else .error .panicked

/-! ## Values -/

/-- `str::parse::<u64>`: decimal digits, with a plus sign or without. -/
def parseU64 (text : Text) : Option ℕ :=
  let digits := (stripPrefix text ['+']).getD text
  if digits ≠ [] ∧ digits.all Char.isDigit then
    let number := Nat.ofDigitChars 10 digits 0
    if number < 2 ^ 64 then some number else none
  else none

def parseSedCommand (sedCommand : Text) : Outcome Unit :=
  if endsWith sedCommand ['p'] then
    match splitOnce sedCommand.dropLast ',' with
    | some (first, rest) =>
        if (parseU64 first).isSome ∧ (parseU64 rest).isSome then .ok ()
        else fail (.sedCommandNotProvablySafe sedCommand)
    | none => fail (.sedCommandNotProvablySafe sedCommand)
  else fail (.sedCommandNotProvablySafe sedCommand)

/-- `ArgType::validate`. -/
def ArgType.validate (type : ArgType) (value : Text) : Outcome Unit :=
  match type with
  | .literal literalValue =>
      if value ≠ literalValue then fail (.literalValueDidNotMatch literalValue value) else .ok ()
  | .readableFile | .writeableFile => if value = [] then fail .emptyFileName else .ok ()
  | .opaqueNonFile | .unknown => .ok ()
  | .positiveInteger =>
      match parseU64 value with
      | some 0 => fail (.invalidPositiveInteger value)
      | some _ => .ok ()
      | none => fail (.invalidPositiveInteger value)
  | .sedCommand => parseSedCommand value

/-- Decimal digits for a number below `2 ^ 64`, with a plus sign or without. -/
def IsNumber (text : Text) (number : ℕ) : Prop :=
  ∃ digits, (text = digits ∨ text = '+' :: digits) ∧ digits ≠ [] ∧
    (∀ c ∈ digits, c.isDigit = true) ∧ number = Nat.ofDigitChars 10 digits 0 ∧ number < 2 ^ 64

/-- What `validate` lets through. -/
def ArgType.Accepts : ArgType → Text → Prop
  | .literal expected, value => value = expected
  | .readableFile, value => value ≠ []
  | .writeableFile, value => value ≠ []
  | .opaqueNonFile, _ => True
  | .unknown, _ => True
  | .positiveInteger, value => ∃ number, IsNumber value number ∧ 0 < number
  | .sedCommand, value => ∃ first last lower upper,
      value = first ++ ',' :: last ++ ['p'] ∧ IsNumber first lower ∧ IsNumber last upper

theorem parseU64_eq_some_iff {text : Text} {number : ℕ} :
    parseU64 text = some number ↔ IsNumber text number := by
  have spelled (digits : Text) :
      (if digits ≠ [] ∧ digits.all Char.isDigit then
        if Nat.ofDigitChars 10 digits 0 < 2 ^ 64 then some (Nat.ofDigitChars 10 digits 0) else none
      else none) = some number ↔ digits ≠ [] ∧ (∀ c ∈ digits, c.isDigit = true) ∧
        number = Nat.ofDigitChars 10 digits 0 ∧ number < 2 ^ 64 := by
    rw [Option.ite_none_right_eq_some, Option.ite_none_right_eq_some, Option.some.injEq,
      List.all_eq_true, and_assoc]
    refine and_congr_right fun _ => and_congr_right fun _ => ?_
    constructor
    · rintro ⟨small, rfl⟩
      exact ⟨rfl, small⟩
    · rintro ⟨rfl, small⟩
      exact ⟨small, rfl⟩
  unfold parseU64
  cases found : stripPrefix text ['+'] with
  | some digits =>
      obtain rfl := stripPrefix_eq_some_iff.mp found
      refine (spelled digits).trans ⟨fun spells => ⟨digits, .inr rfl, spells⟩, ?_⟩
      rintro ⟨digits', rfl | same, spells⟩
      · cases spells.2.1 '+' List.mem_cons_self
      · cases same
        exact spells
  | none =>
      refine (spelled text).trans ⟨fun spells => ⟨text, .inl rfl, spells⟩, ?_⟩
      rintro ⟨digits, rfl | rfl, spells⟩
      · exact spells
      · cases found

theorem comma_notMem_of_isNumber {text : Text} {number : ℕ} (number : IsNumber text number) :
    ',' ∉ text := by
  obtain ⟨digits, rfl | rfl, -, all, -⟩ := number
  · intro member
    cases all ',' member
  · intro member
    rcases List.mem_cons.mp member with same | member
    · cases same
    · cases all ',' member

theorem isSome_parseU64_iff {text : Text} :
    (parseU64 text).isSome = true ↔ ∃ number, IsNumber text number := by
  rw [Option.isSome_iff_exists]
  exact exists_congr fun _ => parseU64_eq_some_iff

theorem eq_of_splitOnce {text first rest : Text} {c : Char}
    (found : splitOnce text c = some (first, rest)) : text = first ++ c :: rest := by
  by_cases member : c ∈ text
  · obtain ⟨before, after, rfl, absent⟩ := List.eq_append_cons_of_mem member
    rw [splitOnce_append_cons absent] at found
    cases found
    rfl
  · rw [splitOnce_of_notMem member] at found
    cases found

theorem isCrash_returned (error : Error) : ¬Failure.IsCrash (.returned error) := nofun

theorem returns_fail {α : Type} (error : Error) :
    Returns Failure.IsCrash (fail error : Outcome α) fun _ => False :=
  returns_error (isCrash_returned error)

theorem parseSedCommand_returns (value : Text) :
    Returns Failure.IsCrash (parseSedCommand value) fun _ =>
      ArgType.sedCommand.Accepts value := by
  have refused (impossible : ¬ArgType.sedCommand.Accepts value) :
      Returns Failure.IsCrash (fail (.sedCommandNotProvablySafe value) : Outcome Unit) fun _ =>
        ArgType.sedCommand.Accepts value :=
    (returns_fail _).congr fun _ => (iff_of_false impossible id).symm
  unfold parseSedCommand
  split
  case isTrue ends =>
    obtain ⟨front, rfl⟩ := List.isSuffixOf_iff_suffix.mp ends
    rw [List.dropLast_concat]
    have accepts_iff : ArgType.sedCommand.Accepts (front ++ ['p']) ↔ ∃ first last,
        splitOnce front ',' = some (first, last) ∧ (parseU64 first).isSome = true ∧
          (parseU64 last).isSome = true := by
      constructor
      · rintro ⟨first, last, lower, upper, same, start, stop⟩
        obtain rfl := List.append_cancel_right same
        exact ⟨first, last, splitOnce_append_cons (comma_notMem_of_isNumber start) last,
          isSome_parseU64_iff.mpr ⟨lower, start⟩, isSome_parseU64_iff.mpr ⟨upper, stop⟩⟩
      · rintro ⟨first, last, found, start, stop⟩
        obtain ⟨lower, start⟩ := isSome_parseU64_iff.mp start
        obtain ⟨upper, stop⟩ := isSome_parseU64_iff.mp stop
        exact ⟨first, last, lower, upper, by rw [eq_of_splitOnce found], start, stop⟩
    split
    case h_1 first last found =>
      split
      case isTrue numbers =>
        exact (returns_ok ()).congr fun _ =>
          iff_of_true rfl (accepts_iff.mpr ⟨first, last, found, numbers⟩)
      case isFalse others =>
        refine refused fun accepts => others ?_
        obtain ⟨first', last', found', numbers⟩ := accepts_iff.mp accepts
        rw [found] at found'
        cases found'
        exact numbers
    case h_2 absent =>
      refine refused fun accepts => ?_
      obtain ⟨first, last, found, -⟩ := accepts_iff.mp accepts
      rw [absent] at found
      cases found
  case isFalse others =>
    refine refused ?_
    rintro ⟨first, last, lower, upper, rfl, -⟩
    exact others (List.isSuffixOf_iff_suffix.mpr (List.suffix_append _ _))

theorem validate_returns (type : ArgType) (value : Text) :
    Returns Failure.IsCrash (type.validate value) fun _ => type.Accepts value := by
  cases type with
  | literal expected =>
      refine (returns_guard (fun _ => returns_fail _) fun _ => returns_ok ()).congr fun _ => ?_
      exact ⟨fun ⟨same, _⟩ => not_not.mp same, fun same => ⟨not_not.mpr same, rfl⟩⟩
  | readableFile | writeableFile =>
      refine (returns_guard (fun _ => returns_fail _) fun _ => returns_ok ()).congr fun _ => ?_
      exact ⟨fun ⟨nonempty, _⟩ => nonempty, fun nonempty => ⟨nonempty, rfl⟩⟩
  | opaqueNonFile | unknown =>
      exact (returns_ok ()).congr fun _ => iff_of_true rfl trivial
  | positiveInteger =>
      have accepts_iff : ArgType.positiveInteger.Accepts value ↔
          ∃ number, parseU64 value = some number ∧ 0 < number :=
        exists_congr fun _ => and_congr_left fun _ => parseU64_eq_some_iff.symm
      unfold ArgType.validate
      dsimp only
      cases found : parseU64 value with
      | none =>
          refine (returns_fail _).congr fun _ => iff_of_false id fun accepts => ?_
          obtain ⟨number, same, -⟩ := accepts_iff.mp accepts
          rw [found] at same
          cases same
      | some number =>
          cases number with
          | zero =>
              refine (returns_fail _).congr fun _ => iff_of_false id fun accepts => ?_
              obtain ⟨number, same, positive⟩ := accepts_iff.mp accepts
              rw [found] at same
              cases same
              exact absurd positive (lt_irrefl 0)
          | succ number =>
              exact (returns_ok ()).congr fun _ =>
                iff_of_true rfl (accepts_iff.mpr ⟨number + 1, found, number.succ_pos⟩)
  | sedCommand => exact parseSedCommand_returns value

/-! ## Operands and patterns -/

/-- An argument with its type. -/
structure MatchedArg where
  index : ℕ
  type : ArgType
  value : Text

/-- `MatchedArg::new`. -/
def newMatchedArg (index : ℕ) (type : ArgType) (value : Text) : Outcome MatchedArg := do
  type.validate value
  .ok ⟨index, type, value⟩

/-- The patterns in front of the one for several operands, that one, and those behind it. -/
structure PartitionedArgs where
  numPrefixArgs : ℕ
  numSuffixArgs : ℕ
  prefixPatterns : List ArgMatcher
  suffixPatterns : List ArgMatcher
  varargPattern : Option ArgMatcher

/-- One round of `partition_args`; the flag is `in_prefix`. -/
def partitionPattern (program : Text) (state : Bool × PartitionedArgs) (pattern : ArgMatcher) :
    Outcome (Bool × PartitionedArgs) :=
  let (inPrefix, parts) := state
  match pattern.cardinality.isExact with
  | some n =>
      if inPrefix then
        .ok (inPrefix, { parts with
          prefixPatterns := parts.prefixPatterns ++ [pattern]
          numPrefixArgs := parts.numPrefixArgs + n })
      else
        .ok (inPrefix, { parts with
          suffixPatterns := parts.suffixPatterns ++ [pattern]
          numSuffixArgs := parts.numSuffixArgs + n })
  | none =>
      match parts.varargPattern with
      | none => .ok (false, { parts with varargPattern := some pattern })
      | some existing => fail (.multipleVarargPatterns program existing pattern)

/-- `partition_args`. -/
def partitionArgs (program : Text) (argPatterns : List ArgMatcher) : Outcome PartitionedArgs := do
  let (_, parts) ← argPatterns.foldlM (partitionPattern program) (true, ⟨0, 0, [], [], none⟩)
  .ok parts

def getRangeChecked {α : Type} (items : List α) (start stop : ℕ) : Outcome (List α) :=
  if start > stop then fail (.rangeStartExceedsEnd start stop)
  else if stop > items.length then fail (.rangeEndOutOfBounds stop items.length)
  else slice items start stop

/-- The operands of one pattern. -/
def matchEach (pattern : ArgMatcher) (args : List PositionalArg) : Outcome (List MatchedArg) :=
  args.mapM fun arg => newMatchedArg arg.index pattern.argType arg.value

/-- One round of the loops over the prefix and the suffix: a pattern takes the next operands. -/
def matchNext (args : List PositionalArg) (state : ℕ × List MatchedArg) (pattern : ArgMatcher) :
    Outcome (ℕ × List MatchedArg) :=
  match pattern.cardinality.isExact with
  | none => fail (.internalInvariantViolation "expected exact cardinality".toList)
  | some n => do
      let next ← slice args state.1 (state.1 + n)
      let matched ← matchEach pattern next
      .ok (state.1 + n, state.2 ++ matched)

/-- The operands between the prefix and the suffix. -/
def matchVararg (program : Text) (args : List PositionalArg) (start stop : ℕ)
    (matchedArgs : List MatchedArg) : Option ArgMatcher → Outcome (List MatchedArg)
  | none => .ok matchedArgs
  | some pattern => do
      let vararg ← getRangeChecked args start stop
      match pattern.cardinality with
      | .one =>
          fail (.internalInvariantViolation
            "vararg pattern should not have cardinality of one".toList)
      | .atLeastOne =>
          if vararg = [] then fail (.varargMatcherDidNotMatchAnything program pattern)
          else do
            let matched ← matchEach pattern vararg
            .ok (matchedArgs ++ matched)
      | .zeroOrMore => do
          let matched ← matchEach pattern vararg
          .ok (matchedArgs ++ matched)

/-- What follows the loop over the prefix. -/
def resolveBehindPrefix (program : Text) (args : List PositionalArg)
    (argPatterns : List ArgMatcher) (parts : PartitionedArgs) (prefixArgIndex : ℕ)
    (matchedArgs : List MatchedArg) : Outcome (List MatchedArg) :=
  if parts.numSuffixArgs > args.length then fail (.notEnoughArgs program args argPatterns)
  else
    let initialSuffixArgsIndex := args.length - parts.numSuffixArgs
    if prefixArgIndex > initialSuffixArgsIndex then fail .prefixOverlapsSuffix
    else do
      let matchedArgs ← matchVararg program args prefixArgIndex initialSuffixArgsIndex matchedArgs
        parts.varargPattern
      let back ← getRangeChecked args initialSuffixArgsIndex args.length
      let state ← parts.suffixPatterns.foldlM (matchNext back) (0, matchedArgs)
      if state.2.length < args.length then do
        let extraArgs ← getRangeChecked args state.2.length args.length
        fail (.unexpectedArguments program extraArgs)
      else .ok state.2

def resolveObservedArgsWithPatterns (program : Text) (args : List PositionalArg)
    (argPatterns : List ArgMatcher) : Outcome (List MatchedArg) := do
  let parts ← partitionArgs program argPatterns
  let front ← getRangeChecked args 0 parts.numPrefixArgs
  let state ← parts.prefixPatterns.foldlM (matchNext front) (0, [])
  resolveBehindPrefix program args argPatterns parts state.1 state.2

/-! ## Groups of operands -/

def ArgMatcherCardinality.Admits : ArgMatcherCardinality → ℕ → Prop
  | .one, count => count = 1
  | .atLeastOne, count => 1 ≤ count
  | .zeroOrMore, _ => True

/-- A value of the pattern's type. -/
def ArgMatcher.Fits (pattern : ArgMatcher) (arg : PositionalArg) : Prop :=
  pattern.argType.Accepts arg.value

/-- A group of operands for one pattern. -/
def ArgMatcher.Takes (pattern : ArgMatcher) (group : List PositionalArg) : Prop :=
  pattern.cardinality.Admits group.length ∧ ∀ arg ∈ group, pattern.Fits arg

/-- An operand with the type of its pattern. -/
def matchedBy (assigned : ArgMatcher × PositionalArg) : MatchedArg :=
  ⟨assigned.2.index, assigned.1.argType, assigned.2.value⟩

/-- At most one pattern is for several operands. -/
def AtMostOneVararg (patterns : List ArgMatcher) : Prop :=
  patterns.countP (fun pattern => pattern.cardinality.isExact.isNone) ≤ 1

instance : DecidablePred AtMostOneVararg := fun _ => Nat.decLe _ _

variable {pattern : ArgMatcher} {patterns : List ArgMatcher} {args group : List PositionalArg}
  {program : Text} {parts : PartitionedArgs}

theorem takes_iff_of_one (one : pattern.cardinality = .one) :
    pattern.Takes group ↔ ∃ arg, group = [arg] ∧ pattern.Fits arg := by
  rw [ArgMatcher.Takes, one, ArgMatcherCardinality.Admits, List.length_eq_one_iff]
  constructor
  · rintro ⟨⟨arg, rfl⟩, fits⟩
    exact ⟨arg, rfl, fits arg (List.mem_singleton_self arg)⟩
  · rintro ⟨arg, rfl, fits⟩
    refine ⟨⟨arg, rfl⟩, fun arg' member => ?_⟩
    rw [List.mem_singleton.mp member]
    exact fits

theorem assigns_of_one (one : ∀ pattern ∈ patterns, pattern.cardinality = .one)
    {assigned : List (ArgMatcher × PositionalArg)} :
    Assigns ArgMatcher.Takes patterns args assigned ↔
      List.Forall₂ ArgMatcher.Fits patterns args ∧ assigned = patterns.zip args :=
  assigns_of_single fun pattern member _ => takes_iff_of_one (one pattern member)

theorem matchEach_returns (pattern : ArgMatcher) (args : List PositionalArg) :
    Returns Failure.IsCrash (matchEach pattern args) fun matched =>
      (∀ arg ∈ args, pattern.Fits arg) ∧ matched = args.map fun arg => matchedBy (pattern, arg) :=
  returns_mapM fun arg _ =>
    (validate_returns pattern.argType arg.value).bind_unit fun _ => returns_ok _

theorem getRangeChecked_returns {α : Type} (items : List α) (start stop : ℕ) :
    Returns Failure.IsCrash (getRangeChecked items start stop) fun range =>
      ∃ before after, items = before ++ (range ++ after) ∧ before.length = start ∧
        before.length + range.length = stop := by
  have cut (ordered : ¬start > stop) (inside : ¬stop > items.length) :
      Returns Failure.IsCrash (slice items start stop)
        (· = (items.drop start).take (stop - start)) := by
    rw [slice, if_pos ⟨not_lt.mp ordered, not_lt.mp inside⟩]
    exact returns_ok _
  refine (returns_guard (fun _ => returns_fail _) fun ordered =>
    returns_guard (fun _ => returns_fail _) fun inside => cut ordered inside).congr
      fun range => ?_
  constructor
  · rintro ⟨ordered, inside, rfl⟩
    refine ⟨items.take start, (items.drop start).drop (stop - start), ?_, ?_, ?_⟩
    · rw [List.take_append_drop, List.take_append_drop]
    · rw [List.length_take]
      omega
    · rw [List.length_take, List.length_take, List.length_drop]
      omega
  · rintro ⟨before, after, rfl, rfl, rfl⟩
    refine ⟨by omega, by simp, ?_⟩
    rw [List.drop_left, Nat.add_sub_cancel_left, List.take_left]

theorem foldlM_matchNext_returns (one : ∀ pattern ∈ patterns, pattern.cardinality = .one)
    (taken : List PositionalArg) (seen : List MatchedArg) (width : args.length = patterns.length) :
    Returns Failure.IsCrash
      (patterns.foldlM (matchNext (taken ++ args)) (taken.length, seen)) fun result =>
        List.Forall₂ ArgMatcher.Fits patterns args ∧
          result = (taken.length + args.length, seen ++ (patterns.zip args).map matchedBy) := by
  induction patterns generalizing taken args seen with
  | nil =>
      obtain rfl := List.length_eq_zero_iff.mp width
      refine (returns_ok _).congr fun result => ?_
      rw [List.zip_nil_left, List.map_nil, List.append_nil]
      exact (and_iff_right .nil).symm
  | cons pattern patterns ih =>
      obtain ⟨first, others⟩ := List.forall_mem_cons.mp one
      cases args with
      | nil => cases width
      | cons arg args =>
          have sliced : slice (taken ++ arg :: args) taken.length (taken.length + 1) =
              .ok [arg] := by
            rw [slice, if_pos (by simp), List.drop_left, Nat.add_sub_cancel_left]
            rfl
          have stepped : Returns Failure.IsCrash
              (matchNext (taken ++ arg :: args) (taken.length, seen) pattern) fun result =>
                pattern.Fits arg ∧
                  result = (taken.length + 1, seen ++ [matchedBy (pattern, arg)]) := by
            unfold matchNext
            rw [first]
            dsimp only [ArgMatcherCardinality.isExact]
            rw [sliced]
            refine Returns.congr ((matchEach_returns pattern [arg]).bind_value fun _ =>
              returns_ok (taken.length + 1, seen ++ [matchedBy (pattern, arg)])) fun result => ?_
            rw [List.forall_mem_singleton]
          have later := ih others (taken ++ [arg]) (seen ++ [matchedBy (pattern, arg)])
            (Nat.succ_inj.mp width)
          rw [List.append_assoc, List.singleton_append, List.length_append] at later
          rw [List.foldlM_cons]
          refine (stepped.bind_value fun _ => later).congr fun result => ?_
          rw [List.forall₂_cons, List.zip_cons_cons, List.map_cons, List.length_singleton,
            List.length_cons, List.append_assoc, List.singleton_append, Nat.add_assoc,
            Nat.add_comm 1, and_assoc]

/-- The patterns as the matcher parts them. -/
structure Partitioned (patterns : List ArgMatcher) (parts : PartitionedArgs) : Prop where
  whole : parts.prefixPatterns ++ (parts.varargPattern.toList ++ parts.suffixPatterns) = patterns
  numPrefixArgs : parts.numPrefixArgs = parts.prefixPatterns.length
  numSuffixArgs : parts.numSuffixArgs = parts.suffixPatterns.length
  frontOne : ∀ pattern ∈ parts.prefixPatterns, pattern.cardinality = .one
  backOne : ∀ pattern ∈ parts.suffixPatterns, pattern.cardinality = .one
  several : ∀ pattern, parts.varargPattern = some pattern → pattern.cardinality ≠ .one
  undivided : parts.varargPattern = none → parts.suffixPatterns = []

theorem cardinality_cases (cardinality : ArgMatcherCardinality) :
    (cardinality = .one ∧ cardinality.isExact = some 1) ∨
      (cardinality ≠ .one ∧ cardinality.isExact = none) := by
  cases cardinality with
  | one => exact .inl ⟨rfl, rfl⟩
  | atLeastOne | zeroOrMore => exact .inr ⟨nofun, rfl⟩

theorem forall_mem_concat {Holds : ArgMatcher → Prop} (all : ∀ pattern ∈ patterns, Holds pattern)
    (last : Holds pattern) : ∀ pattern' ∈ patterns ++ [pattern], Holds pattern' := by
  intro pattern' member
  rcases List.mem_append.mp member with old | new
  · exact all pattern' old
  · rw [List.mem_singleton.mp new]
    exact last

/-- A pattern for one operand goes to the prefix, or behind the pattern for several. -/
theorem Partitioned.push_one (partitioned : Partitioned patterns parts)
    (one : pattern.cardinality = .one) :
    ∃ next, partitionPattern program (parts.varargPattern.isNone, parts) pattern =
      .ok (next.varargPattern.isNone, next) ∧ Partitioned (patterns ++ [pattern]) next := by
  obtain ⟨numPrefix, numSuffix, front, back, vararg⟩ := parts
  obtain ⟨rfl, frontWidth, backWidth, frontOne, backOne, several, undivided⟩ := partitioned
  unfold partitionPattern
  rw [one]
  cases vararg with
  | none =>
      refine ⟨⟨numPrefix + 1, numSuffix, front ++ [pattern], back, none⟩, rfl, ?_, ?_, backWidth,
        forall_mem_concat frontOne one, backOne, several, undivided⟩
      · obtain rfl : back = [] := undivided rfl
        simp
      · rw [List.length_append]
        exact congrArg (· + 1) frontWidth
  | some vararg =>
      refine ⟨⟨numPrefix, numSuffix + 1, front, back ++ [pattern], some vararg⟩, rfl, ?_,
        frontWidth, ?_, frontOne, forall_mem_concat backOne one, several, nofun⟩
      · rw [List.append_assoc, List.append_assoc]
      · rw [List.length_append]
        exact congrArg (· + 1) backWidth

/-- The first pattern for several operands ends the prefix. -/
theorem Partitioned.push_several (partitioned : Partitioned patterns parts)
    (fixed : ∀ pattern ∈ patterns, pattern.cardinality = .one)
    (several : pattern.cardinality.isExact = none) :
    ∃ next, partitionPattern program (parts.varargPattern.isNone, parts) pattern =
      .ok (next.varargPattern.isNone, next) ∧ Partitioned (patterns ++ [pattern]) next := by
  obtain ⟨numPrefix, numSuffix, front, back, vararg⟩ := parts
  obtain ⟨rfl, frontWidth, backWidth, frontOne, backOne, several', undivided⟩ := partitioned
  unfold partitionPattern
  rw [several]
  cases vararg with
  | none =>
      obtain rfl : back = [] := undivided rfl
      refine ⟨⟨numPrefix, numSuffix, front, [], some pattern⟩, rfl, ?_, frontWidth, backWidth,
        frontOne, backOne, ?_, nofun⟩
      · simp
      · rintro _ ⟨⟩ one
        rw [one] at several
        cases several
  | some vararg =>
      have member : vararg ∈ front ++ (vararg :: back) :=
        List.mem_append_right front List.mem_cons_self
      exact absurd (fixed vararg member) (several' vararg rfl)

theorem exists_partitioned (program : Text) (single : AtMostOneVararg patterns) :
    ∃ parts, partitionArgs program patterns = .ok parts ∧ Partitioned patterns parts := by
  suffices folded : ∃ parts,
      patterns.foldlM (partitionPattern program) (true, ⟨0, 0, [], [], none⟩) =
        .ok (parts.varargPattern.isNone, parts) ∧ Partitioned patterns parts by
    obtain ⟨parts, folded, partitioned⟩ := folded
    refine ⟨parts, ?_, partitioned⟩
    rw [partitionArgs, folded]
    rfl
  induction patterns using List.reverseRecOn with
  | nil =>
      refine ⟨⟨0, 0, [], [], none⟩, rfl, rfl, rfl, rfl, ?_, ?_, nofun, fun _ => rfl⟩
      all_goals exact fun _ member => absurd member List.not_mem_nil
  | append_singleton patterns pattern ih =>
      rw [AtMostOneVararg, List.countP_append, List.countP_singleton] at single
      obtain ⟨parts, folded, partitioned⟩ := ih (by rw [AtMostOneVararg]; omega)
      have pushed : ∃ next, partitionPattern program (parts.varargPattern.isNone, parts) pattern =
          .ok (next.varargPattern.isNone, next) ∧ Partitioned (patterns ++ [pattern]) next := by
        rcases cardinality_cases pattern.cardinality with ⟨one, -⟩ | ⟨-, unbounded⟩
        · exact partitioned.push_one one
        · rw [unbounded, if_pos Option.isNone_none] at single
          have nothing :
              patterns.countP (fun pattern => pattern.cardinality.isExact.isNone) = 0 := by
            omega
          refine partitioned.push_several (fun other member => ?_) unbounded
          rcases cardinality_cases other.cardinality with ⟨one, -⟩ | ⟨-, unbounded'⟩
          · exact one
          · have bounded := List.countP_eq_zero.mp nothing other member
            exact absurd (congrArg Option.isNone unbounded') bounded
      obtain ⟨next, pushed, partitioned⟩ := pushed
      refine ⟨next, ?_, partitioned⟩
      rw [List.foldlM_append, folded]
      exact bind_eq_ok_iff.mpr ⟨_, rfl, bind_eq_ok_iff.mpr ⟨_, pushed, rfl⟩⟩

theorem matchVararg_returns (program : Text) (args : List PositionalArg) (start stop : ℕ)
    (matchedArgs : List MatchedArg) {vararg : Option ArgMatcher}
    (several : ∀ pattern, vararg = some pattern → pattern.cardinality ≠ .one) :
    Returns Failure.IsCrash (matchVararg program args start stop matchedArgs vararg) fun result =>
      match vararg with
      | none => result = matchedArgs
      | some pattern => ∃ before group after, args = before ++ (group ++ after) ∧
          before.length = start ∧ before.length + group.length = stop ∧ pattern.Takes group ∧
            result = matchedArgs ++ group.map fun arg => matchedBy (pattern, arg) := by
  cases vararg with
  | none => exact returns_ok _
  | some pattern =>
      have fill (group : List PositionalArg) :
          Returns Failure.IsCrash
            (matchEach pattern group >>= fun matched => .ok (matchedArgs ++ matched)) fun result =>
              (∀ arg ∈ group, pattern.Fits arg) ∧
                result = matchedArgs ++ group.map fun arg => matchedBy (pattern, arg) :=
        (matchEach_returns pattern group).bind_value fun _ => returns_ok _
      have filled (group : List PositionalArg) :
          Returns Failure.IsCrash
            (match pattern.cardinality with
            | .one => fail (.internalInvariantViolation
                "vararg pattern should not have cardinality of one".toList)
            | .atLeastOne =>
                if group = [] then fail (.varargMatcherDidNotMatchAnything program pattern)
                else matchEach pattern group >>= fun matched => .ok (matchedArgs ++ matched)
            | .zeroOrMore =>
                matchEach pattern group >>= fun matched => .ok (matchedArgs ++ matched))
            fun result => pattern.Takes group ∧
              result = matchedArgs ++ group.map fun arg => matchedBy (pattern, arg) := by
        unfold ArgMatcher.Takes
        cases kind : pattern.cardinality with
        | one => exact absurd kind (several pattern rfl)
        | atLeastOne =>
            refine (returns_guard (fun _ => returns_fail _) fun _ => fill group).congr
              fun result => ?_
            rw [ArgMatcherCardinality.Admits, Nat.one_le_iff_ne_zero, ne_eq,
              List.length_eq_zero_iff, and_assoc]
        | zeroOrMore =>
            refine (fill group).congr fun result => ?_
            rw [ArgMatcherCardinality.Admits, true_and]
      refine ((getRangeChecked_returns args start stop).bind fun group _ => filled group).congr
        fun result => ?_
      constructor
      · rintro ⟨group, ⟨before, after, whole, first, last⟩, takes, same⟩
        exact ⟨before, group, after, whole, first, last, takes, same⟩
      · rintro ⟨before, group, after, whole, first, last, takes, same⟩
        exact ⟨group, ⟨before, after, whole, first, last⟩, takes, same⟩

/-- The loop over the prefix or the suffix. -/
theorem matchFixed_returns (one : ∀ pattern ∈ patterns, pattern.cardinality = .one)
    (seen : List MatchedArg) (width : args.length = patterns.length) :
    Returns Failure.IsCrash (patterns.foldlM (matchNext args) (0, seen)) fun result =>
      List.Forall₂ ArgMatcher.Fits patterns args ∧
        result = (args.length, seen ++ (patterns.zip args).map matchedBy) := by
  simpa using foldlM_matchNext_returns one [] seen width

/-- The range behind the others, where the prefix does not reach into it. -/
theorem exists_range_iff {α : Type} {front rest back : List α} {count : ℕ}
    (apart : front.length + count ≤ (front ++ rest).length) :
    (∃ before after, front ++ rest = before ++ (back ++ after) ∧
        before.length = (front ++ rest).length - count ∧
          before.length + back.length = (front ++ rest).length) ↔
      ∃ group, rest = group ++ back ∧ back.length = count := by
  constructor
  · rintro ⟨before, after, whole, first, last⟩
    have lengths := congrArg List.length whole
    simp only [List.length_append] at lengths first last apart
    obtain rfl : after = [] := List.length_eq_zero_iff.mp (by omega)
    rw [List.append_nil] at whole
    rcases List.append_eq_append_iff.mp whole with ⟨group, rfl, rfl⟩ | ⟨extra, rfl, rfl⟩
    · exact ⟨group, rfl, by omega⟩
    · simp only [List.length_append] at lengths first last apart
      obtain rfl : extra = [] := List.length_eq_zero_iff.mp (by omega)
      rw [List.length_nil] at lengths last
      exact ⟨[], rfl, by rw [List.nil_append]; omega⟩
  · rintro ⟨group, rfl, rfl⟩
    refine ⟨front ++ group, [], ?_, ?_, ?_⟩
    · rw [List.append_nil, List.append_assoc]
    · rw [← List.append_assoc, @List.length_append _ (front ++ group), Nat.add_sub_cancel]
    · rw [← List.append_assoc, @List.length_append _ (front ++ group)]

theorem resolveBehindPrefix_returns (partitioned : Partitioned patterns parts)
    (front rest : List PositionalArg) {seen : List MatchedArg}
    (width : seen.length = front.length) :
    Returns Failure.IsCrash
      (resolveBehindPrefix program (front ++ rest) patterns parts front.length seen) fun result =>
        ∃ group back between, rest = group ++ back ∧
          Assigns ArgMatcher.Takes parts.varargPattern.toList group between ∧
            List.Forall₂ ArgMatcher.Fits parts.suffixPatterns back ∧
              result = seen ++ between.map matchedBy ++
                (parts.suffixPatterns.zip back).map matchedBy := by
  have suffixWidth := partitioned.numSuffixArgs
  refine (returns_guard (fun _ => returns_fail _) fun enough =>
    returns_guard (fun _ => returns_fail _) fun apart =>
      (matchVararg_returns program _ _ _ seen partitioned.several).bind fun matched _ =>
        (getRangeChecked_returns (front ++ rest) _ _).bind fun back range =>
          (matchFixed_returns partitioned.backOne matched ?_).bind_value fun _ =>
            returns_guard (fun _ => (getRangeChecked_returns _ _ _).bind_false fun _ _ =>
              returns_fail _) fun _ => returns_ok _).congr fun result => ?_
  · obtain ⟨before, after, -, first, last⟩ := range
    omega
  · obtain ⟨numPrefix, numSuffix, prefixed, suffixed, vararg⟩ := parts
    have undivided := partitioned.undivided
    dsimp only at suffixWidth undivided ⊢
    constructor
    · rintro ⟨enough, apart, matched, middle, back, range, all, complete, rfl⟩
      obtain ⟨group, rfl, backWidth⟩ := (exists_range_iff (by omega)).mp range
      cases vararg with
      | none =>
          subst middle
          obtain rfl := undivided rfl
          cases all
          simp only [List.zip_nil_left, List.map_nil, List.append_nil, List.length_append]
            at complete
          obtain rfl : group = [] := List.length_eq_zero_iff.mp (by omega)
          refine ⟨[], [], [], rfl, assigns_nil.mpr ⟨rfl, rfl⟩, .nil, ?_⟩
          rw [List.map_nil, List.append_nil]
      | some pattern =>
          obtain ⟨before, taken, after, whole, first, last, takes, rfl⟩ := middle
          obtain ⟨rfl, rest⟩ := List.append_inj whole first.symm
          rw [List.length_append, List.length_append] at last
          obtain ⟨rfl, -⟩ := List.append_inj rest (by omega)
          refine ⟨group, back, group.map (pattern, ·), rfl, assigns_singleton.mpr ⟨takes, rfl⟩,
            all, ?_⟩
          rw [List.map_map]
          rfl
    · rintro ⟨group, back, between, rfl, assigns, all, rfl⟩
      have backWidth := all.length_eq
      have whole : (front ++ (group ++ back)).length =
          front.length + (group.length + back.length) := by
        rw [List.length_append, List.length_append]
      refine ⟨by omega, by omega, seen ++ between.map matchedBy, ?_, back,
        (exists_range_iff (by omega)).mpr ⟨group, rfl, by omega⟩, all, ?_, rfl⟩
      · cases vararg with
        | none =>
            obtain ⟨-, rfl⟩ := assigns_nil.mp assigns
            exact List.append_nil seen
        | some pattern =>
            obtain ⟨takes, rfl⟩ := assigns_singleton.mp assigns
            refine ⟨front, group, back, rfl, rfl, by omega, takes, ?_⟩
            rw [List.map_map]
            rfl
      · have groupWidth := congrArg List.length assigns.map_snd
        rw [List.length_map] at groupWidth
        simp only [List.length_append, List.length_map, List.length_zip]
        omega

/-- The operands of the patterns are those of the prefix, of the pattern for several, and of the
suffix. -/
theorem Partitioned.assigns_iff (partitioned : Partitioned patterns parts)
    {assigned : List (ArgMatcher × PositionalArg)} :
    Assigns ArgMatcher.Takes patterns args assigned ↔ ∃ front group back between,
      args = front ++ (group ++ back) ∧
        List.Forall₂ ArgMatcher.Fits parts.prefixPatterns front ∧
          Assigns ArgMatcher.Takes parts.varargPattern.toList group between ∧
            List.Forall₂ ArgMatcher.Fits parts.suffixPatterns back ∧
              assigned = parts.prefixPatterns.zip front ++
                (between ++ parts.suffixPatterns.zip back) := by
  rw [← partitioned.whole, assigns_append]
  constructor
  · rintro ⟨front, rest, first, later, fore, aft, rfl, rfl⟩
    obtain ⟨group, back, between, last, middle, behind, rfl, rfl⟩ := assigns_append.mp aft
    obtain ⟨frontFits, rfl⟩ := (assigns_of_one partitioned.frontOne).mp fore
    obtain ⟨backFits, rfl⟩ := (assigns_of_one partitioned.backOne).mp behind
    exact ⟨front, group, back, between, rfl, frontFits, middle, backFits, rfl⟩
  · rintro ⟨front, group, back, between, rfl, frontFits, middle, backFits, rfl⟩
    have fore := (assigns_of_one partitioned.frontOne).mpr ⟨frontFits, rfl⟩
    have behind := (assigns_of_one partitioned.backOne).mpr ⟨backFits, rfl⟩
    exact ⟨front, group ++ back, _, _, fore,
      assigns_append.mpr ⟨group, back, between, _, middle, behind, rfl, rfl⟩, rfl, rfl⟩

/-- The operands are matched exactly when they can be assigned to the patterns. -/
theorem resolve_returns (program : Text) (args : List PositionalArg)
    (single : AtMostOneVararg patterns) :
    Returns Failure.IsCrash (resolveObservedArgsWithPatterns program args patterns) fun matched =>
      ∃ assigned, Assigns ArgMatcher.Takes patterns args assigned ∧
        matched = assigned.map matchedBy := by
  obtain ⟨parts, partition, partitioned⟩ := exists_partitioned program single
  have behind (front : List PositionalArg)
      (range : ∃ before after, args = before ++ (front ++ after) ∧ before.length = 0 ∧
        before.length + front.length = parts.numPrefixArgs) :
      Returns Failure.IsCrash
        (parts.prefixPatterns.foldlM (matchNext front) (0, []) >>= fun state =>
          resolveBehindPrefix program args patterns parts state.1 state.2) fun matched =>
        List.Forall₂ ArgMatcher.Fits parts.prefixPatterns front ∧ ∃ group back between,
          args = front ++ (group ++ back) ∧
            Assigns ArgMatcher.Takes parts.varargPattern.toList group between ∧
              List.Forall₂ ArgMatcher.Fits parts.suffixPatterns back ∧
                matched = (parts.prefixPatterns.zip front).map matchedBy ++
                  between.map matchedBy ++ (parts.suffixPatterns.zip back).map matchedBy := by
    obtain ⟨before, rest, rfl, nothing, width⟩ := range
    obtain rfl := List.length_eq_zero_iff.mp nothing
    rw [List.length_nil, Nat.zero_add, partitioned.numPrefixArgs] at width
    refine ((matchFixed_returns partitioned.frontOne [] width).bind_value fun all =>
      resolveBehindPrefix_returns partitioned front rest ?_).congr fun matched => ?_
    · rw [List.nil_append, List.length_map, List.length_zip, all.length_eq, min_self]
    · simp only [List.nil_append, List.append_cancel_left_eq]
  have frontWidth {front : List PositionalArg}
      (all : List.Forall₂ ArgMatcher.Fits parts.prefixPatterns front) :
      front.length = parts.numPrefixArgs := by
    rw [partitioned.numPrefixArgs, all.length_eq]
  unfold resolveObservedArgsWithPatterns
  rw [partition]
  refine Returns.congr ((getRangeChecked_returns args 0 parts.numPrefixArgs).bind behind)
    fun matched => ?_
  constructor
  · rintro ⟨front, -, frontFits, group, back, between, rfl, middle, backFits, rfl⟩
    refine ⟨_, partitioned.assigns_iff.mpr
      ⟨front, group, back, between, rfl, frontFits, middle, backFits, rfl⟩, ?_⟩
    rw [List.map_append, List.map_append, List.append_assoc]
  · rintro ⟨assigned, assigns, rfl⟩
    obtain ⟨front, group, back, between, rfl, frontFits, middle, backFits, rfl⟩ :=
      partitioned.assigns_iff.mp assigns
    refine ⟨front, ⟨[], group ++ back, rfl, rfl, ?_⟩, frontFits, group, back, between, rfl,
      middle, backFits, ?_⟩
    · rw [List.length_nil, Nat.zero_add, frontWidth frontFits]
    · rw [List.map_append, List.map_append, List.append_assoc]

end CodexPilot.ExecPolicyLegacy
