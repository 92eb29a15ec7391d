import CodexPilot.Library.Streams
import CodexPilot.RustStd.Text

/-!
# Blocks between lines that are tags

The parser reads text character by character and keeps a line back as long as it may be a tag.  What
it returns for two chunks in turn is what it returns for both of them at once, up to the places at
which the text of a segment is cut.
-/

namespace CodexPilot.StreamParser

open RustStd Text Streams

/-- `TagSpec`. -/
structure TagSpec (τ : Type*) where
  openTag : Text
  closeTag : Text
  tag : τ

/-- `TaggedLineSegment`. -/
inductive TaggedLineSegment (τ : Type*) where
  | Normal (text : Text)
  | TagStart (tag : τ)
  | TagDelta (tag : τ) (text : Text)
  | TagEnd (tag : τ)
deriving DecidableEq

/-- `TaggedLineParser`. -/
structure TaggedLineParser (τ : Type*) where
  specs : List (TagSpec τ)
  activeTag : Option τ
  detectTag : Bool
  lineBuffer : Text

/-- `push_segment`. -/
def pushSegment {τ : Type*} [DecidableEq τ] (segments : List (TaggedLineSegment τ)) :
    TaggedLineSegment τ → List (TaggedLineSegment τ)
  | .Normal delta =>
      if delta = [] then segments
      else
        match segments.getLast? with
        | some (.Normal existing) => segments.dropLast ++ [.Normal (existing ++ delta)]
        | _ => segments ++ [.Normal delta]
  | .TagDelta tag delta =>
      if delta = [] then segments
      else
        match segments.getLast? with
        | some (.TagDelta existingTag existing) =>
            if existingTag = tag then segments.dropLast ++ [.TagDelta tag (existing ++ delta)]
            else segments ++ [.TagDelta tag delta]
        | _ => segments ++ [.TagDelta tag delta]
  | segment => segments ++ [segment]

namespace TaggedLineParser

variable {τ : Type*}

/-- `TaggedLineParser::new`. -/
def new (specs : List (TagSpec τ)) : TaggedLineParser τ where
  specs := specs
  activeTag := none
  detectTag := true
  lineBuffer := []

/-- `match_open`. -/
def matchOpen (parser : TaggedLineParser τ) (slug : Text) : Option τ :=
  (parser.specs.find? fun spec => spec.openTag = slug).map TagSpec.tag

/-- `match_close`. -/
def matchClose (parser : TaggedLineParser τ) (slug : Text) : Option τ :=
  (parser.specs.find? fun spec => spec.closeTag = slug).map TagSpec.tag

/-- `is_tag_prefix`. -/
def isTagPrefix (parser : TaggedLineParser τ) (slug : Text) : Bool :=
  parser.specs.any fun spec =>
    startsWith spec.openTag (trimEnd slug) || startsWith spec.closeTag (trimEnd slug)

/-- The segment of `push_text`. -/
def textSegment (parser : TaggedLineParser τ) (text : Text) : TaggedLineSegment τ :=
  match parser.activeTag with
  | some tag => .TagDelta tag text
  | none => .Normal text

/-- A line without the line feed behind it. -/
def withoutNewline (line : Text) : Text :=
  if line.getLast? = some '\n' then line.dropLast else line

variable [DecidableEq τ]

/-- `push_text`. -/
def pushText (parser : TaggedLineParser τ) (text : Text) (segments : List (TaggedLineSegment τ)) :
    List (TaggedLineSegment τ) :=
  pushSegment segments (parser.textSegment text)

/-- The segment that a whole line is, and the tag that is active behind it. -/
def lineSegment (parser : TaggedLineParser τ) (line : Text) : TaggedLineSegment τ × Option τ :=
  let slug := trimEnd (trimStart (withoutNewline line))
  match parser.matchOpen slug, parser.matchClose slug, parser.activeTag with
  | some tag, _, none => (.TagStart tag, some tag)
  | _, some tag, some active =>
      if active = tag then (.TagEnd tag, none) else (parser.textSegment line, some active)
  | _, _, active => (parser.textSegment line, active)

/-- `finish_line`. -/
def finishLine (parser : TaggedLineParser τ) (segments : List (TaggedLineSegment τ)) :
    TaggedLineParser τ × List (TaggedLineSegment τ) :=
  let (segment, active) := parser.lineSegment parser.lineBuffer
  ({ parser with
      activeTag := active
      detectTag := true
      lineBuffer := [] }, pushSegment segments segment)

/-- A character of a line that may be a tag. -/
def detect (parser : TaggedLineParser τ) (segments : List (TaggedLineSegment τ)) (ch : Char) :
    TaggedLineParser τ × List (TaggedLineSegment τ) :=
  let parser : TaggedLineParser τ := { parser with lineBuffer := parser.lineBuffer ++ [ch] }
  if ch = '\n' then parser.finishLine segments
  else
    let slug := trimStart parser.lineBuffer
    if slug = [] ∨ parser.isTagPrefix slug then (parser, segments)
    else
      let cleared : TaggedLineParser τ := { parser with lineBuffer := [], detectTag := false }
      (cleared, cleared.pushText parser.lineBuffer segments)

/-- The variables of `parse`. -/
structure Parsing (τ : Type*) where
  parser : TaggedLineParser τ
  run : Text
  segments : List (TaggedLineSegment τ)

/-- Text that has been collected becomes a segment. -/
def Parsing.flush (state : Parsing τ) : Parsing τ :=
  if state.run = [] then state
  else
    { state with run := [], segments := state.parser.pushText state.run state.segments }

/-- A round of the loop of `parse`. -/
def Parsing.round (state : Parsing τ) (ch : Char) : Parsing τ :=
  if state.parser.detectTag then
    let state := state.flush
    let (parser, segments) := state.parser.detect state.segments ch
    { state with parser := parser, segments := segments }
  else
    let run := state.run ++ [ch]
    if ch = '\n' then
      { parser := { state.parser with detectTag := true }
        run := []
        segments := state.parser.pushText run state.segments }
    else { state with run := run }

/-- `parse`. -/
def parse (parser : TaggedLineParser τ) (delta : Text) :
    TaggedLineParser τ × List (TaggedLineSegment τ) :=
  let state : Parsing τ := (delta.foldl Parsing.round ⟨parser, [], []⟩).flush
  (state.parser, state.segments)

/-- `TaggedLineParser::finish`. -/
def finish (parser : TaggedLineParser τ) : TaggedLineParser τ × List (TaggedLineSegment τ) :=
  let (parser, segments) := if parser.lineBuffer = [] then (parser, []) else parser.finishLine []
  let segments :=
    match parser.activeTag with
    | some tag => pushSegment segments (.TagEnd tag)
    | none => segments
  ({ parser with activeTag := none, detectTag := true }, segments)

/-! ### Segments character by character -/

section Expansion

omit [DecidableEq τ]

/-- The segment with a segment of its own for each character. -/
def expandSegment : TaggedLineSegment τ → List (TaggedLineSegment τ)
  | .Normal text => text.map fun c => .Normal [c]
  | .TagDelta tag text => text.map fun c => .TagDelta tag [c]
  | segment => [segment]

/-- The segments, without the places at which text is cut. -/
def expand (segments : List (TaggedLineSegment τ)) : List (TaggedLineSegment τ) :=
  segments.flatMap expandSegment

theorem expand_append (first second : List (TaggedLineSegment τ)) :
    expand (first ++ second) = expand first ++ expand second :=
  List.flatMap_append

theorem expand_singleton (segment : TaggedLineSegment τ) :
    expand [segment] = expandSegment segment :=
  List.flatMap_singleton _ _

/-- The segment is not one of no text. -/
def Filled (segment : TaggedLineSegment τ) : Prop :=
  segment ≠ .Normal [] ∧ ∀ tag, segment ≠ .TagDelta tag []

variable {segments : List (TaggedLineSegment τ)} {segment : TaggedLineSegment τ}

theorem filled_concat (filled : ∀ other ∈ segments, Filled other) (isFilled : Filled segment) :
    ∀ other ∈ segments ++ [segment], Filled other := by
  intro other member
  obtain before | isLast := List.mem_append.mp member
  · exact filled other before
  · exact List.mem_singleton.mp isLast ▸ isFilled

theorem filled_dropLast (filled : ∀ other ∈ segments, Filled other) :
    ∀ other ∈ segments.dropLast, Filled other :=
  fun other member => filled other (List.mem_of_mem_dropLast member)

theorem expandSegment_textSegment_nil (parser : TaggedLineParser τ) :
    expandSegment (parser.textSegment []) = [] := by
  rw [textSegment]
  split <;> rfl

theorem expandSegment_textSegment_append (parser : TaggedLineParser τ) (first second : Text) :
    expandSegment (parser.textSegment (first ++ second)) =
      expandSegment (parser.textSegment first) ++ expandSegment (parser.textSegment second) := by
  simp only [textSegment]
  split <;> exact List.map_append

end Expansion

variable {segments : List (TaggedLineSegment τ)} {segment : TaggedLineSegment τ}

theorem expand_pushSegment (segments : List (TaggedLineSegment τ)) (segment : TaggedLineSegment τ) :
    expand (pushSegment segments segment) = expand segments ++ expandSegment segment := by
  have pushed (segment : TaggedLineSegment τ) :
      expand (segments ++ [segment]) = expand segments ++ expandSegment segment := by
    rw [expand_append, expand_singleton]
  cases segment with
  | TagStart tag | TagEnd tag => exact pushed _
  | Normal delta =>
      rw [pushSegment]
      split
      case isTrue empty => simp [empty, expandSegment]
      case isFalse =>
        split
        case h_1 existing last =>
          obtain ⟨front, rfl⟩ := List.getLast?_eq_some_iff.mp last
          simp [expand_append, expand_singleton, expandSegment]
        case h_2 => exact pushed _
  | TagDelta tag delta =>
      rw [pushSegment]
      split
      case isTrue empty => simp [empty, expandSegment]
      case isFalse =>
        split
        case h_1 existingTag existing last =>
          split
          case isTrue same =>
            obtain ⟨front, rfl⟩ := List.getLast?_eq_some_iff.mp last
            simp [expand_append, expand_singleton, expandSegment, same]
          case isFalse => exact pushed _
        case h_2 => exact pushed _

theorem filled_pushSegment (filled : ∀ other ∈ segments, Filled other) :
    ∀ other ∈ pushSegment segments segment, Filled other := by
  cases segment with
  | TagStart tag | TagEnd tag => exact filled_concat filled (by simp [Filled])
  | Normal delta =>
      rw [pushSegment]
      split
      case isTrue => exact filled
      case isFalse nonempty =>
        split
        case h_1 => exact filled_concat (filled_dropLast filled) (by simp [Filled, nonempty])
        case h_2 => exact filled_concat filled (by simp [Filled, nonempty])
  | TagDelta tag delta =>
      rw [pushSegment]
      split
      case isTrue => exact filled
      case isFalse nonempty =>
        have isFilled : Filled (.TagDelta tag delta) := by simp [Filled, nonempty]
        split
        case h_1 =>
          split
          case isTrue => exact filled_concat (filled_dropLast filled) (by simp [Filled, nonempty])
          case isFalse => exact filled_concat filled isFilled
        case h_2 => exact filled_concat filled isFilled

/-! ### Rounds of the loop -/

theorem finishLine_spec (parser : TaggedLineParser τ) (segments : List (TaggedLineSegment τ)) :
    (parser.finishLine segments).1 = (parser.finishLine []).1 ∧
      expand (parser.finishLine segments).2 =
        expand segments ++ expand (parser.finishLine []).2 := by
  refine ⟨rfl, ?_⟩
  simp only [finishLine, expand_pushSegment]
  rfl

theorem detect_spec (parser : TaggedLineParser τ) (segments : List (TaggedLineSegment τ))
    (ch : Char) :
    (parser.detect segments ch).1 = (parser.detect [] ch).1 ∧
      expand (parser.detect segments ch).2 =
        expand segments ++ expand (parser.detect [] ch).2 := by
  simp only [detect]
  split
  case isTrue => exact finishLine_spec _ segments
  case isFalse =>
    split
    case isTrue => exact ⟨rfl, (List.append_nil _).symm⟩
    case isFalse =>
      refine ⟨rfl, ?_⟩
      simp only [pushText, expand_pushSegment]
      rfl

namespace Parsing

/-- What has been returned and collected, character by character. -/
def shown (state : Parsing τ) : List (TaggedLineSegment τ) :=
  expand state.segments ++ expandSegment (state.parser.textSegment state.run)

/-- Nothing has been returned or collected. -/
def fresh (parser : TaggedLineParser τ) : Parsing τ where
  parser := parser
  run := []
  segments := []

theorem exists_flush (parser : TaggedLineParser τ) (run : Text)
    (segments : List (TaggedLineSegment τ)) :
    ∃ flushed, flush ⟨parser, run, segments⟩ = ⟨parser, [], flushed⟩ ∧
      expand flushed = shown ⟨parser, run, segments⟩ := by
  rw [flush]
  split
  case isTrue empty =>
    cases empty
    exact ⟨segments, rfl, by simp [shown, expandSegment_textSegment_nil]⟩
  case isFalse => exact ⟨_, rfl, expand_pushSegment _ _⟩

/-- What a round does depends on the parser; what it shows is added to what has been shown. -/
theorem round_spec (state : Parsing τ) (ch : Char) :
    (state.round ch).parser = ((fresh state.parser).round ch).parser ∧
      (state.round ch).shown = state.shown ++ ((fresh state.parser).round ch).shown := by
  obtain ⟨parser, run, segments⟩ := state
  have noRun (parser : TaggedLineParser τ) (segments : List (TaggedLineSegment τ)) :
      shown ⟨parser, [], segments⟩ = expand segments := by
    rw [shown, expandSegment_textSegment_nil, List.append_nil]
  cases detects : parser.detectTag with
  | true =>
      obtain ⟨flushed, same, shows⟩ := exists_flush parser run segments
      have here : round ⟨parser, run, segments⟩ ch =
          ⟨(parser.detect flushed ch).1, [], (parser.detect flushed ch).2⟩ := by
        simp only [round, detects, same, if_true]
      have start : round (fresh parser) ch =
          ⟨(parser.detect [] ch).1, [], (parser.detect [] ch).2⟩ := by
        simp only [round, fresh, detects, if_true]
        rfl
      obtain ⟨sameParser, adds⟩ := parser.detect_spec flushed ch
      rw [here, start, noRun, noRun, ← shows]
      exact ⟨sameParser, adds⟩
  | false =>
      by_cases newline : ch = '\n'
      · have here (run : Text) (segments : List (TaggedLineSegment τ)) :
            round ⟨parser, run, segments⟩ ch = ⟨{ parser with detectTag := true }, [],
              parser.pushText (run ++ [ch]) segments⟩ := by
          simp only [round, detects, newline, if_true, Bool.false_eq_true, if_false]
        rw [here, fresh, here, noRun, noRun]
        refine ⟨rfl, ?_⟩
        simp only [pushText, expand_pushSegment, expandSegment_textSegment_append, shown,
          List.nil_append, List.append_assoc]
        rfl
      · have here (run : Text) (segments : List (TaggedLineSegment τ)) :
            round ⟨parser, run, segments⟩ ch = ⟨parser, run ++ [ch], segments⟩ := by
          simp only [round, detects, newline, if_false, Bool.false_eq_true]
        rw [here, fresh, here]
        refine ⟨rfl, ?_⟩
        simp only [shown, expandSegment_textSegment_append, List.nil_append, List.append_assoc]
        rfl

/-- The same for all rounds of a chunk. -/
theorem rounds_spec (delta : Text) (state : Parsing τ) :
    (delta.foldl round state).parser = (delta.foldl round (fresh state.parser)).parser ∧
      (delta.foldl round state).shown =
        state.shown ++ (delta.foldl round (fresh state.parser)).shown := by
  induction delta generalizing state with
  | nil =>
      refine ⟨rfl, ?_⟩
      simp [shown, fresh, expand, expandSegment_textSegment_nil]
  | cons ch delta ih =>
      obtain ⟨sameParser, adds⟩ := round_spec state ch
      obtain ⟨there, addsThere⟩ := ih (state.round ch)
      obtain ⟨here, addsHere⟩ := ih ((fresh state.parser).round ch)
      rw [List.foldl_cons, List.foldl_cons, there, here, addsThere, addsHere, sameParser, adds,
        List.append_assoc]
      exact ⟨rfl, rfl⟩

end Parsing

theorem parse_eq (parser : TaggedLineParser τ) (delta : Text) :
    (parser.parse delta).1 = (delta.foldl Parsing.round (Parsing.fresh parser)).parser ∧
      expand (parser.parse delta).2 = (delta.foldl Parsing.round (Parsing.fresh parser)).shown := by
  have start : (⟨parser, [], []⟩ : Parsing τ) = Parsing.fresh parser := rfl
  rw [parse, start]
  obtain ⟨parser', run, segments⟩ := delta.foldl Parsing.round (Parsing.fresh parser)
  obtain ⟨flushed, same, shows⟩ := Parsing.exists_flush parser' run segments
  rw [same]
  exact ⟨rfl, shows⟩

/-- The parser does not tell two chunks in turn from both of them at once. -/
theorem additive_parse : Additive (parse : TaggedLineParser τ → Text → _) expand where
  state parser first second := by
    rw [(parse_eq _ _).1, (parse_eq _ _).1, (parse_eq _ _).1, List.foldl_append]
    exact (Parsing.rounds_spec second _).1
  out parser first second := by
    rw [(parse_eq _ _).2, (parse_eq _ _).2, (parse_eq _ _).2, (parse_eq _ _).1, List.foldl_append]
    exact (Parsing.rounds_spec second _).2

/-! ### Segments hold text -/

theorem filled_finishLine (parser : TaggedLineParser τ)
    (filled : ∀ segment ∈ segments, Filled segment) :
    ∀ segment ∈ (parser.finishLine segments).2, Filled segment :=
  filled_pushSegment filled

theorem Parsing.filled_flush {state : Parsing τ}
    (filled : ∀ segment ∈ state.segments, Filled segment) :
    ∀ segment ∈ state.flush.segments, Filled segment := by
  rw [flush]
  split
  case isTrue => exact filled
  case isFalse => exact filled_pushSegment filled

theorem Parsing.filled_round {state : Parsing τ} (ch : Char)
    (filled : ∀ segment ∈ state.segments, Filled segment) :
    ∀ segment ∈ (state.round ch).segments, Filled segment := by
  rw [round]
  split
  case isTrue =>
    simp only [detect]
    split
    case isTrue => exact filled_finishLine _ (filled_flush filled)
    case isFalse =>
      split
      case isTrue => exact filled_flush filled
      case isFalse => exact filled_pushSegment (filled_flush filled)
  case isFalse =>
    simp only
    split
    case isTrue => exact filled_pushSegment filled
    case isFalse => exact filled

theorem filled_parse (parser : TaggedLineParser τ) (delta : Text) :
    ∀ segment ∈ (parser.parse delta).2, Filled segment := by
  have rounds (state : Parsing τ) (filled : ∀ segment ∈ state.segments, Filled segment) :
      ∀ segment ∈ (delta.foldl Parsing.round state).segments, Filled segment := by
    induction delta generalizing state with
    | nil => exact filled
    | cons ch delta ih => exact ih _ (Parsing.filled_round ch filled)
  exact Parsing.filled_flush (rounds _ (List.forall_mem_nil _))

theorem filled_finish (parser : TaggedLineParser τ) :
    ∀ segment ∈ parser.finish.2, Filled segment := by
  have line : ∀ segment ∈ (if parser.lineBuffer = [] then (parser, [])
      else parser.finishLine []).2, Filled segment := by
    split
    case isTrue => exact List.forall_mem_nil _
    case isFalse => exact filled_finishLine parser (List.forall_mem_nil _)
  simp only [finish]
  split
  case h_1 => exact filled_pushSegment line
  case h_2 => exact line

end TaggedLineParser

end CodexPilot.StreamParser
