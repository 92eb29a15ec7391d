import CodexPilot.Library.Terminated
import CodexPilot.StreamParser.TaggedLines

/-!
# The rule for lines that are tags

The parser decides about a line as early as it can.  What it returns altogether is what a rule for
whole lines says: a line that is a tag, up to white space around it, is dropped, and every other
line stays as it is.
-/

namespace CodexPilot.StreamParser

open RustStd Text Streams

variable {τ : Type*} [DecidableEq τ]

/-- The segments, with adjacent ones merged that are text of one kind. -/
def merged (segments : List (TaggedLineSegment τ)) : List (TaggedLineSegment τ) :=
  segments.foldl pushSegment []

/-- What a whole line is, and the tag that is active behind it. -/
def lineRule (specs : List (TagSpec τ)) (active : Option τ) (line : Text) :
    TaggedLineSegment τ × Option τ :=
  match active with
  | none =>
      match specs.find? fun spec => spec.openTag = trim line with
      | some spec => (.TagStart spec.tag, some spec.tag)
      | none => (.Normal line, none)
  | some tag =>
      if specs.any fun spec => spec.tag = tag ∧ spec.closeTag = trim line then (.TagEnd tag, none)
      else (.TagDelta tag line, some tag)

/-- The segments of a list of lines. -/
def byLines (specs : List (TagSpec τ)) : Option τ → List Text → List (TaggedLineSegment τ)
  | none, [] => []
  | some tag, [] => [.TagEnd tag]
  | active, line :: lines =>
      let (segment, active) := lineRule specs active line
      segment :: byLines specs active lines

/-- No two tags are closed by one text. -/
def ClosedApart (specs : List (TagSpec τ)) : Prop :=
  ∀ first ∈ specs, ∀ second ∈ specs, first.closeTag = second.closeTag → first.tag = second.tag

namespace TaggedLineParser

/-- What the parser returns altogether, for the chunks and in the end. -/
def collect (parser : TaggedLineParser τ) (chunks : List Text) : List (TaggedLineSegment τ) :=
  let run := feed parse parser chunks
  run.2.flatten ++ run.1.finish.2

end TaggedLineParser

/-! ## Merging -/

section Merging

variable {segments left right : List (TaggedLineSegment τ)}

theorem pushSegment_normal_cons (c : Char) (text : Text) :
    pushSegment (pushSegment segments (.Normal [c])) (.Normal text) =
      pushSegment segments (.Normal (c :: text)) := by
  cases text with
  | nil => rfl
  | cons d text =>
      obtain rfl | ⟨front, last, rfl⟩ := List.eq_nil_or_concat' segments
      · simp [pushSegment]
      · cases last <;> simp [pushSegment]

theorem pushSegment_delta_cons (tag : τ) (c : Char) (text : Text) :
    pushSegment (pushSegment segments (.TagDelta tag [c])) (.TagDelta tag text) =
      pushSegment segments (.TagDelta tag (c :: text)) := by
  cases text with
  | nil => rfl
  | cons d text =>
      obtain rfl | ⟨front, last, rfl⟩ := List.eq_nil_or_concat' segments
      · simp [pushSegment]
      · cases last with
        | TagDelta active existing =>
            by_cases same : active = tag
            all_goals simp [pushSegment, same]
        | Normal | TagStart | TagEnd => simp [pushSegment]

/-- Text is pushed character by character or at once. -/
theorem foldl_expandSegment (segments : List (TaggedLineSegment τ))
    (segment : TaggedLineSegment τ) :
    (TaggedLineParser.expandSegment segment).foldl pushSegment segments =
      pushSegment segments segment := by
  cases segment with
  | TagStart | TagEnd => rfl
  | Normal text =>
      induction text generalizing segments with
      | nil => rfl
      | cons c text ih =>
          rw [← pushSegment_normal_cons]
          exact ih _
  | TagDelta tag text =>
      induction text generalizing segments with
      | nil => rfl
      | cons c text ih =>
          rw [← pushSegment_delta_cons]
          exact ih _

theorem merged_expand (segments : List (TaggedLineSegment τ)) :
    merged (TaggedLineParser.expand segments) = merged segments := by
  have pushed (front : List (TaggedLineSegment τ)) :
      (TaggedLineParser.expand segments).foldl pushSegment front =
        segments.foldl pushSegment front := by
    induction segments generalizing front with
    | nil => rfl
    | cons segment segments ih =>
        have parts : TaggedLineParser.expand (segment :: segments) =
            TaggedLineParser.expandSegment segment ++ TaggedLineParser.expand segments := rfl
        rw [parts, List.foldl_append, foldl_expandSegment, ih, List.foldl_cons]
  exact pushed []

/-- Merging undoes all cuts of text. -/
theorem merged_congr (same : TaggedLineParser.expand left = TaggedLineParser.expand right) :
    merged left = merged right := by
  rw [← merged_expand, same, merged_expand]

end Merging

/-! ## The rule for a line -/

section Rule

variable {specs : List (TagSpec τ)} {active : Option τ} {line : Text}

theorem trim_withoutNewline (line : Text) :
    trimEnd (trimStart (TaggedLineParser.withoutNewline line)) = trim line := by
  rw [TaggedLineParser.withoutNewline]
  split
  case isTrue ends =>
    obtain ⟨front, rfl⟩ := List.getLast?_eq_some_iff.mp ends
    rw [List.dropLast_concat]
    exact (trim_concat_white front (by decide)).symm
  case isFalse => rfl

/-- The parser treats a line that it has kept back by the rule. -/
theorem lineSegment_eq (apart : ClosedApart specs) (detects : Bool) (buffer line : Text) :
    TaggedLineParser.lineSegment ⟨specs, active, detects, buffer⟩ line =
      lineRule specs active line := by
  simp only [TaggedLineParser.lineSegment, TaggedLineParser.matchOpen, TaggedLineParser.matchClose,
    trim_withoutNewline, lineRule]
  cases active with
  | none =>
      cases specs.find? fun spec => spec.openTag = trim line with
      | some spec => rfl
      | none => cases specs.find? fun spec => spec.closeTag = trim line <;> rfl
  | some tag =>
      cases closes : specs.find? fun spec => spec.closeTag = trim line with
      | none =>
          have none : (specs.any fun spec => spec.tag = tag ∧ spec.closeTag = trim line) =
              false := by
            simp only [List.find?_eq_none, decide_eq_true_eq] at closes
            simpa using fun spec member _ => closes spec member
          dsimp only
          rw [none]
          cases specs.find? fun spec => spec.openTag = trim line <;> rfl
      | some spec =>
          have found := List.find?_some closes
          rw [decide_eq_true_eq] at found
          have member := List.mem_of_find?_eq_some closes
          -- The first tag closed by this text is the only one.
          have any : (specs.any fun spec => spec.tag = tag ∧ spec.closeTag = trim line) =
              decide (tag = spec.tag) := by
            rw [Bool.eq_iff_iff, List.any_eq_true, decide_eq_true_eq]
            constructor
            · rintro ⟨other, among, same⟩
              obtain ⟨rfl, text⟩ := of_decide_eq_true same
              exact apart other among spec member (text.trans found.symm)
            · rintro rfl
              exact ⟨spec, member, decide_eq_true ⟨rfl, found⟩⟩
          dsimp only
          rw [any]
          cases specs.find? fun spec => spec.openTag = trim line <;>
            by_cases same : tag = spec.tag <;> simp [same, TaggedLineParser.textSegment]

/-- A line that is no tag is text. -/
theorem lineRule_of_other (notOpen : ∀ spec ∈ specs, spec.openTag ≠ trim line)
    (notClose : ∀ spec ∈ specs, spec.closeTag ≠ trim line) (detects : Bool) (buffer : Text) :
    lineRule specs active line =
      (TaggedLineParser.textSegment ⟨specs, active, detects, buffer⟩ line, active) := by
  cases active with
  | none =>
      have none : (specs.find? fun spec => spec.openTag = trim line) = none := by
        simpa using notOpen
      rw [lineRule, none]
      rfl
  | some tag =>
      have none : (specs.any fun spec => spec.tag = tag ∧ spec.closeTag = trim line) = false := by
        simpa using fun spec member _ => notClose spec member
      rw [lineRule, none]
      rfl

end Rule

/-! ## Lines in the loop -/

namespace TaggedLineParser

open Parsing

section Lines

variable {specs : List (TagSpec τ)} {active : Option τ} {body front : Text}

/-- The parser at the start of a line. -/
def ready (specs : List (TagSpec τ)) (active : Option τ) : TaggedLineParser τ :=
  ⟨specs, active, true, []⟩

/-- Text with something in front that is the beginning of no tag. -/
def Refuted (specs : List (TagSpec τ)) (text : Text) : Prop :=
  ∃ front rest, text = front ++ rest ∧ trimStart front ≠ [] ∧
    ∀ spec ∈ specs, ¬trimEnd (trimStart front) <+: spec.openTag ∧
      ¬trimEnd (trimStart front) <+: spec.closeTag

omit [DecidableEq τ]

theorem trimEnd_isPrefix_append (text more : Text) : trimEnd text <+: trimEnd (text ++ more) := by
  induction more generalizing text with
  | nil => rw [List.append_nil]
  | cons c more ih =>
      have longer : trimEnd text <+: trimEnd (text ++ [c]) := by
        cases white : isWhitespace c with
        | true => rw [trimEnd_concat_white text white]
        | false =>
            have kept : trimEnd (text ++ [c]) = text ++ [c] :=
              List.rdropWhile_concat_neg isWhitespace text c (by simp [white])
            rw [kept]
            exact (List.rdropWhile_prefix isWhitespace text).trans (List.prefix_append text [c])
      have rest := ih (text ++ [c])
      rw [List.append_assoc, List.singleton_append] at rest
      exact longer.trans rest

/-- What is seen of a line so far is the beginning of what the whole line shows. -/
theorem trim_isPrefix (inked : trimStart front ≠ []) (rest : Text) :
    trimEnd (trimStart front) <+: trim (front ++ rest) := by
  have ink : HasInk front := by
    rw [trimStart, Ne, List.dropWhile_eq_nil_iff] at inked
    push Not at inked
    obtain ⟨c, member, black⟩ := inked
    exact ⟨c, member, Bool.not_eq_true _ ▸ black⟩
  rw [trim, trimStart_append ink]
  exact trimEnd_isPrefix_append _ rest

theorem Refuted.ne (refuted : Refuted specs body) :
    (∀ spec ∈ specs, spec.openTag ≠ trim body) ∧ ∀ spec ∈ specs, spec.closeTag ≠ trim body := by
  obtain ⟨front, rest, rfl, inked, noTag⟩ := refuted
  have begins := trim_isPrefix inked rest
  refine ⟨fun spec member same => ?_, fun spec member same => ?_⟩
  · exact (noTag spec member).1 (same ▸ begins)
  · exact (noTag spec member).2 (same ▸ begins)

theorem Refuted.append (refuted : Refuted specs body) (more : Text) :
    Refuted specs (body ++ more) := by
  obtain ⟨front, rest, rfl, inked, noTag⟩ := refuted
  exact ⟨front, rest ++ more, List.append_assoc _ _ _, inked, noTag⟩

/-- What is no beginning of a tag refutes that the line is one. -/
theorem refuted_of_not_isTagPrefix (detects : Bool) (buffer : Text) (other : ¬(trimStart body = [] ∨
      isTagPrefix ⟨specs, active, detects, buffer⟩ (trimStart body) = true)) :
    Refuted specs body := by
  rw [not_or] at other
  obtain ⟨inked, noPrefix⟩ := other
  refine ⟨body, [], (List.append_nil body).symm, inked, fun spec member => ?_⟩
  rw [Bool.not_eq_true, isTagPrefix, List.any_eq_false] at noPrefix
  have neither := noPrefix spec member
  rw [Bool.or_eq_true, startsWith_iff, startsWith_iff, not_or] at neither
  exact neither

/-- A part of a line is kept back, or it is shown and the line cannot be a tag. -/
inductive Reading (specs : List (TagSpec τ)) (active : Option τ) (body : Text) :
    Parsing τ → Prop
  | held : Reading specs active body ⟨⟨specs, active, true, body⟩, [], []⟩
  | released (run : Text) (segments : List (TaggedLineSegment τ)) (refuted : Refuted specs body)
      (shows : shown ⟨⟨specs, active, false, []⟩, run, segments⟩ =
        expandSegment (textSegment ⟨specs, active, false, []⟩ body)) :
      Reading specs active body ⟨⟨specs, active, false, []⟩, run, segments⟩

end Lines

section Rounds

variable {specs : List (TagSpec τ)} {active : Option τ} {body : Text} {state : Parsing τ}

theorem Reading.round (reading : Reading specs active body state) {c : Char}
    (other : c ≠ '\n') : Reading specs active (body ++ [c]) (state.round c) := by
  cases reading with
  | held =>
      have start : Parsing.round ⟨⟨specs, active, true, body⟩, [], []⟩ c =
          ⟨(detect ⟨specs, active, true, body⟩ [] c).1, [],
            (detect ⟨specs, active, true, body⟩ [] c).2⟩ := rfl
      rw [start, detect]
      dsimp only
      rw [if_neg other]
      split
      case isTrue => exact .held
      case isFalse noTag =>
        refine .released [] _ (refuted_of_not_isTagPrefix _ _ noTag) ?_
        rw [shown, pushText, expand_pushSegment, expandSegment_textSegment_nil, List.append_nil]
        rfl
  | released run segments refuted shows =>
      have start : Parsing.round ⟨⟨specs, active, false, []⟩, run, segments⟩ c =
          ⟨⟨specs, active, false, []⟩, run ++ [c], segments⟩ := by
        simp only [Parsing.round, other, if_false, Bool.false_eq_true]
      rw [start]
      refine .released _ _ (refuted.append [c]) ?_
      rw [expandSegment_textSegment_append, ← shows, shown, shown,
        expandSegment_textSegment_append, List.append_assoc]

theorem reading_foldl (specs : List (TagSpec τ)) (active : Option τ) (noNewline : '\n' ∉ body) :
    Reading specs active body (body.foldl Parsing.round (fresh (ready specs active))) := by
  induction body using List.reverseRecOn with
  | nil => exact .held
  | append_singleton body c ih =>
      rw [List.mem_append, not_or, List.mem_singleton] at noNewline
      rw [List.foldl_append]
      exact (ih noNewline.1).round (Ne.symm noNewline.2)

/-- A whole line is shown as the rule says, and the parser is ready for the next one. -/
theorem Reading.newline (reading : Reading specs active body state) (apart : ClosedApart specs) :
    (state.round '\n').parser = ready specs (lineRule specs active (body ++ ['\n'])).2 ∧
      (state.round '\n').shown =
        expandSegment (lineRule specs active (body ++ ['\n'])).1 := by
  cases reading with
  | held =>
      have line : lineSegment ⟨specs, active, true, body ++ ['\n']⟩ (body ++ ['\n']) =
          lineRule specs active (body ++ ['\n']) := lineSegment_eq apart _ _ _
      have whole : Parsing.round ⟨⟨specs, active, true, body⟩, [], []⟩ '\n' =
          ⟨ready specs (lineRule specs active (body ++ ['\n'])).2, [],
            pushSegment [] (lineRule specs active (body ++ ['\n'])).1⟩ := by
        rw [← line]
        rfl
      rw [whole]
      refine ⟨rfl, ?_⟩
      rw [shown, expand_pushSegment, expandSegment_textSegment_nil, List.append_nil]
      rfl
  | released run segments refuted shows =>
      have ended := refuted.append ['\n']
      have whole : Parsing.round ⟨⟨specs, active, false, []⟩, run, segments⟩ '\n' =
          ⟨ready specs active, [],
            pushText ⟨specs, active, false, []⟩ (run ++ ['\n']) segments⟩ := rfl
      rw [whole, lineRule_of_other ended.ne.1 ended.ne.2 false []]
      refine ⟨rfl, ?_⟩
      rw [shown, expandSegment_textSegment_nil, List.append_nil, pushText, expand_pushSegment,
        expandSegment_textSegment_append, expandSegment_textSegment_append, ← shows, shown,
        List.append_assoc]

/-- The segment that closes what is open in the end. -/
def closing (active : Option τ) : List (TaggedLineSegment τ) :=
  match active with
  | some tag => [.TagEnd tag]
  | none => []

/-- In the end a line is finished that was kept back, and the active tag is closed. -/
theorem expand_finish (parser : TaggedLineParser τ) :
    expand parser.finish.2 =
      if parser.lineBuffer = [] then expand (closing parser.activeTag)
      else expandSegment (parser.lineSegment parser.lineBuffer).1 ++
        expand (closing (parser.lineSegment parser.lineBuffer).2) := by
  obtain ⟨specs, active, detects, buffer⟩ := parser
  by_cases empty : buffer = []
  · simp only [finish, if_pos empty]
    cases active <;> rfl
  · simp only [finish, if_neg empty, finishLine]
    generalize lineSegment ⟨specs, active, detects, buffer⟩ buffer = line
    obtain ⟨segment, active⟩ := line
    cases active with
    | some tag =>
        dsimp only
        rw [expand_pushSegment, expand_pushSegment]
        rfl
    | none =>
        dsimp only
        rw [expand_pushSegment]
        exact (List.append_nil _).symm

/-- What is left of a line in the end is a line. -/
theorem Reading.finish (reading : Reading specs active body state) (apart : ClosedApart specs)
    (nonempty : body ≠ []) :
    state.shown ++ expand state.parser.finish.2 =
      expandSegment (lineRule specs active body).1 ++
        expand (closing (lineRule specs active body).2) := by
  cases reading with
  | held =>
      rw [expand_finish, if_neg nonempty, lineSegment_eq apart, shown,
        expandSegment_textSegment_nil]
      rfl
  | released run segments refuted shows =>
      rw [shows, lineRule_of_other refuted.ne.1 refuted.ne.2 false [], expand_finish, if_pos rfl]

end Rounds

/-! ## All lines -/

section Collected

variable {specs : List (TagSpec τ)}

theorem byLines_cons (active : Option τ) (line : Text) (lines : List Text) :
    byLines specs active (line :: lines) =
      (lineRule specs active line).1 :: byLines specs (lineRule specs active line).2 lines := by
  cases active <;> rfl

theorem byLines_nil (active : Option τ) : byLines specs active [] = closing active := by
  cases active <;> rfl

/-- From the start of a line on, the parser shows what the rule says of the lines. -/
theorem shown_finish (apart : ClosedApart specs) (active : Option τ) (text : Text) :
    (text.foldl round (fresh (ready specs active))).shown ++
        expand (text.foldl round (fresh (ready specs active))).parser.finish.2 =
      expand (byLines specs active (Terminated.pieces '\n' text)) := by
  induction size : text.length using Nat.strongRecOn generalizing text active with
  | _ length ih =>
      by_cases ended : '\n' ∈ text
      · obtain ⟨body, rest, rfl, noNewline⟩ := List.eq_append_cons_of_mem ended
        obtain ⟨ready', shows⟩ := (reading_foldl specs active noNewline).newline apart
        have line : (body ++ ['\n']).foldl round (fresh (ready specs active)) =
            (body.foldl round (fresh (ready specs active))).round '\n' := by
          rw [List.foldl_append]
          rfl
        have split : body ++ '\n' :: rest = (body ++ ['\n']) ++ rest := by simp
        have shorter : rest.length < length := by
          rw [← size, List.length_append, List.length_cons]
          omega
        have later := ih rest.length shorter
          (lineRule specs active (body ++ ['\n'])).2 rest rfl
        obtain ⟨same, adds⟩ := rounds_spec rest ((body ++ ['\n']).foldl round
          (fresh (ready specs active)))
        rw [Terminated.pieces_append_mark noNewline, byLines_cons, split, List.foldl_append, same,
          adds, line, ready', shows, List.append_assoc, later]
        rfl
      · obtain rfl | nonempty := eq_or_ne text []
        · have empty : (fresh (ready specs active)).parser.lineBuffer = [] := rfl
          rw [Terminated.pieces_nil, byLines_nil, List.foldl_nil, expand_finish, if_pos empty]
          exact congrArg (· ++ _) (expandSegment_textSegment_nil _)
        · rw [Terminated.pieces_of_notMem ended nonempty, byLines_cons, byLines_nil]
          exact (reading_foldl specs active ended).finish apart nonempty

omit [DecidableEq τ] in
theorem expand_flatten (outs : List (List (TaggedLineSegment τ))) :
    expand outs.flatten = outs.flatMap expand := by
  induction outs with
  | nil => rfl
  | cons out outs ih => rw [List.flatten_cons, expand_append, ih, List.flatMap_cons]

/-- What the parser returns for the chunks of a text is what the rule for lines says of the text,
up to the places at which text is cut. -/
theorem merged_collect (apart : ClosedApart specs) (chunks : List Text) :
    merged ((new specs).collect chunks) =
      merged (byLines specs none (Terminated.pieces '\n' chunks.flatten)) := by
  apply merged_congr
  obtain ⟨sameState, sameView⟩ := feed_flatten additive_parse
    (rfl : (parse (new specs) []).1 = new specs) rfl chunks
  have once : (feed parse (new specs) [chunks.flatten]).1 =
      (parse (new specs) chunks.flatten).1 ∧
      (feed parse (new specs) [chunks.flatten]).2.flatMap expand =
        expand (parse (new specs) chunks.flatten).2 := by
    simp [feed]
  rw [collect, expand_append, expand_flatten, sameView, sameState, once.1, once.2, (parse_eq _ _).1,
    (parse_eq _ _).2]
  exact shown_finish apart none chunks.flatten

/-- One kind of block. -/
def blockSpecs : List (TagSpec Unit) := [⟨"<tag>".toList, "</tag>".toList, ()⟩]

theorem merged_collect_block :
    merged ((new blockSpecs).collect ["<t".toList, "ag>\nline\n</tag>\n".toList]) =
      [.TagStart (), .TagDelta () "line\n".toList, .TagEnd ()] :=
  (merged_collect (by simp [ClosedApart, blockSpecs]) _).trans (by decide)

end Collected

end TaggedLineParser

end CodexPilot.StreamParser
