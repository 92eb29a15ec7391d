import CodexPilot.StreamParser.InlineHiddenTag
import CodexPilot.StreamParser.TaggedLines

/-!
# Assistant text

Citations are stripped from the text of the assistant and, in plan mode, blocks of proposed plans
from what is left.  However the text is cut into chunks, the visible text, the citations and the
segments of the plan are those of the whole text.
-/

namespace CodexPilot.StreamParser

open RustStd Text Streams

/-! ## Citations -/

/-- `CitationTag`. -/
inductive CitationTag where
  | Citation
deriving DecidableEq

/-- `CITATION_OPEN`. -/
def citationOpen : Text := "<oai-mem-citation>".toList

/-- `CITATION_CLOSE`. -/
def citationClose : Text := "</oai-mem-citation>".toList

/-- The spec of `CitationStreamParser::new`. -/
def citationSpec : InlineTagSpec CitationTag where
  tag := .Citation
  openDelimiter := citationOpen
  closeDelimiter := citationClose
  openNonempty := by decide
  closeNonempty := by decide

/-- The contents of the tags that the inner parser extracts. -/
def contents (inner : StreamTextChunk (ExtractedInlineTag CitationTag)) : StreamTextChunk Text where
  visibleText := inner.visibleText
  extracted := inner.extracted.map ExtractedInlineTag.content

/-- `CitationStreamParser`. -/
def citationStreamParser : StreamTextParser (InlineHiddenTagParser CitationTag) Text where
  pushStr parser chunk :=
    let (parser, inner) := InlineHiddenTagParser.pushStr [citationSpec] parser chunk
    (parser, contents inner)
  finish parser :=
    let (parser, inner) := parser.finish
    (parser, contents inner)

/-- `strip_citations`. -/
def stripCitations (text : Text) : Text × List Text :=
  let (parser, out) := citationStreamParser.pushStr .new text
  let (_, tail) := citationStreamParser.finish parser
  (out.visibleText ++ tail.visibleText, out.extracted ++ tail.extracted)

/-! ## Proposed plans -/

/-- `PlanTag`. -/
inductive PlanTag where
  | ProposedPlan
deriving DecidableEq

/-- `ProposedPlanSegment`. -/
inductive ProposedPlanSegment where
  | Normal (text : Text)
  | ProposedPlanStart
  | ProposedPlanDelta (text : Text)
  | ProposedPlanEnd
deriving DecidableEq

/-- `OPEN_TAG`, `CLOSE_TAG`. -/
def planSpec : TagSpec PlanTag where
  openTag := "<proposed_plan>".toList
  closeTag := "</proposed_plan>".toList
  tag := .ProposedPlan

/-- The segment that `map_segments` makes out of a segment. -/
def mapSegment : TaggedLineSegment PlanTag → ProposedPlanSegment
  | .Normal text => .Normal text
  | .TagStart .ProposedPlan => .ProposedPlanStart
  | .TagDelta .ProposedPlan text => .ProposedPlanDelta text
  | .TagEnd .ProposedPlan => .ProposedPlanEnd

/-- The text of a segment that is visible. -/
def ProposedPlanSegment.normalText : ProposedPlanSegment → Text
  | .Normal text => text
  | _ => []

/-- `map_segments`. -/
def mapSegments (segments : List (TaggedLineSegment PlanTag)) :
    StreamTextChunk ProposedPlanSegment where
  visibleText := (segments.map mapSegment).flatMap ProposedPlanSegment.normalText
  extracted := segments.map mapSegment

/-- `ProposedPlanParser`. -/
def proposedPlanParser : StreamTextParser (TaggedLineParser PlanTag) ProposedPlanSegment where
  pushStr parser chunk :=
    let (parser, segments) := parser.parse chunk
    (parser, mapSegments segments)
  finish parser :=
    let (parser, segments) := parser.finish
    (parser, mapSegments segments)

/-- `strip_proposed_plan_blocks`. -/
def stripProposedPlanBlocks (text : Text) : Text :=
  let (parser, out) := proposedPlanParser.pushStr (.new [planSpec]) text
  let (_, tail) := proposedPlanParser.finish parser
  out.visibleText ++ tail.visibleText

/-! ## The parser -/

/-- `AssistantTextChunk`. -/
structure AssistantTextChunk where
  visibleText : Text
  citations : List Text
  planSegments : List ProposedPlanSegment
deriving DecidableEq

/-- `AssistantTextStreamParser`. -/
structure AssistantTextStreamParser where
  planMode : Bool
  citations : InlineHiddenTagParser CitationTag
  plan : TaggedLineParser PlanTag

namespace AssistantTextStreamParser

/-- `AssistantTextStreamParser::new`. -/
def new (planMode : Bool) : AssistantTextStreamParser where
  planMode := planMode
  citations := .new
  plan := .new [planSpec]

/-- `parse_visible_text`. -/
def parseVisibleText (parser : AssistantTextStreamParser) (visibleText : Text) :
    AssistantTextStreamParser × AssistantTextChunk :=
  if parser.planMode then
    let (plan, planChunk) := proposedPlanParser.pushStr parser.plan visibleText
    ({ parser with plan := plan }, ⟨planChunk.visibleText, [], planChunk.extracted⟩)
  else (parser, ⟨visibleText, [], []⟩)

/-- `AssistantTextStreamParser::push_str`. -/
def pushStr (parser : AssistantTextStreamParser) (chunk : Text) :
    AssistantTextStreamParser × AssistantTextChunk :=
  let (citations, citationChunk) := citationStreamParser.pushStr parser.citations chunk
  let (parser, out) := { parser with citations := citations }.parseVisibleText
    citationChunk.visibleText
  (parser, { out with citations := citationChunk.extracted })

/-- `AssistantTextStreamParser::finish`. -/
def finish (parser : AssistantTextStreamParser) : AssistantTextStreamParser × AssistantTextChunk :=
  let (citations, citationChunk) := citationStreamParser.finish parser.citations
  let (parser, out) := { parser with citations := citations }.parseVisibleText
    citationChunk.visibleText
  if parser.planMode then
    let (plan, tail) := proposedPlanParser.finish parser.plan
    ({ parser with plan := plan },
      { visibleText := out.visibleText ++ tail.visibleText
        citations := citationChunk.extracted
        planSegments := out.planSegments ++ tail.extracted })
  else (parser, { out with citations := citationChunk.extracted })

/-- What the parser returns altogether, for the chunks and in the end. -/
def collect (parser : AssistantTextStreamParser) (chunks : List Text) : AssistantTextChunk :=
  let run := feed pushStr parser chunks
  let outs := run.2 ++ [run.1.finish.2]
  { visibleText := outs.flatMap AssistantTextChunk.visibleText
    citations := outs.flatMap AssistantTextChunk.citations
    planSegments := outs.flatMap AssistantTextChunk.planSegments }

end AssistantTextStreamParser

/-! ## Segments that are merged -/

/-- A segment in front of others; it is merged with the first one of these when both are text of
one kind. -/
def mergeInFront : ProposedPlanSegment → List ProposedPlanSegment → List ProposedPlanSegment
  | .Normal text, .Normal more :: rest => .Normal (text ++ more) :: rest
  | .ProposedPlanDelta text, .ProposedPlanDelta more :: rest =>
      .ProposedPlanDelta (text ++ more) :: rest
  | segment, rest => segment :: rest

/-- The segments, with adjacent ones merged that are text of one kind. -/
def mergeAdjacent (segments : List ProposedPlanSegment) : List ProposedPlanSegment :=
  segments.foldr mergeInFront []

/-- The segment with a segment of its own for each character. -/
def ProposedPlanSegment.expand : ProposedPlanSegment → List ProposedPlanSegment
  | .Normal text => text.map fun c => .Normal [c]
  | .ProposedPlanDelta text => text.map fun c => .ProposedPlanDelta [c]
  | segment => [segment]

/-- The segment is not one of no text. -/
def ProposedPlanSegment.Filled (segment : ProposedPlanSegment) : Prop :=
  segment ≠ .Normal [] ∧ segment ≠ .ProposedPlanDelta []

section Merging

variable {segment : ProposedPlanSegment} {left right segments : List ProposedPlanSegment}

theorem mergeInFront_normal (c : Char) (text : Text) (segments : List ProposedPlanSegment) :
    mergeInFront (.Normal [c]) (mergeInFront (.Normal text) segments) =
      mergeInFront (.Normal (c :: text)) segments := by
  obtain _ | ⟨head, rest⟩ := segments
  · rfl
  · cases head <;> rfl

theorem mergeInFront_delta (c : Char) (text : Text) (segments : List ProposedPlanSegment) :
    mergeInFront (.ProposedPlanDelta [c]) (mergeInFront (.ProposedPlanDelta text) segments) =
      mergeInFront (.ProposedPlanDelta (c :: text)) segments := by
  obtain _ | ⟨head, rest⟩ := segments
  · rfl
  · cases head <;> rfl

theorem foldr_mergeInFront_expand (filled : segment.Filled) (segments : List ProposedPlanSegment) :
    segment.expand.foldr mergeInFront segments = mergeInFront segment segments := by
  have normal (text : Text) (nonempty : text ≠ []) :
      (ProposedPlanSegment.Normal text).expand.foldr mergeInFront segments =
        mergeInFront (.Normal text) segments := by
    induction text with
    | nil => exact absurd rfl nonempty
    | cons c text ih =>
        obtain rfl | more := eq_or_ne text []
        · rfl
        · rw [← mergeInFront_normal, ← ih more]
          rfl
  have delta (text : Text) (nonempty : text ≠ []) :
      (ProposedPlanSegment.ProposedPlanDelta text).expand.foldr mergeInFront segments =
        mergeInFront (.ProposedPlanDelta text) segments := by
    induction text with
    | nil => exact absurd rfl nonempty
    | cons c text ih =>
        obtain rfl | more := eq_or_ne text []
        · rfl
        · rw [← mergeInFront_delta, ← ih more]
          rfl
  cases segment with
  | Normal text => exact normal text fun empty => filled.1 (congrArg _ empty)
  | ProposedPlanDelta text => exact delta text fun empty => filled.2 (congrArg _ empty)
  | ProposedPlanStart | ProposedPlanEnd => rfl

/-- It does not matter where the text of the segments has been cut. -/
theorem mergeAdjacent_expand (filled : ∀ segment ∈ segments, segment.Filled) :
    mergeAdjacent (segments.flatMap ProposedPlanSegment.expand) = mergeAdjacent segments := by
  induction segments with
  | nil => rfl
  | cons segment segments ih =>
      have later := ih fun other member => filled other (List.mem_cons_of_mem _ member)
      rw [List.flatMap_cons, mergeAdjacent, List.foldr_append]
      rw [mergeAdjacent] at later
      rw [later, foldr_mergeInFront_expand (filled segment List.mem_cons_self)]
      rfl

theorem mergeAdjacent_congr (leftFilled : ∀ segment ∈ left, segment.Filled)
    (rightFilled : ∀ segment ∈ right, segment.Filled)
    (same : left.flatMap ProposedPlanSegment.expand = right.flatMap ProposedPlanSegment.expand) :
    mergeAdjacent left = mergeAdjacent right := by
  rw [← mergeAdjacent_expand leftFilled, same, mergeAdjacent_expand rightFilled]

theorem flatMap_normalText_expand (segments : List ProposedPlanSegment) :
    (segments.flatMap ProposedPlanSegment.expand).flatMap ProposedPlanSegment.normalText =
      segments.flatMap ProposedPlanSegment.normalText := by
  have single (segment : ProposedPlanSegment) :
      segment.expand.flatMap ProposedPlanSegment.normalText = segment.normalText := by
    cases segment with
    | Normal text =>
        rw [ProposedPlanSegment.expand, List.flatMap_map]
        exact List.flatMap_singleton' text
    | ProposedPlanDelta text => simp [ProposedPlanSegment.expand, ProposedPlanSegment.normalText]
    | ProposedPlanStart | ProposedPlanEnd => rfl
  rw [List.flatMap_assoc]
  simp only [single]

end Merging

/-! ## Chunks -/

theorem unnested_citationSpec : InlineHiddenTagParser.Unnested [citationSpec] := by
  intro spec member other isOther inside
  obtain rfl := List.mem_singleton.mp member
  obtain rfl := List.mem_singleton.mp isOther
  have length := inside.length_le
  revert length
  decide

theorem additive_citations_visibleText :
    Additive citationStreamParser.pushStr StreamTextChunk.visibleText :=
  have inner := InlineHiddenTagParser.additive_visibleText unnested_citationSpec
  ⟨inner.state, inner.out⟩

theorem additive_citations_extracted :
    Additive citationStreamParser.pushStr StreamTextChunk.extracted :=
  have inner := (InlineHiddenTagParser.additive_extracted unnested_citationSpec).through
    fun _ _ => List.map_append (f := ExtractedInlineTag.content)
  ⟨inner.state, inner.out⟩

theorem flatMap_expand_map_mapSegment (segments : List (TaggedLineSegment PlanTag)) :
    (segments.map mapSegment).flatMap ProposedPlanSegment.expand =
      (TaggedLineParser.expand segments).map mapSegment := by
  have single (segment : TaggedLineSegment PlanTag) : (mapSegment segment).expand =
      (TaggedLineParser.expandSegment segment).map mapSegment := by
    cases segment with
    | Normal text => simp [mapSegment, ProposedPlanSegment.expand, TaggedLineParser.expandSegment]
    | TagDelta tag text =>
        cases tag
        simp [mapSegment, ProposedPlanSegment.expand, TaggedLineParser.expandSegment]
    | TagStart tag | TagEnd tag => rfl
  rw [TaggedLineParser.expand, List.map_flatMap, List.flatMap_map]
  simp only [single]

theorem additive_plan_extracted : Additive proposedPlanParser.pushStr
    fun out => out.extracted.flatMap ProposedPlanSegment.expand := by
  have whole : Additive (TaggedLineParser.parse : TaggedLineParser PlanTag → Text → _)
      TaggedLineParser.expand := TaggedLineParser.additive_parse
  have inner := whole.through fun _ _ => List.map_append (f := mapSegment)
  refine ⟨inner.state, fun state first second => ?_⟩
  simp only [proposedPlanParser, mapSegments, flatMap_expand_map_mapSegment]
  exact inner.out state first second

theorem additive_plan_visibleText :
    Additive proposedPlanParser.pushStr StreamTextChunk.visibleText := by
  have appends (first second : List ProposedPlanSegment) :
      (first ++ second).flatMap ProposedPlanSegment.normalText =
        first.flatMap ProposedPlanSegment.normalText ++
          second.flatMap ProposedPlanSegment.normalText := List.flatMap_append
  have inner := additive_plan_extracted.through appends
  refine ⟨inner.state, fun state first second => ?_⟩
  have shown := inner.out state first second
  simp only [flatMap_normalText_expand] at shown
  exact shown

namespace AssistantTextStreamParser

/-- The parsers in plan mode: what the first one lets through is fed to the second one. -/
def planPipe : InlineHiddenTagParser CitationTag × TaggedLineParser PlanTag → Text →
    (InlineHiddenTagParser CitationTag × TaggedLineParser PlanTag) ×
      (StreamTextChunk Text × StreamTextChunk ProposedPlanSegment) :=
  pipe citationStreamParser.pushStr StreamTextChunk.visibleText proposedPlanParser.pushStr

theorem pushStr_of_planMode (citations : InlineHiddenTagParser CitationTag)
    (plan : TaggedLineParser PlanTag) (chunk : Text) :
    pushStr ⟨true, citations, plan⟩ chunk =
      (⟨true, (planPipe (citations, plan) chunk).1.1, (planPipe (citations, plan) chunk).1.2⟩,
        ⟨(planPipe (citations, plan) chunk).2.2.visibleText,
          (planPipe (citations, plan) chunk).2.1.extracted,
          (planPipe (citations, plan) chunk).2.2.extracted⟩) :=
  rfl

theorem pushStr_of_plain (citations : InlineHiddenTagParser CitationTag)
    (plan : TaggedLineParser PlanTag) (chunk : Text) :
    pushStr ⟨false, citations, plan⟩ chunk =
      (⟨false, (citationStreamParser.pushStr citations chunk).1, plan⟩,
        ⟨(citationStreamParser.pushStr citations chunk).2.visibleText,
          (citationStreamParser.pushStr citations chunk).2.extracted, []⟩) :=
  rfl

/-- A view of what is returned adds up when it does for the pipe and for the citations alone. -/
theorem additive_of_modes {β : Type*} {view : AssistantTextChunk → List β}
    (planned : Additive planPipe fun out =>
      view ⟨out.2.visibleText, out.1.extracted, out.2.extracted⟩)
    (plain : Additive citationStreamParser.pushStr fun out =>
      view ⟨out.visibleText, out.extracted, []⟩) : Additive pushStr view where
  state parser first second := by
    obtain ⟨mode, citations, plan⟩ := parser
    cases mode with
    | true =>
        simp only [pushStr_of_planMode]
        have same := planned.state (citations, plan) first second
        simp only [same, Prod.mk.eta]
    | false =>
        simp only [pushStr_of_plain]
        have same := plain.state citations first second
        simp only [same]
  out parser first second := by
    obtain ⟨mode, citations, plan⟩ := parser
    cases mode with
    | true =>
        simp only [pushStr_of_planMode]
        exact planned.out (citations, plan) first second
    | false =>
        simp only [pushStr_of_plain]
        exact plain.out citations first second

theorem additive_visibleText : Additive pushStr AssistantTextChunk.visibleText :=
  additive_of_modes (additive_citations_visibleText.pipe additive_plan_visibleText)
    additive_citations_visibleText

theorem additive_citations : Additive pushStr AssistantTextChunk.citations :=
  additive_of_modes
    (additive_citations_visibleText.pipe_aside additive_citations_extracted
      additive_plan_visibleText)
    additive_citations_extracted

theorem additive_planSegments : Additive pushStr
    fun out => out.planSegments.flatMap ProposedPlanSegment.expand :=
  additive_of_modes (additive_citations_visibleText.pipe additive_plan_extracted)
    ⟨additive_citations_visibleText.state, fun _ _ _ => rfl⟩

theorem pushStr_new_nil (planMode : Bool) :
    pushStr (new planMode) [] = (new planMode, ⟨[], [], []⟩) := by
  have idle : citationStreamParser.pushStr .new [] = (.new, .empty) := by
    simp only [citationStreamParser, InlineHiddenTagParser.pushStr_new_nil]
    rfl
  cases planMode with
  | true | false =>
      simp only [new, pushStr, idle]
      rfl

/-! ### Segments hold text -/

theorem filled_mapSegments {segments : List (TaggedLineSegment PlanTag)}
    (filled : ∀ segment ∈ segments, TaggedLineParser.Filled segment) :
    ∀ segment ∈ (mapSegments segments).extracted, segment.Filled := by
  intro mapped member
  obtain ⟨segment, among, rfl⟩ := List.mem_map.mp member
  obtain ⟨noNormal, noDelta⟩ := filled segment among
  cases segment with
  | Normal text => simpa [mapSegment, ProposedPlanSegment.Filled] using noNormal
  | TagDelta tag text =>
      cases tag
      simpa [mapSegment, ProposedPlanSegment.Filled] using noDelta .ProposedPlan
  | TagStart tag | TagEnd tag => simp [mapSegment, ProposedPlanSegment.Filled]

theorem filled_parseVisibleText (parser : AssistantTextStreamParser) (text : Text) :
    ∀ segment ∈ (parser.parseVisibleText text).2.planSegments, segment.Filled := by
  rw [parseVisibleText]
  split
  case isTrue => exact filled_mapSegments (TaggedLineParser.filled_parse parser.plan text)
  case isFalse => exact List.forall_mem_nil _

theorem filled_pushStr (parser : AssistantTextStreamParser) (chunk : Text) :
    ∀ segment ∈ (pushStr parser chunk).2.planSegments, segment.Filled :=
  filled_parseVisibleText _ _

theorem filled_finish (parser : AssistantTextStreamParser) :
    ∀ segment ∈ parser.finish.2.planSegments, segment.Filled := by
  simp only [finish]
  split
  case isTrue =>
    intro segment member
    obtain pushed | last := List.mem_append.mp member
    · exact filled_parseVisibleText _ _ segment pushed
    · exact filled_mapSegments (TaggedLineParser.filled_finish _) segment last
  case isFalse => exact filled_parseVisibleText _ _

theorem filled_collect (parser : AssistantTextStreamParser) (chunks : List Text) :
    ∀ segment ∈ (collect parser chunks).planSegments, segment.Filled := by
  intro segment member
  obtain ⟨out, among, inOut⟩ := List.mem_flatMap.mp member
  obtain pushed | last := List.mem_append.mp among
  · obtain ⟨state, chunk, rfl⟩ := exists_of_mem_feed pushed
    exact filled_pushStr state chunk segment inOut
  · obtain rfl := List.mem_singleton.mp last
    exact filled_finish _ segment inOut

/-! ### All at once -/

/-- A view of everything that is returned does not show how the text is cut. -/
theorem collect_view {β : Type*} {view : AssistantTextChunk → List β}
    (additive : Additive pushStr view) (silent : view ⟨[], [], []⟩ = []) (planMode : Bool)
    (chunks : List Text) :
    let all := fun chunks => (feed pushStr (new planMode) chunks).2 ++
      [(feed pushStr (new planMode) chunks).1.finish.2]
    (all chunks).flatMap view = (all [chunks.flatten]).flatMap view := by
  obtain ⟨sameState, sameView⟩ := feed_flatten additive
    (by rw [pushStr_new_nil] : (pushStr (new planMode) []).1 = new planMode)
    (by rw [pushStr_new_nil, silent]) chunks
  simp only [List.flatMap_append, sameState, sameView]

/-- In plan mode, what is visible of a text that comes at once is what is left of the visible text
when the blocks are stripped from it. -/
theorem visibleText_collect_singleton (text : Text) :
    (collect (new true) [text]).visibleText =
      stripProposedPlanBlocks (stripCitations text).1 := by
  let pushed := citationStreamParser.pushStr .new text
  let first := proposedPlanParser.pushStr (.new [planSpec]) pushed.2.visibleText
  let tail := (citationStreamParser.finish pushed.1).2.visibleText
  let second := proposedPlanParser.pushStr first.1 tail
  have parts : (collect (new true) [text]).visibleText =
      first.2.visibleText ++ (second.2.visibleText ++
        (proposedPlanParser.finish second.1).2.visibleText ++ []) := rfl
  have stripped : stripProposedPlanBlocks (stripCitations text).1 =
      (proposedPlanParser.pushStr (.new [planSpec])
          (pushed.2.visibleText ++ tail)).2.visibleText ++
        (proposedPlanParser.finish (proposedPlanParser.pushStr (.new [planSpec])
          (pushed.2.visibleText ++ tail)).1).2.visibleText := rfl
  rw [parts, stripped, additive_plan_visibleText.out, additive_plan_visibleText.state,
    List.append_nil, List.append_assoc]

end AssistantTextStreamParser

open AssistantTextStreamParser

/-- However a text is cut, the visible text, the citations and the merged segments of the plan are
those of the whole text; in plan mode the visible text is the one without citations and blocks. -/
theorem collect_eq (planMode : Bool) (chunks : List Text) :
    (collect (new planMode) chunks).visibleText =
        (collect (new planMode) [chunks.flatten]).visibleText ∧
      (collect (new planMode) chunks).citations =
        (collect (new planMode) [chunks.flatten]).citations ∧
      mergeAdjacent (collect (new planMode) chunks).planSegments =
        mergeAdjacent (collect (new planMode) [chunks.flatten]).planSegments ∧
      (planMode = true → (collect (new planMode) chunks).visibleText =
        stripProposedPlanBlocks (stripCitations chunks.flatten).1) := by
  have visible := collect_view additive_visibleText rfl planMode chunks
  have cited := collect_view additive_citations rfl planMode chunks
  have expanded := collect_view additive_planSegments rfl planMode chunks
  refine ⟨visible, cited, ?_, ?_⟩
  · refine mergeAdjacent_congr (filled_collect _ _) (filled_collect _ _) ?_
    simpa only [collect, List.flatMap_assoc] using expanded
  · rintro rfl
    exact visible.trans (visibleText_collect_singleton chunks.flatten)

end CodexPilot.StreamParser
