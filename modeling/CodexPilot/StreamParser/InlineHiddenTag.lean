import CodexPilot.Library.Delimiters
import CodexPilot.RustStd.Iter
import CodexPilot.StreamParser.StreamText
import Mathlib.Data.Prod.Lex
import Mathlib.Data.Set.Finite.Lemmas
import Mathlib.Data.Set.Finite.List
import Mathlib.Order.Preorder.Finite

/-!
# Hidden inline tags

The parser hides tags and extracts what is in them, from a text that comes in chunks.  It does not
matter how the text is cut exactly when no open delimiter is complete inside of another one before
the end of that one.
-/

namespace CodexPilot.StreamParser

open RustStd Delimiters Streams

/-- `ExtractedInlineTag`. -/
structure ExtractedInlineTag (τ : Type*) where
  tag : τ
  content : Text
deriving DecidableEq

/-- `InlineTagSpec`, as `InlineHiddenTagParser::new` accepts it. -/
structure InlineTagSpec (τ : Type*) where
  tag : τ
  openDelimiter : Text
  closeDelimiter : Text
  openNonempty : openDelimiter ≠ []
  closeNonempty : closeDelimiter ≠ []

/-- `ActiveTag`. -/
structure ActiveTag (τ : Type*) where
  tag : τ
  close : Text
  content : Text
  closeNonempty : close ≠ []

/-- The tag that a spec opens. -/
def InlineTagSpec.opened {τ : Type*} (spec : InlineTagSpec τ) : ActiveTag τ where
  tag := spec.tag
  close := spec.closeDelimiter
  content := []
  closeNonempty := spec.closeNonempty

/-- `InlineHiddenTagParser`; the specs never change and are given separately. -/
structure InlineHiddenTagParser (τ : Type*) where
  pending : Text
  active : Option (ActiveTag τ)

/-- `longest_suffix_prefix_len`, from a length downwards. -/
def longestUpTo (s needle : Text) : ℕ → ℕ
  | 0 => 0
  | k + 1 => if needle.take (k + 1) <:+ s then k + 1 else longestUpTo s needle k

/-- `longest_suffix_prefix_len`: at least one character of the needle is missing. -/
def longestSuffixPrefixLen (s needle : Text) : ℕ :=
  longestUpTo s needle (min s.length (needle.length - 1))

namespace InlineHiddenTagParser

variable {τ : Type*}

/-- `InlineHiddenTagParser::new`. -/
def new : InlineHiddenTagParser τ where
  pending := []
  active := none

/-- Every spec at its index, with the first place of its open delimiter. -/
def candidates (specs : List (InlineTagSpec τ)) (pending : Text) : List (ℕ × InlineTagSpec τ × ℕ) :=
  specs.zipIdx.filterMap fun (spec, idx) =>
    (find spec.openDelimiter pending).map fun pos => (pos, spec, idx)

/-- The order of `find_next_open`: the first place, the longest delimiter, the first spec.  At one
place one delimiter begins with the other, and their lengths in bytes are in the same order. -/
def openKey (candidate : ℕ × InlineTagSpec τ × ℕ) : ℕ ×ₗ ℕᵒᵈ ×ₗ ℕ :=
  toLex (candidate.1, toLex (OrderDual.toDual candidate.2.1.openDelimiter.length, candidate.2.2))

/-- `find_next_open`, with the spec itself. -/
def findNextOpen (specs : List (InlineTagSpec τ)) (pending : Text) : Option (ℕ × InlineTagSpec τ) :=
  (minByKey openKey (candidates specs pending)).map fun (pos, spec, _) => (pos, spec)

/-- `max_open_prefix_suffix_len`. -/
def maxOpenPrefixSuffixLen (specs : List (InlineTagSpec τ)) (pending : Text) : ℕ :=
  (specs.map fun spec => longestSuffixPrefixLen pending spec.openDelimiter).max?.getD 0

/-- A round of the loop of `push_str` that goes on: a delimiter is found. -/
def advance (specs : List (InlineTagSpec τ)) (parser : InlineHiddenTagParser τ) :
    Option (InlineHiddenTagParser τ × StreamTextChunk (ExtractedInlineTag τ)) :=
  match parser.active with
  | some active =>
      (find active.close parser.pending).map fun closeIdx =>
        (⟨parser.pending.drop (closeIdx + active.close.length), none⟩,
          ⟨[], [⟨active.tag, active.content ++ parser.pending.take closeIdx⟩]⟩)
  | none =>
      (findNextOpen specs parser.pending).map fun (openIdx, spec) =>
        (⟨parser.pending.drop (openIdx + spec.openDelimiter.length), some spec.opened⟩,
          ⟨parser.pending.take openIdx, []⟩)

/-- The last round of the loop of `push_str`: what may begin a delimiter is kept. -/
def settle (specs : List (InlineTagSpec τ)) (parser : InlineHiddenTagParser τ) :
    InlineHiddenTagParser τ × StreamTextChunk (ExtractedInlineTag τ) :=
  match parser.active with
  | some active =>
      let take := parser.pending.length - longestSuffixPrefixLen parser.pending active.close
      (⟨parser.pending.drop take,
        some { active with content := active.content ++ parser.pending.take take }⟩, .empty)
  | none =>
      let take := parser.pending.length - maxOpenPrefixSuffixLen specs parser.pending
      (⟨parser.pending.drop take, none⟩, ⟨parser.pending.take take, []⟩)

section Search

variable {specs : List (InlineTagSpec τ)} {spec : InlineTagSpec τ} {pending : Text} {pos idx : ℕ}

theorem mem_candidates : (pos, spec, idx) ∈ candidates specs pending ↔
    specs[idx]? = some spec ∧ find spec.openDelimiter pending = some pos := by
  simp only [candidates, List.mem_filterMap, Prod.exists, List.mem_zipIdx_iff_getElem?,
    Option.map_eq_some_iff, Prod.mk.injEq]
  constructor
  · rintro ⟨spec, idx, held, pos, found, rfl, rfl, rfl⟩
    exact ⟨held, found⟩
  · rintro ⟨held, found⟩
    exact ⟨spec, idx, held, pos, found, rfl, rfl, rfl⟩

/-- The spec at an index is the next to be opened, at a place: no spec occurs in front of it, no
longer one and no earlier one at the same place. -/
structure Leads (specs : List (InlineTagSpec τ)) (pending : Text) (pos : ℕ) (spec : InlineTagSpec τ)
    (idx : ℕ) : Prop where
  held : specs[idx]? = some spec
  occurs : OccursAt spec.openDelimiter pending pos
  least : ∀ other idx', specs[idx']? = some other → ∀ pos',
    OccursAt other.openDelimiter pending pos' →
      openKey (pos, spec, idx) ≤ openKey (pos', other, idx')

theorem openKey_le_iff {pos' idx' : ℕ} {other : InlineTagSpec τ} :
    openKey (pos, spec, idx) ≤ openKey (pos', other, idx') ↔ pos < pos' ∨ pos = pos' ∧
      (other.openDelimiter.length < spec.openDelimiter.length ∨
        spec.openDelimiter.length = other.openDelimiter.length ∧ idx ≤ idx') := by
  simp only [openKey, Prod.Lex.toLex_le_toLex, OrderDual.toDual_lt_toDual,
    OrderDual.toDual_inj]

theorem findNextOpen_eq_none_iff : findNextOpen specs pending = none ↔
    ∀ spec ∈ specs, ∀ pos, ¬OccursAt spec.openDelimiter pending pos := by
  rw [findNextOpen, Option.map_eq_none_iff, minByKey_eq_none_iff, List.eq_nil_iff_forall_not_mem]
  constructor
  · intro absent spec member
    obtain ⟨idx, held⟩ := List.mem_iff_getElem?.mp member
    refine (find_eq_none_iff spec.openNonempty).mp ?_
    rw [Option.eq_none_iff_forall_not_mem]
    exact fun pos found => absent (pos, spec, idx) (mem_candidates.mpr ⟨held, found⟩)
  · rintro absent ⟨pos, spec, idx⟩ member
    obtain ⟨held, found⟩ := mem_candidates.mp member
    obtain ⟨occurs, -⟩ := (find_eq_some_iff spec.openNonempty).mp found
    exact absent spec (List.mem_of_getElem? held) pos occurs

theorem findNextOpen_eq_some_iff :
    findNextOpen specs pending = some (pos, spec) ↔ ∃ idx, Leads specs pending pos spec idx := by
  have least (pos : ℕ) (spec : InlineTagSpec τ) (idx : ℕ)
      (first : minByKey openKey (candidates specs pending) = some (pos, spec, idx)) :
      Leads specs pending pos spec idx := by
    obtain ⟨member, least⟩ := minByKey_spec first
    obtain ⟨held, found⟩ := mem_candidates.mp member
    refine ⟨held, ((find_eq_some_iff spec.openNonempty).mp found).1, ?_⟩
    intro other idx' held' pos' occurs
    obtain ⟨first, found'⟩ : ∃ first, find other.openDelimiter pending = some first := by
      rw [← Option.ne_none_iff_exists']
      exact fun absent => (find_eq_none_iff other.openNonempty).mp absent pos' occurs
    have notBefore : first ≤ pos' := by
      by_contra before
      exact ((find_eq_some_iff other.openNonempty).mp found').2 pos' (by omega) occurs
    have atFirst := least (first, other, idx') (mem_candidates.mpr ⟨held', found'⟩)
    rw [openKey_le_iff] at atFirst ⊢
    omega
  rw [findNextOpen, Option.map_eq_some_iff]
  constructor
  · rintro ⟨⟨pos, spec, idx⟩, first, same⟩
    cases same
    exact ⟨idx, least pos spec idx first⟩
  · rintro ⟨idx, leads⟩
    cases first : minByKey openKey (candidates specs pending) with
    | none =>
        have absent : findNextOpen specs pending = none := by rw [findNextOpen, first]; rfl
        exact absurd leads.occurs
          (findNextOpen_eq_none_iff.mp absent spec (List.mem_of_getElem? leads.held) pos)
    | some candidate =>
        obtain ⟨pos', other, idx'⟩ := candidate
        have leads' := least pos' other idx' first
        have below := leads.least other idx' leads'.held pos' leads'.occurs
        have above := leads'.least spec idx leads.held pos leads.occurs
        rw [openKey_le_iff] at below above
        obtain ⟨rfl, rfl⟩ : pos' = pos ∧ idx' = idx := by omega
        obtain rfl := Option.some_inj.mp (leads.held.symm.trans leads'.held)
        exact ⟨_, rfl, rfl⟩

theorem findNextOpen_nil : findNextOpen specs [] = none := by
  refine findNextOpen_eq_none_iff.mpr fun spec _ pos occurs => ?_
  rw [OccursAt, List.drop_nil] at occurs
  exact spec.openNonempty (List.prefix_nil.mp occurs)

/-- No open delimiter is complete inside of another one before the end of that one. -/
def Unnested (specs : List (InlineTagSpec τ)) : Prop :=
  ∀ spec ∈ specs, ∀ other ∈ specs, ¬other.openDelimiter <:+: spec.openDelimiter.dropLast

/-- What has been found stays what is found when more text comes. -/
theorem Leads.append (unnested : Unnested specs) (leads : Leads specs pending pos spec idx)
    (more : Text) : Leads specs (pending ++ more) pos spec idx := by
  refine ⟨leads.held, leads.occurs.append more, fun other idx' held' pos' occurs => ?_⟩
  have inside := leads.occurs.fits spec.openNonempty
  by_cases fits : pos' + other.openDelimiter.length ≤ pending.length
  · exact leads.least other idx' held' pos' (occurs.of_append fits)
  · rw [openKey_le_iff]
    refine .inl ?_
    by_contra notBehind
    exact unnested other (List.mem_of_getElem? held') spec (List.mem_of_getElem? leads.held)
      ((leads.occurs.append more).isInfix occurs (by omega) (by omega))

theorem findNextOpen_append (unnested : Unnested specs)
    (found : findNextOpen specs pending = some (pos, spec)) (more : Text) :
    findNextOpen specs (pending ++ more) = some (pos, spec) := by
  obtain ⟨idx, leads⟩ := findNextOpen_eq_some_iff.mp found
  exact findNextOpen_eq_some_iff.mpr ⟨idx, leads.append unnested more⟩

/-- What is let go does not hide an open delimiter from the search. -/
theorem findNextOpen_append_of_isHold {cut : ℕ} (absent : findNextOpen specs pending = none)
    (hold : IsHold (specs.map InlineTagSpec.openDelimiter) pending cut) (more : Text) :
    findNextOpen specs (pending ++ more) =
      (findNextOpen specs (pending.drop cut ++ more)).map fun (pos, spec) => (cut + pos, spec) := by
  have late {spec : InlineTagSpec τ} (member : spec ∈ specs) {pos : ℕ}
      (occurs : OccursAt spec.openDelimiter (pending ++ more) pos) : cut ≤ pos := by
    refine hold.le_of_occursAt (fun needle isOpen => ?_) (List.mem_map_of_mem member) occurs
    obtain ⟨other, isSpec, rfl⟩ := List.mem_map.mp isOpen
    exact findNextOpen_eq_none_iff.mp absent other isSpec
  cases found : findNextOpen specs (pending.drop cut ++ more) with
  | none =>
      rw [Option.map_none, findNextOpen_eq_none_iff]
      intro spec member pos occurs
      obtain ⟨further, rfl⟩ := Nat.exists_eq_add_of_le (late member occurs)
      exact findNextOpen_eq_none_iff.mp found spec member further
        ((occursAt_drop_iff hold.within).mp occurs)
  | some first =>
      obtain ⟨pos, spec⟩ := first
      obtain ⟨idx, leads⟩ := findNextOpen_eq_some_iff.mp found
      rw [Option.map_some, findNextOpen_eq_some_iff]
      refine ⟨idx, leads.held, (occursAt_drop_iff hold.within).mpr leads.occurs, ?_⟩
      intro other idx' held' pos' occurs
      obtain ⟨further, rfl⟩ :=
        Nat.exists_eq_add_of_le (late (List.mem_of_getElem? held') occurs)
      have behind := leads.least other idx' held' further
        ((occursAt_drop_iff hold.within).mp occurs)
      rw [openKey_le_iff] at behind ⊢
      omega

end Search

end InlineHiddenTagParser

/-! ### What is kept -/

section Hold

variable {s needle : Text} {needles : List Text} {bound k : ℕ}

theorem longestUpTo_le : longestUpTo s needle bound ≤ bound := by
  induction bound with
  | zero => exact Nat.le_refl 0
  | succ bound ih =>
      rw [longestUpTo]
      split
      case isTrue => exact Nat.le_refl _
      case isFalse => exact Nat.le_succ_of_le ih

theorem take_longestUpTo_suffix : needle.take (longestUpTo s needle bound) <:+ s := by
  induction bound with
  | zero => exact List.nil_suffix
  | succ bound ih =>
      rw [longestUpTo]
      split
      case isTrue found => exact found
      case isFalse => exact ih

theorem le_longestUpTo (suffix : needle.take k <:+ s) (within : k ≤ bound) :
    k ≤ longestUpTo s needle bound := by
  induction bound with
  | zero => exact within
  | succ bound ih =>
      rw [longestUpTo]
      split
      case isTrue => exact within
      case isFalse apart =>
        obtain rfl | less := Nat.eq_or_lt_of_le within
        · exact absurd suffix apart
        · exact ih (Nat.le_of_lt_succ less)

/-- The greatest length that is kept for one of the delimiters is the one to be kept. -/
theorem isHold_of_longest {longest : ℕ}
    (least : ∀ needle ∈ needles, longestSuffixPrefixLen s needle ≤ longest)
    (attained : longest = 0 ∨ ∃ needle ∈ needles, longestSuffixPrefixLen s needle = longest) :
    IsHold needles s (s.length - longest) where
  within := Nat.sub_le _ _
  straddles less := by
    obtain zero | ⟨needle, member, rfl⟩ := attained
    · omega
    · have short : longestSuffixPrefixLen s needle ≤ min s.length (needle.length - 1) :=
        longestUpTo_le
      have suffix : needle.take (longestSuffixPrefixLen s needle) <:+ s := take_longestUpTo_suffix
      have size : (needle.take (longestSuffixPrefixLen s needle)).length =
          longestSuffixPrefixLen s needle := by
        rw [List.length_take]
        omega
      have kept := List.suffix_iff_eq_drop.mp suffix
      rw [size] at kept
      refine ⟨needle, member, ?_, by omega⟩
      rw [← kept]
      exact List.take_prefix _ _
  clear i early := by
    rintro ⟨needle, member, begins, beyond⟩
    have suffix : needle.take (s.length - i) <:+ s := by
      have same : s.drop i = needle.take (s.length - i) := by
        have whole := List.prefix_iff_eq_take.mp begins
        rwa [List.length_drop] at whole
      rw [← same]
      exact List.drop_suffix i s
    have kept : s.length - i ≤ longestSuffixPrefixLen s needle :=
      le_longestUpTo suffix (by omega)
    have bounded := least needle member
    omega

theorem isHold_longestSuffixPrefixLen (s needle : Text) :
    IsHold [needle] s (s.length - longestSuffixPrefixLen s needle) := by
  refine isHold_of_longest (fun other member => ?_) (.inr ⟨needle, List.mem_singleton_self _, rfl⟩)
  rw [List.mem_singleton.mp member]

theorem isHold_maxOpenPrefixSuffixLen {τ : Type*} (specs : List (InlineTagSpec τ))
    (pending : Text) :
    IsHold (specs.map InlineTagSpec.openDelimiter) pending
      (pending.length - InlineHiddenTagParser.maxOpenPrefixSuffixLen specs pending) := by
  obtain empty | ⟨longest, found⟩ := Option.eq_none_or_eq_some
    (specs.map fun spec => longestSuffixPrefixLen pending spec.openDelimiter).max?
  · rw [InlineHiddenTagParser.maxOpenPrefixSuffixLen, empty]
    obtain rfl : specs = [] := by simpa using empty
    exact isHold_of_longest (fun needle member => absurd member List.not_mem_nil) (.inl rfl)
  · rw [InlineHiddenTagParser.maxOpenPrefixSuffixLen, found]
    obtain ⟨attained, least⟩ := List.max?_eq_some_iff.mp found
    refine isHold_of_longest (fun needle member => ?_) (.inr ?_)
    · obtain ⟨spec, isSpec, rfl⟩ := List.mem_map.mp member
      exact least _ (List.mem_map_of_mem isSpec)
    · obtain ⟨spec, isSpec, same⟩ := List.mem_map.mp attained
      exact ⟨spec.openDelimiter, List.mem_map_of_mem isSpec, same⟩

end Hold

namespace InlineHiddenTagParser

section Drive

variable {τ : Type*} {specs : List (InlineTagSpec τ)} {parser next : InlineHiddenTagParser τ}
variable {out : StreamTextChunk (ExtractedInlineTag τ)} {active : ActiveTag τ} {pending : Text}

/-- More text behind what is pending. -/
def extend (parser : InlineHiddenTagParser τ) (more : Text) : InlineHiddenTagParser τ :=
  { parser with pending := parser.pending ++ more }

theorem fits_of_find {needle text : Text} {idx : ℕ} (nonempty : needle ≠ [])
    (found : find needle text = some idx) : idx + needle.length ≤ text.length := by
  obtain ⟨occurs, -⟩ := (find_eq_some_iff nonempty).mp found
  exact occurs.fits nonempty

theorem fits_of_findNextOpen {text : Text} {openIdx : ℕ} {spec : InlineTagSpec τ}
    (found : findNextOpen specs text = some (openIdx, spec)) :
    openIdx + spec.openDelimiter.length ≤ text.length := by
  obtain ⟨idx, leads⟩ := findNextOpen_eq_some_iff.mp found
  exact leads.occurs.fits spec.openNonempty

theorem length_pending_advance (advanced : advance specs parser = some (next, out)) :
    next.pending.length < parser.pending.length := by
  obtain ⟨pending, active⟩ := parser
  cases active with
  | some active =>
      obtain ⟨closeIdx, found, same⟩ := Option.map_eq_some_iff.mp advanced
      have fits : closeIdx + active.close.length ≤ pending.length :=
        fits_of_find active.closeNonempty found
      have positive := List.length_pos_of_ne_nil active.closeNonempty
      cases same
      simp only [List.length_drop]
      omega
  | none =>
      obtain ⟨⟨openIdx, spec⟩, found, same⟩ := Option.map_eq_some_iff.mp advanced
      have fits : openIdx + spec.openDelimiter.length ≤ pending.length :=
        fits_of_findNextOpen found
      have positive := List.length_pos_of_ne_nil spec.openNonempty
      cases same
      simp only [List.length_drop]
      omega

/-- The loop of `push_str`. -/
def drive (specs : List (InlineTagSpec τ)) (parser : InlineHiddenTagParser τ) :
    InlineHiddenTagParser τ × StreamTextChunk (ExtractedInlineTag τ) :=
  match _advanced : advance specs parser with
  | some (next, out) =>
      let (settled, rest) := drive specs next
      (settled, out ++ rest)
  | none => settle specs parser
termination_by parser.pending.length
decreasing_by exact length_pending_advance _advanced

/-- `InlineHiddenTagParser::push_str`. -/
def pushStr (specs : List (InlineTagSpec τ)) (parser : InlineHiddenTagParser τ) (chunk : Text) :
    InlineHiddenTagParser τ × StreamTextChunk (ExtractedInlineTag τ) :=
  drive specs (parser.extend chunk)

/-- `InlineHiddenTagParser::finish`. -/
def finish (parser : InlineHiddenTagParser τ) :
    InlineHiddenTagParser τ × StreamTextChunk (ExtractedInlineTag τ) :=
  match parser.active with
  | some active => (new, ⟨[], [⟨active.tag, active.content ++ parser.pending⟩]⟩)
  | none => (new, ⟨parser.pending, []⟩)

/-- The parser for some specs. -/
def parserFor (specs : List (InlineTagSpec τ)) :
    StreamTextParser (InlineHiddenTagParser τ) (ExtractedInlineTag τ) where
  pushStr := pushStr specs
  finish := finish

theorem drive_of_advance (advanced : advance specs parser = some (next, out)) :
    drive specs parser = ((drive specs next).1, out ++ (drive specs next).2) := by
  rw [drive]
  split
  case h_1 next' out' again =>
    cases advanced.symm.trans again
    rfl
  case h_2 stopped => cases advanced.symm.trans stopped

theorem drive_of_stop (stopped : advance specs parser = none) :
    drive specs parser = settle specs parser := by
  rw [drive]
  split
  case h_1 advanced => cases stopped.symm.trans advanced
  case h_2 => rfl

/-- A delimiter that is found is found as well when more text is pending. -/
theorem advance_extend (unnested : Unnested specs)
    (advanced : advance specs parser = some (next, out)) (more : Text) :
    advance specs (parser.extend more) = some (next.extend more, out) := by
  obtain ⟨pending, active⟩ := parser
  cases active with
  | some active =>
      obtain ⟨closeIdx, found, same⟩ := Option.map_eq_some_iff.mp advanced
      have fits : closeIdx + active.close.length ≤ pending.length :=
        fits_of_find active.closeNonempty found
      cases same
      have found' := find_append active.closeNonempty found more
      simp only [advance, extend, found', Option.map_some]
      rw [List.drop_append_of_le_length (by omega), List.take_append_of_le_length (by omega)]
  | none =>
      obtain ⟨⟨openIdx, spec⟩, found, same⟩ := Option.map_eq_some_iff.mp advanced
      have fits : openIdx + spec.openDelimiter.length ≤ pending.length :=
        fits_of_findNextOpen found
      cases same
      have found' := findNextOpen_append unnested found more
      simp only [advance, extend, found', Option.map_some]
      rw [List.drop_append_of_le_length (by omega), List.take_append_of_le_length (by omega)]

/-- Inside of a tag, what the last round takes for content is content in any case. -/
theorem drive_extend_of_active (absent : find active.close pending = none) (more : Text) :
    drive specs (extend ⟨pending, some active⟩ more) =
      ((drive specs ((settle specs ⟨pending, some active⟩).1.extend more)).1,
        (settle specs ⟨pending, some active⟩).2 ++
          (drive specs ((settle specs ⟨pending, some active⟩).1.extend more)).2) := by
  have hold := isHold_longestSuffixPrefixLen pending active.close
  generalize cutIs : pending.length - longestSuffixPrefixLen pending active.close = cut at hold
  let grown : ActiveTag τ := { active with content := active.content ++ pending.take cut }
  have settled : settle specs ⟨pending, some active⟩ =
      (⟨pending.drop cut, some grown⟩, .empty) := by
    simp only [settle, cutIs, grown]
  have moved := find_append_of_isHold active.closeNonempty absent hold more
  rw [settled]
  cases found : find active.close (pending.drop cut ++ more) with
  | some closeIdx =>
      rw [found, Option.map_some] at moved
      have before : advance specs (extend ⟨pending, some active⟩ more) =
          some (⟨(pending ++ more).drop (cut + closeIdx + active.close.length), none⟩,
            ⟨[], [⟨active.tag, active.content ++ (pending ++ more).take (cut + closeIdx)⟩]⟩) := by
        simp only [advance, extend, moved, Option.map_some]
      have behind : advance specs (extend ⟨pending.drop cut, some grown⟩ more) =
          some (⟨(pending ++ more).drop (cut + closeIdx + active.close.length), none⟩,
            ⟨[], [⟨active.tag, active.content ++ (pending ++ more).take (cut + closeIdx)⟩]⟩) := by
        simp only [advance, extend, grown, found, Option.map_some, Nat.add_assoc,
          drop_append_add hold.within, take_append_add hold.within, List.append_assoc]
      rw [drive_of_advance before, drive_of_advance behind]
      rfl
  | none =>
      rw [found, Option.map_none] at moved
      have before : advance specs (extend ⟨pending, some active⟩ more) = none := by
        simp only [advance, extend, moved, Option.map_none]
      have behind : advance specs (extend ⟨pending.drop cut, some grown⟩ more) = none := by
        simp only [advance, extend, grown, found, Option.map_none]
      have heldOn := hold.append_iff.mpr
        (isHold_longestSuffixPrefixLen (pending.drop cut ++ more) active.close)
      have cuts := (isHold_longestSuffixPrefixLen (pending ++ more) active.close).unique heldOn
      rw [drive_of_stop before, drive_of_stop behind]
      simp only [settle, extend, grown, cuts, drop_append_add hold.within,
        take_append_add hold.within, List.append_assoc]
      rfl

/-- Outside of the tags, what the last round lets through is let through in any case. -/
theorem drive_extend_of_inactive (absent : findNextOpen specs pending = none) (more : Text) :
    drive specs (extend ⟨pending, none⟩ more) =
      ((drive specs ((settle specs ⟨pending, none⟩).1.extend more)).1,
        (settle specs ⟨pending, none⟩).2 ++
          (drive specs ((settle specs ⟨pending, none⟩).1.extend more)).2) := by
  have hold := isHold_maxOpenPrefixSuffixLen specs pending
  generalize cutIs : pending.length - maxOpenPrefixSuffixLen specs pending = cut at hold
  have settled : settle specs ⟨pending, none⟩ =
      (⟨pending.drop cut, none⟩, ⟨pending.take cut, []⟩) := by
    simp only [settle, cutIs]
  have moved := findNextOpen_append_of_isHold absent hold more
  rw [settled]
  cases found : findNextOpen specs (pending.drop cut ++ more) with
  | some first =>
      obtain ⟨openIdx, spec⟩ := first
      rw [found, Option.map_some] at moved
      have before : advance specs (extend ⟨pending, none⟩ more) =
          some (⟨(pending ++ more).drop (cut + openIdx + spec.openDelimiter.length),
            some spec.opened⟩,
            ⟨(pending ++ more).take (cut + openIdx), []⟩) := by
        simp only [advance, extend, moved, Option.map_some]
      have behind : advance specs (extend ⟨pending.drop cut, none⟩ more) =
          some (⟨(pending ++ more).drop (cut + openIdx + spec.openDelimiter.length),
            some spec.opened⟩,
            ⟨(pending.drop cut ++ more).take openIdx, []⟩) := by
        simp only [advance, extend, found, Option.map_some, Nat.add_assoc,
          drop_append_add hold.within]
      rw [drive_of_advance before, drive_of_advance behind, take_append_add hold.within]
      refine Prod.ext rfl (StreamTextChunk.ext ?_ rfl)
      simp only [StreamTextChunk.visibleText_append, List.append_assoc]
  | none =>
      rw [found, Option.map_none] at moved
      have before : advance specs (extend ⟨pending, none⟩ more) = none := by
        simp only [advance, extend, moved, Option.map_none]
      have behind : advance specs (extend ⟨pending.drop cut, none⟩ more) = none := by
        simp only [advance, extend, found, Option.map_none]
      have heldOn := hold.append_iff.mpr
        (isHold_maxOpenPrefixSuffixLen specs (pending.drop cut ++ more))
      have cuts := (isHold_maxOpenPrefixSuffixLen specs (pending ++ more)).unique heldOn
      rw [drive_of_stop before, drive_of_stop behind]
      simp only [settle, extend, cuts, drop_append_add hold.within,
        take_append_add hold.within]
      rfl

theorem drive_extend_of_stop (stopped : advance specs parser = none) (more : Text) :
    drive specs (parser.extend more) =
      ((drive specs ((settle specs parser).1.extend more)).1,
        (settle specs parser).2 ++ (drive specs ((settle specs parser).1.extend more)).2) := by
  obtain ⟨pending, active⟩ := parser
  cases active with
  | some active => exact drive_extend_of_active (Option.map_eq_none_iff.mp stopped) more
  | none => exact drive_extend_of_inactive (Option.map_eq_none_iff.mp stopped) more

/-- The parser does not tell two chunks in turn from both of them at once. -/
theorem drive_extend (unnested : Unnested specs) (parser : InlineHiddenTagParser τ) (more : Text) :
    drive specs (parser.extend more) =
      ((drive specs ((drive specs parser).1.extend more)).1,
        (drive specs parser).2 ++ (drive specs ((drive specs parser).1.extend more)).2) := by
  induction size : parser.pending.length using Nat.strongRecOn generalizing parser with
  | _ length ih =>
      cases advanced : advance specs parser with
      | none => rw [drive_of_stop advanced, drive_extend_of_stop advanced]
      | some round =>
          obtain ⟨next, out⟩ := round
          have shorter := length_pending_advance advanced
          have later := ih next.pending.length (by omega) next rfl
          rw [drive_of_advance advanced, drive_of_advance (advance_extend unnested advanced more),
            later]
          refine Prod.ext rfl (StreamTextChunk.ext ?_ ?_)
          · simp only [StreamTextChunk.visibleText_append, List.append_assoc]
          · simp only [StreamTextChunk.extracted_append, List.append_assoc]

theorem additive_visibleText (unnested : Unnested specs) :
    Additive (pushStr specs) StreamTextChunk.visibleText where
  state parser first second := by
    have same : parser.extend (first ++ second) = (parser.extend first).extend second := by
      simp only [extend, List.append_assoc]
    rw [pushStr, same, drive_extend unnested]
    rfl
  out parser first second := by
    have same : parser.extend (first ++ second) = (parser.extend first).extend second := by
      simp only [extend, List.append_assoc]
    rw [pushStr, same, drive_extend unnested]
    rfl

theorem additive_extracted (unnested : Unnested specs) :
    Additive (pushStr specs) StreamTextChunk.extracted where
  state := (additive_visibleText unnested).state
  out parser first second := by
    have same : parser.extend (first ++ second) = (parser.extend first).extend second := by
      simp only [extend, List.append_assoc]
    rw [pushStr, same, drive_extend unnested]
    rfl

theorem pushStr_new_nil : pushStr specs new [] = (new, .empty) := by
  have stopped : advance specs (new.extend []) = none := by
    simp only [advance, new, extend, List.append_nil, findNextOpen_nil, Option.map_none]
  rw [pushStr, drive_of_stop stopped]
  simp [settle, new, extend, StreamTextChunk.empty]

end Drive

/-! ### Chunks -/

section Chunks

variable {τ : Type*} {specs : List (InlineTagSpec τ)} {parser next : InlineHiddenTagParser τ}
variable {out : StreamTextChunk (ExtractedInlineTag τ)} {active : ActiveTag τ}
variable {spec : InlineTagSpec τ} {pending text : Text} {pos : ℕ}

/-- It does not matter how a text is cut. -/
def ChunkIndependent (specs : List (InlineTagSpec τ)) : Prop :=
  ∀ chunks, (parserFor specs).collectChunks new chunks =
    (parserFor specs).collectChunks new [chunks.flatten]

theorem chunkIndependent_of_unnested (unnested : Unnested specs) : ChunkIndependent specs :=
  fun chunks => StreamTextParser.collectChunks_eq (parserFor specs) new chunks
    (additive_visibleText unnested) (additive_extracted unnested) pushStr_new_nil

/-- What comes of the pending text, when nothing more comes. -/
def conclude (specs : List (InlineTagSpec τ)) (parser : InlineHiddenTagParser τ) :
    StreamTextChunk (ExtractedInlineTag τ) :=
  (drive specs parser).2 ++ (finish (drive specs parser).1).2

theorem collectChunks_singleton (text : Text) :
    (parserFor specs).collectChunks new [text] = conclude specs ⟨text, none⟩ := rfl

theorem conclude_of_advance (advanced : advance specs parser = some (next, out)) :
    conclude specs parser = out ++ conclude specs next := by
  rw [conclude, conclude, drive_of_advance advanced]
  refine StreamTextChunk.ext ?_ ?_
  · simp only [StreamTextChunk.visibleText_append, List.append_assoc]
  · simp only [StreamTextChunk.extracted_append, List.append_assoc]

/-- A tag is closed at the first close delimiter. -/
theorem conclude_of_close {closeIdx : ℕ} (found : find active.close pending = some closeIdx) :
    conclude specs ⟨pending, some active⟩ =
      ⟨[], [⟨active.tag, active.content ++ pending.take closeIdx⟩]⟩ ++
        conclude specs ⟨pending.drop (closeIdx + active.close.length), none⟩ :=
  conclude_of_advance (by simp only [advance, found, Option.map_some])

/-- A tag without a close delimiter has all of the text. -/
theorem conclude_of_unclosed (absent : find active.close pending = none) :
    conclude specs ⟨pending, some active⟩ =
      ⟨[], [⟨active.tag, active.content ++ pending⟩]⟩ := by
  have stopped : advance specs ⟨pending, some active⟩ = none := by
    simp only [advance, absent, Option.map_none]
  rw [conclude, drive_of_stop stopped]
  simp only [settle, finish, List.append_assoc, List.take_append_drop]
  rfl

/-- A tag is opened where a spec is found. -/
theorem conclude_of_open (found : findNextOpen specs pending = some (pos, spec)) :
    conclude specs ⟨pending, none⟩ = ⟨pending.take pos, []⟩ ++
      conclude specs ⟨pending.drop (pos + spec.openDelimiter.length), some spec.opened⟩ :=
  conclude_of_advance (by simp only [advance, found, Option.map_some])

/-- A text without open delimiters is visible. -/
theorem conclude_of_unopened (absent : findNextOpen specs pending = none) :
    conclude specs ⟨pending, none⟩ = ⟨pending, []⟩ := by
  have stopped : advance specs ⟨pending, none⟩ = none := by
    simp only [advance, absent, Option.map_none]
  rw [conclude, drive_of_stop stopped]
  refine StreamTextChunk.ext ?_ rfl
  simp only [settle, finish, StreamTextChunk.visibleText_append, List.take_append_drop]

theorem extracted_conclude_active_ne_nil :
    (conclude specs ⟨pending, some active⟩).extracted ≠ [] := by
  cases found : find active.close pending with
  | some closeIdx =>
      rw [conclude_of_close found]
      exact List.cons_ne_nil _ _
  | none =>
      rw [conclude_of_unclosed found]
      exact List.cons_ne_nil _ _

/-- Outside of the tags, text does not vanish. -/
theorem conclude_inactive_ne (nonempty : pending ≠ []) :
    (conclude specs ⟨pending, none⟩).visibleText ≠ [] ∨
      (conclude specs ⟨pending, none⟩).extracted ≠ [] := by
  cases found : findNextOpen specs pending with
  | some first =>
      rw [conclude_of_open found]
      exact .inr extracted_conclude_active_ne_nil
  | none =>
      rw [conclude_of_unopened found]
      exact .inl nonempty

theorem find_nil (nonempty : text ≠ []) : find text [] = none := by
  rw [find, if_neg nonempty]

/-- A chunk that ends in the first open delimiter that it has leaves the parser inside of the
tag. -/
theorem collectChunks_pair (found : findNextOpen specs text = some (pos, spec))
    (ends : text.length = pos + spec.openDelimiter.length) (more : Text) :
    (parserFor specs).collectChunks new [text, more] =
      ⟨text.take pos, []⟩ ++ conclude specs ⟨more, some spec.opened⟩ := by
  have advanced : advance specs ⟨text, none⟩ =
      some (⟨[], some spec.opened⟩, ⟨text.take pos, []⟩) := by
    simp only [advance, found, Option.map_some, ← ends, List.drop_length]
  have stopped : advance specs ⟨[], some spec.opened⟩ = none := by
    simp only [advance, InlineTagSpec.opened, find_nil spec.closeNonempty, Option.map_none]
  have pushed : pushStr specs new text =
      (⟨[], some spec.opened⟩, ⟨text.take pos, []⟩) := by
    have start : (new : InlineHiddenTagParser τ).extend text = ⟨text, none⟩ := rfl
    rw [pushStr, start, drive_of_advance advanced, drive_of_stop stopped]
    refine Prod.ext ?_ (StreamTextChunk.ext ?_ rfl)
    · simp [settle, InlineTagSpec.opened]
    · exact List.append_nil _
  have run : feed (pushStr specs) new [text, more] =
      ((pushStr specs ⟨[], some spec.opened⟩ more).1, [⟨text.take pos, []⟩,
        (pushStr specs ⟨[], some spec.opened⟩ more).2]) := by
    simp only [feed, pushed]
  rw [StreamTextParser.collectChunks]
  simp only [parserFor, run]
  rfl

/-! ### Nested delimiters -/

theorem Leads.of_append {more : Text} {idx : ℕ} (leads : Leads specs (text ++ more) pos spec idx)
    (fits : pos + spec.openDelimiter.length ≤ text.length) : Leads specs text pos spec idx :=
  ⟨leads.held, leads.occurs.of_append fits,
    fun other idx' held' pos' occurs => leads.least other idx' held' pos' (occurs.append more)⟩

/-- Another open delimiter is complete inside of this one before its end. -/
def Nests (specs : List (InlineTagSpec τ)) (spec : InlineTagSpec τ) : Prop :=
  ∃ other ∈ specs, other.openDelimiter <:+: spec.openDelimiter.dropLast

/-- The longest delimiter that nests another one is found in front of any text. -/
theorem exists_found_of_longest (member : spec ∈ specs) (nests : Nests specs spec)
    (longest : ∀ other ∈ specs, Nests specs other →
      other.openDelimiter.length ≤ spec.openDelimiter.length) :
    ∃ chosen : InlineTagSpec τ, chosen.openDelimiter = spec.openDelimiter ∧
      ∀ more, findNextOpen specs (spec.openDelimiter ++ more) = some (0, chosen) := by
  have begins : OccursAt spec.openDelimiter spec.openDelimiter 0 := List.prefix_refl _
  obtain ⟨⟨pos, chosen⟩, found⟩ :
      ∃ first, findNextOpen specs spec.openDelimiter = some first := by
    rw [← Option.ne_none_iff_exists']
    exact fun absent => findNextOpen_eq_none_iff.mp absent spec member 0 begins
  obtain ⟨idx, leads⟩ := findNextOpen_eq_some_iff.mp found
  have fits := leads.occurs.fits chosen.openNonempty
  obtain ⟨idx', held⟩ := List.mem_iff_getElem?.mp member
  have least := leads.least spec idx' held 0 begins
  rw [openKey_le_iff] at least
  obtain rfl : pos = 0 := by omega
  have whole : chosen.openDelimiter <+: spec.openDelimiter := leads.occurs
  have same : chosen.openDelimiter = spec.openDelimiter := whole.eq_of_length_le (by omega)
  refine ⟨chosen, same, fun more => findNextOpen_eq_some_iff.mpr ⟨idx, leads.held,
    leads.occurs.append more, fun other idx' held' pos' occurs => ?_⟩⟩
  by_cases short : pos' + other.openDelimiter.length ≤ spec.openDelimiter.length
  · exact leads.least other idx' held' pos' (occurs.of_append short)
  · rw [openKey_le_iff]
    refine .inl (Nat.pos_of_ne_zero ?_)
    rintro rfl
    -- A longer delimiter at the same place nests all that this one nests.
    obtain ⟨inner, isSpec, inside⟩ := nests
    have within : spec.openDelimiter <+: other.openDelimiter :=
      List.prefix_of_prefix_length_le (List.prefix_append _ _) occurs (by omega)
    have shorter : spec.openDelimiter.dropLast <+: other.openDelimiter.dropLast := by
      refine List.prefix_of_prefix_length_le ((List.dropLast_prefix _).trans within)
        (List.dropLast_prefix _) ?_
      rw [List.length_dropLast, List.length_dropLast]
      omega
    have bounded := longest other (List.mem_of_getElem? held')
      ⟨inner, isSpec, inside.trans shorter.isInfix⟩
    omega

/-- The delimiter has a beginning, and something behind it, that ends in the first delimiter inside
of it. -/
theorem exists_cut_of_nests (nests : Nests specs spec) :
    ∃ first front rest pos, spec.openDelimiter = front ++ rest ∧ rest ≠ [] ∧
      findNextOpen specs front = some (pos, first) ∧
      front.length = pos + first.openDelimiter.length := by
  obtain ⟨inner, isSpec, before, behind, whole⟩ := nests
  obtain ⟨⟨pos, first⟩, found⟩ :
      ∃ first, findNextOpen specs spec.openDelimiter.dropLast = some first := by
    rw [← Option.ne_none_iff_exists']
    intro absent
    refine findNextOpen_eq_none_iff.mp absent inner isSpec before.length ?_
    rw [OccursAt, ← whole, List.append_assoc, List.drop_left]
    exact List.prefix_append _ _
  obtain ⟨idx, leads⟩ := findNextOpen_eq_some_iff.mp found
  have fits := leads.occurs.fits first.openNonempty
  rw [List.length_dropLast] at fits
  have positive := List.length_pos_of_ne_nil spec.openNonempty
  refine ⟨first, spec.openDelimiter.take (pos + first.openDelimiter.length),
    spec.openDelimiter.drop (pos + first.openDelimiter.length), pos,
    (List.take_append_drop _ _).symm, ?_, ?_, ?_⟩
  · rw [Ne, List.drop_eq_nil_iff]
    omega
  · have parts : spec.openDelimiter.take (pos + first.openDelimiter.length) ++
        spec.openDelimiter.dropLast.drop (pos + first.openDelimiter.length) =
          spec.openDelimiter.dropLast := by
      have front : spec.openDelimiter.dropLast.take (pos + first.openDelimiter.length) =
          spec.openDelimiter.take (pos + first.openDelimiter.length) := by
        rw [List.dropLast_eq_take, List.take_take, Nat.min_eq_left fits]
      rw [← front, List.take_append_drop]
    rw [← parts] at leads
    refine findNextOpen_eq_some_iff.mpr ⟨idx, leads.of_append ?_⟩
    rw [List.length_take]
    omega
  · rw [List.length_take]
    omega

/-- Where delimiters are nested, a text is not parsed the same in two chunks: the longest one that
nests another one, or that one and what closes it. -/
theorem unnested_of_chunkIndependent (independent : ChunkIndependent specs) : Unnested specs := by
  by_contra nested
  obtain ⟨spec, ⟨member, nests⟩, longest⟩ : ∃ spec, (spec ∈ specs ∧ Nests specs spec) ∧
      ∀ other ∈ specs, Nests specs other →
        other.openDelimiter.length ≤ spec.openDelimiter.length := by
    have finite : {spec | spec ∈ specs ∧ Nests specs spec}.Finite :=
      specs.finite_toSet.subset fun spec both => both.1
    have inhabited : {spec | spec ∈ specs ∧ Nests specs spec}.Nonempty := by
      by_contra empty
      exact nested fun spec member other isSpec inside =>
        empty ⟨spec, member, other, isSpec, inside⟩
    obtain ⟨spec, nests, maximal⟩ :=
      finite.exists_maximalFor (fun spec => spec.openDelimiter.length) _ inhabited
    refine ⟨spec, nests, fun other member nestsOther => ?_⟩
    by_contra longer
    exact longer (maximal ⟨member, nestsOther⟩ (Nat.le_of_not_le longer))
  obtain ⟨chosen, same, opens⟩ := exists_found_of_longest member nests longest
  obtain ⟨first, front, rest, pos, whole, restNonempty, found, ends⟩ := exists_cut_of_nests nests
  have both (more : Text) : ⟨[], []⟩ ++ conclude specs ⟨more, some chosen.opened⟩ =
      ⟨front.take pos, []⟩ ++ conclude specs ⟨rest ++ more, some first.opened⟩ := by
    have behind : (spec.openDelimiter ++ more).drop (0 + chosen.openDelimiter.length) = more := by
      rw [same, Nat.zero_add, List.drop_left]
    have once := conclude_of_open (opens more)
    rw [behind] at once
    have cut := independent [front, rest ++ more]
    have joined : [front, rest ++ more].flatten = spec.openDelimiter ++ more := by
      simp [whole]
    rw [joined, collectChunks_singleton, once, collectChunks_pair found ends] at cut
    exact cut.symm
  have extracted (more : Text) : (conclude specs ⟨more, some chosen.opened⟩).extracted =
      (conclude specs ⟨rest ++ more, some first.opened⟩).extracted := by
    have sameExtracted := congrArg StreamTextChunk.extracted (both more)
    exact sameExtracted
  have visible (more : Text) : (conclude specs ⟨more, some chosen.opened⟩).visibleText =
      front.take pos ++ (conclude specs ⟨rest ++ more, some first.opened⟩).visibleText := by
    have sameVisible := congrArg StreamTextChunk.visibleText (both more)
    exact sameVisible
  have vanishes {left : Text} (noVisible : (conclude specs ⟨left, none⟩).visibleText = [])
      (noExtracted : (conclude specs ⟨left, none⟩).extracted = []) : left = [] := by
    by_contra nonempty
    have remains : (conclude specs ⟨left, none⟩).visibleText ≠ [] ∨
        (conclude specs ⟨left, none⟩).extracted ≠ [] := conclude_inactive_ne nonempty
    obtain shown | hidden := remains
    · exact shown noVisible
    · exact hidden noExtracted
  -- The delimiter alone: what is behind the first one is exactly what closes that one.
  have extractedAlone := extracted []
  have visibleAlone := visible []
  rw [List.append_nil, conclude_of_unclosed (find_nil chosen.closeNonempty)]
    at extractedAlone visibleAlone
  cases closes : find first.closeDelimiter rest with
  | none =>
      rw [conclude_of_unclosed closes] at extractedAlone
      obtain ⟨-, empty⟩ : chosen.tag = first.tag ∧ rest = [] := by
        simpa [InlineTagSpec.opened] using extractedAlone
      exact restNonempty empty
  | some closeIdx =>
      rw [conclude_of_close closes] at extractedAlone visibleAlone
      obtain ⟨⟨-, noContent⟩, noExtracted⟩ :
          (chosen.tag = first.tag ∧ (closeIdx = 0 ∨ rest = [])) ∧
            (conclude specs ⟨rest.drop (closeIdx + first.closeDelimiter.length), none⟩).extracted =
              [] := by
        simpa [InlineTagSpec.opened] using extractedAlone
      obtain rfl : closeIdx = 0 := noContent.resolve_right restNonempty
      obtain ⟨-, noVisible⟩ := List.append_eq_nil_iff.mp visibleAlone.symm
      have consumed := vanishes noVisible noExtracted
      rw [Nat.zero_add, List.drop_eq_nil_iff] at consumed
      -- The delimiter and what closes it: the latter is left over behind the first one.
      have extractedClosed := extracted chosen.closeDelimiter
      have visibleClosed := visible chosen.closeDelimiter
      have ownClose : find chosen.opened.close chosen.closeDelimiter = some 0 :=
        (find_eq_some_iff chosen.closeNonempty).mpr
          ⟨List.prefix_refl _, fun j less => absurd less (Nat.not_lt_zero j)⟩
      have stillCloses : find first.opened.close (rest ++ chosen.closeDelimiter) = some 0 :=
        find_append first.closeNonempty closes chosen.closeDelimiter
      obtain ⟨occurs, -⟩ := (find_eq_some_iff first.closeNonempty).mp closes
      have fits : 0 + first.opened.close.length ≤ rest.length := occurs.fits first.closeNonempty
      have size : rest.length = 0 + first.opened.close.length := by omega
      have left : (rest ++ chosen.closeDelimiter).drop (0 + first.opened.close.length) =
          chosen.closeDelimiter := List.drop_left' size
      have nothing : chosen.closeDelimiter.drop (0 + chosen.opened.close.length) = [] :=
        List.drop_eq_nil_of_le (Nat.le_of_eq (Nat.zero_add _).symm)
      rw [conclude_of_close ownClose, conclude_of_close stillCloses, nothing, left,
        conclude_of_unopened findNextOpen_nil] at extractedClosed visibleClosed
      obtain ⟨-, noVisible⟩ := List.append_eq_nil_iff.mp visibleClosed.symm
      obtain ⟨-, noExtracted⟩ : (chosen.opened.tag = first.opened.tag ∧
          chosen.opened.content = first.opened.content) ∧
            (conclude specs ⟨chosen.closeDelimiter, none⟩).extracted = [] := by
        simpa using extractedClosed
      exact chosen.closeNonempty (vanishes noVisible noExtracted)

end Chunks

end InlineHiddenTagParser

open InlineHiddenTagParser

/-- It does not matter how a text is cut exactly when no open delimiter is complete inside of
another one before the end of that one. -/
theorem chunkIndependent_iff {τ : Type*} (specs : List (InlineTagSpec τ)) :
    ChunkIndependent specs ↔ ∀ spec ∈ specs, ∀ other ∈ specs,
      ¬other.openDelimiter <:+: spec.openDelimiter.dropLast :=
  ⟨unnested_of_chunkIndependent, chunkIndependent_of_unnested⟩

/-- A spec that is opened by `<b`. -/
def shortSpec : InlineTagSpec Bool where
  tag := true
  openDelimiter := ['<', 'b']
  closeDelimiter := ['>']
  openNonempty := List.cons_ne_nil _ _
  closeNonempty := List.cons_ne_nil _ _

/-- A spec that is opened by `<bi`. -/
def longSpec : InlineTagSpec Bool where
  tag := false
  openDelimiter := ['<', 'b', 'i']
  closeDelimiter := ['>']
  openNonempty := List.cons_ne_nil _ _
  closeNonempty := List.cons_ne_nil _ _

/-- The short one wins when it comes first, and the long one when the text comes at once. -/
theorem not_chunkIndependent_shortLong :
    (parserFor [shortSpec, longSpec]).collectChunks new [['<', 'b'], ['i', '>']] =
        ⟨[], [⟨true, ['i']⟩]⟩ ∧
      (parserFor [shortSpec, longSpec]).collectChunks new [['<', 'b', 'i', '>']] =
        ⟨[], [⟨false, []⟩]⟩ ∧
      ¬ChunkIndependent [shortSpec, longSpec] := by
  have shortFound : findNextOpen [shortSpec, longSpec] ['<', 'b'] = some (0, shortSpec) := rfl
  have longFound : findNextOpen [shortSpec, longSpec] ['<', 'b', 'i', '>'] =
      some (0, longSpec) := rfl
  have shortCloses : find shortSpec.opened.close ['i', '>'] = some 1 := by decide
  have longCloses : find longSpec.opened.close ['>'] = some 0 := by decide
  have cut : (parserFor [shortSpec, longSpec]).collectChunks new [['<', 'b'], ['i', '>']] =
      ⟨[], [⟨true, ['i']⟩]⟩ := by
    rw [collectChunks_pair shortFound rfl, conclude_of_close shortCloses]
    exact congrArg _ (congrArg _ (conclude_of_unopened findNextOpen_nil))
  have whole : (parserFor [shortSpec, longSpec]).collectChunks new [['<', 'b', 'i', '>']] =
      ⟨[], [⟨false, []⟩]⟩ := by
    have behind : ['<', 'b', 'i', '>'].drop (0 + longSpec.openDelimiter.length) = ['>'] := rfl
    rw [collectChunks_singleton, conclude_of_open longFound, behind, conclude_of_close longCloses]
    exact congrArg _ (congrArg _ (conclude_of_unopened findNextOpen_nil))
  refine ⟨cut, whole, fun independent => ?_⟩
  have same := (cut.symm.trans (independent [['<', 'b'], ['i', '>']])).trans whole
  exact absurd same (by decide)

end CodexPilot.StreamParser
