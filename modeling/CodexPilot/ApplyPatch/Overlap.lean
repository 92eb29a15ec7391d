import CodexPilot.ApplyPatch.Replace
import CodexPilot.Library.Splices

/-!
# Replacements that overlap

A search for lines goes through four levels of strictness, and at each level through the positions
from its start on.  At the end of a file the only position is the last one, and it is tried even
when the search should begin behind it.

Every search begins behind the lines that the chunks before have found, but for the chunks at the
end of a file, and additions are put in front of an empty last line.  So replacements overlap when
the last lines of a file are found although something in front of the end has been replaced or put
there, or when an addition follows a replacement of the empty last line.
-/

namespace CodexPilot.ApplyPatch

open RustStd Splices

/-- The levels of strictness, the strictest first. -/
def levels : List (Text → Text) := [id, Text.trimEnd, Text.trim, normalise]

section Positions

variable (lines pattern : List Text) (start : ℕ)

/-- The pattern matches at a position at some level. -/
def MatchesSome (index : ℕ) : Prop := ∃ view ∈ levels, matchesAt view lines pattern index = true

instance (index : ℕ) : Decidable (MatchesSome lines pattern index) :=
  inferInstanceAs (Decidable (∃ view ∈ levels, matchesAt view lines pattern index = true))

/-- A position from the start on with room for the pattern. -/
def Admissible (index : ℕ) : Prop := start ≤ index ∧ index + pattern.length ≤ lines.length

/-- The first position at the strictest level at which there is one. -/
def IsStrictest (index : ℕ) : Prop :=
  ∃ stricter view looser, levels = stricter ++ view :: looser ∧
    matchesAt view lines pattern index = true ∧
    (∀ other, Admissible lines pattern start other → matchesAt view lines pattern other = true →
      index ≤ other) ∧
    ∀ level ∈ stricter, ∀ other, Admissible lines pattern start other →
      ¬matchesAt level lines pattern other = true

end Positions

section Passes

variable {view : Text → Text} {lines pattern : List Text} {start index : ℕ} {eof : Bool}

theorem seekPass_eq_some_iff (room : pattern.length ≤ lines.length) :
    seekPass view lines pattern start = some index ↔
      Admissible lines pattern start index ∧ matchesAt view lines pattern index = true ∧
        ∀ other, Admissible lines pattern start other →
          matchesAt view lines pattern other = true → index ≤ other := by
  rw [seekPass, List.find?_range'_eq_some, List.mem_range'_1]
  constructor
  · rintro ⟨isMatch, ⟨behind, inside⟩, least⟩
    refine ⟨⟨behind, by omega⟩, isMatch, fun other admissible otherMatch => ?_⟩
    by_contra earlier
    have missed := least other admissible.1 (Nat.lt_of_not_le earlier)
    rw [otherMatch] at missed
    cases missed
  · rintro ⟨⟨behind, inside⟩, isMatch, least⟩
    refine ⟨isMatch, ⟨behind, by omega⟩, fun other otherBehind earlier => ?_⟩
    cases otherMatch : matchesAt view lines pattern other with
    | false => rfl
    | true =>
        have later := least other ⟨otherBehind, by omega⟩ otherMatch
        omega

theorem seekPass_eq_none_iff (room : pattern.length ≤ lines.length) :
    seekPass view lines pattern start = none ↔ ∀ other, Admissible lines pattern start other →
      ¬matchesAt view lines pattern other = true := by
  rw [seekPass, List.find?_range'_eq_none]
  constructor
  · intro missed other admissible isMatch
    have miss := missed other admissible.1 (by have := admissible.2; omega)
    rw [isMatch] at miss
    cases miss
  · intro missed other behind inside
    cases isMatch : matchesAt view lines pattern other with
    | false => rfl
    | true => exact absurd isMatch (missed other ⟨behind, by omega⟩)

/-- Where the passes over the lines begin. -/
def searchStart (lines pattern : List Text) (start : ℕ) (eof : Bool) : ℕ :=
  if eof = true then lines.length - pattern.length else start

theorem seekSequence_eq (nonempty : pattern ≠ []) (room : pattern.length ≤ lines.length) :
    seekSequence lines pattern start eof =
      levels.findSome? fun view =>
        seekPass view lines pattern (searchStart lines pattern start eof) := by
  rw [seekSequence, if_neg nonempty, if_neg (Nat.not_lt.mpr room), searchStart]
  simp only [room, and_true, levels, List.findSome?_cons, List.findSome?_nil]
  generalize (if eof = true then lines.length - pattern.length else start) = first
  cases seekPass id lines pattern first with
  | some index => rfl
  | none =>
      cases seekPass Text.trimEnd lines pattern first with
      | some index => rfl
      | none =>
          cases seekPass Text.trim lines pattern first with
          | some index => rfl
          | none => cases seekPass normalise lines pattern first <;> rfl

/-- The search finds the first position at the strictest level. -/
theorem seekSequence_eq_some_iff (nonempty : pattern ≠ []) (room : pattern.length ≤ lines.length) :
    seekSequence lines pattern start eof = some index ↔
      Admissible lines pattern (searchStart lines pattern start eof) index ∧
        IsStrictest lines pattern (searchStart lines pattern start eof) index := by
  rw [seekSequence_eq nonempty room, List.findSome?_eq_some_iff]
  simp only [seekPass_eq_some_iff room, seekPass_eq_none_iff room]
  constructor
  · rintro ⟨stricter, view, looser, split, ⟨admissible, isMatch, least⟩, missed⟩
    exact ⟨admissible, stricter, view, looser, split, isMatch, least, missed⟩
  · rintro ⟨admissible, stricter, view, looser, split, isMatch, least, missed⟩
    exact ⟨stricter, view, looser, split, ⟨admissible, isMatch, least⟩, missed⟩

theorem seekSequence_eq_none_iff (nonempty : pattern ≠ []) (room : pattern.length ≤ lines.length) :
    seekSequence lines pattern start eof = none ↔ ∀ other,
      Admissible lines pattern (searchStart lines pattern start eof) other →
        ¬MatchesSome lines pattern other := by
  rw [seekSequence_eq nonempty room, List.findSome?_eq_none_iff]
  simp only [seekPass_eq_none_iff room, MatchesSome, not_exists, not_and]
  exact ⟨fun missed other admissible view level => missed view level other admissible,
    fun missed view level other admissible => missed other admissible view level⟩

theorem seekSequence_of_length_lt (nonempty : pattern ≠ []) (long : lines.length < pattern.length) :
    seekSequence lines pattern start eof = none := by
  rw [seekSequence, if_neg nonempty, if_pos long]

theorem IsStrictest.matchesSome (strictest : IsStrictest lines pattern start index) :
    MatchesSome lines pattern index := by
  obtain ⟨stricter, view, looser, split, isMatch, -, -⟩ := strictest
  exact ⟨view, split ▸ List.mem_append_right _ List.mem_cons_self, isMatch⟩

/-- What is found lies inside of the lines, behind the start or at the end. -/
theorem seekSequence_bounds (nonempty : pattern ≠ [])
    (found : seekSequence lines pattern start eof = some index) :
    index + pattern.length ≤ lines.length ∧ (eof = false → start ≤ index) ∧
      (eof = true → index + pattern.length = lines.length) := by
  obtain short | room := Nat.lt_or_ge lines.length pattern.length
  · rw [seekSequence_of_length_lt nonempty short] at found
    cases found
  · obtain ⟨⟨behind, inside⟩, -⟩ := (seekSequence_eq_some_iff nonempty room).mp found
    refine ⟨inside, ?_, ?_⟩
    · rintro rfl
      exact behind
    · rintro rfl
      rw [searchStart, if_pos rfl] at behind
      omega

/-- At the end of a file only the last position is tried. -/
theorem seekSequence_endOfFile (nonempty : pattern ≠ []) (room : pattern.length ≤ lines.length) :
    seekSequence lines pattern start true =
      if MatchesSome lines pattern (lines.length - pattern.length) then
        some (lines.length - pattern.length)
      else none := by
  cases found : seekSequence lines pattern start true with
  | none =>
      have missed := (seekSequence_eq_none_iff nonempty room).mp found
        (lines.length - pattern.length) ⟨le_rfl, (Nat.sub_add_cancel room).le⟩
      rw [if_neg missed]
  | some index =>
      obtain ⟨-, -, last⟩ := seekSequence_bounds nonempty found
      have position : index = lines.length - pattern.length := by
        have inside := last rfl
        omega
      have isMatch := ((seekSequence_eq_some_iff nonempty room).mp found).2.matchesSome
      rw [position] at isMatch
      rw [if_pos isMatch, position]

end Passes

/-! ## The contract of the search -/

section Contract

variable (lines pattern : List Text) (start : ℕ) (eof : Bool)

/-- What a search is to find: at the end of a file the last position when it matches at some level,
and otherwise the first position from the start on at the strictest level; nothing only when no
position from the start on matches. -/
def MeetsContract : Option ℕ → Prop
  | some index =>
      Admissible lines pattern start index ∧
        (eof = true ∧ index + pattern.length = lines.length ∧ MatchesSome lines pattern index ∨
          (eof = true → ¬(Admissible lines pattern start (lines.length - pattern.length) ∧
            MatchesSome lines pattern (lines.length - pattern.length))) ∧
              IsStrictest lines pattern start index)
  | none => ∀ index, Admissible lines pattern start index → ¬MatchesSome lines pattern index

/-- At the end of a file, the last position matches and is not in front of the start, or no position
from the start on matches. -/
def EndOfFileSuffices : Prop :=
  pattern.length ≤ lines.length →
    if MatchesSome lines pattern (lines.length - pattern.length) then
      start ≤ lines.length - pattern.length
    else ∀ index, Admissible lines pattern start index → ¬MatchesSome lines pattern index

variable {lines pattern start eof}

/-- The search meets its contract, but for the ends of files: there it does when only the last
position can be meant. -/
theorem meetsContract_iff (nonempty : pattern ≠ []) :
    MeetsContract lines pattern start eof (seekSequence lines pattern start eof) ↔
      (eof = true → EndOfFileSuffices lines pattern start) := by
  obtain short | room := Nat.lt_or_ge lines.length pattern.length
  · rw [seekSequence_of_length_lt nonempty short]
    refine iff_of_true (fun index admissible => ?_) fun _ long => ?_
    · have inside := admissible.2
      omega
    · omega
  cases eof with
  | false =>
      refine iff_of_true ?_ fun isEnd => absurd isEnd Bool.false_ne_true
      cases found : seekSequence lines pattern start false with
      | none => exact (seekSequence_eq_none_iff nonempty room).mp found
      | some index =>
          obtain ⟨admissible, strictest⟩ := (seekSequence_eq_some_iff nonempty room).mp found
          exact ⟨admissible, .inr ⟨fun isEnd => absurd isEnd Bool.false_ne_true, strictest⟩⟩
  | true =>
      have only : (true = true → EndOfFileSuffices lines pattern start) ↔
          if MatchesSome lines pattern (lines.length - pattern.length) then
            start ≤ lines.length - pattern.length
          else ∀ index, Admissible lines pattern start index → ¬MatchesSome lines pattern index :=
        ⟨fun holds => holds rfl room, fun holds _ _ => holds⟩
      rw [only, seekSequence_endOfFile nonempty room]
      split
      case isTrue isMatch =>
        have last : lines.length - pattern.length + pattern.length = lines.length :=
          Nat.sub_add_cancel room
        exact ⟨fun meets => meets.1.1, fun behind => ⟨⟨behind, last.le⟩, .inl ⟨rfl, last, isMatch⟩⟩⟩
      case isFalse => exact Iff.rfl

/-- A file in which the only line is not the last one. -/
def earlierLine : List Text := [['a'], ['b']]

/-- The line is found from the start on, but at the end of a file it is not looked for there. -/
theorem not_meetsContract_earlierLine :
    ¬MeetsContract earlierLine [['a']] 0 true (seekSequence earlierLine [['a']] 0 true) ∧
      seekSequence earlierLine [['a']] 0 false = some 0 := by
  refine ⟨fun meets => ?_, by decide⟩
  have missed : seekSequence earlierLine [['a']] 0 true = none := by decide
  rw [missed] at meets
  exact meets 0 ⟨le_rfl, by decide⟩ ⟨id, List.mem_cons_self, by decide⟩

theorem meetsContract_iff_earlierLine :
    MeetsContract earlierLine [['b']] 0 true (seekSequence earlierLine [['b']] 0 true) ↔
      (true = true → EndOfFileSuffices earlierLine [['b']] 0) :=
  meetsContract_iff (List.cons_ne_nil _ _)

end Contract

/-! ## What a chunk must stay clear of -/

/-- The line behind those that are replaced. -/
def Replacement.stop (replacement : Replacement) : ℕ := replacement.startIndex + replacement.oldLen

/-- A replacement as an edit of the lines. -/
def Replacement.edit (replacement : Replacement) : Edit Text where
  start := replacement.startIndex
  len := replacement.oldLen
  new := replacement.newLines

/-- The lines that are looked for: without an empty last one when they are not found with it. -/
def soughtLines (originalLines : List Text) (chunk : UpdateFileChunk) (lineIndex : ℕ) : List Text :=
  if seekSequence originalLines chunk.oldLines lineIndex chunk.isEndOfFile = none ∧
      chunk.oldLines.getLast? = some [] then
    chunk.oldLines.dropLast
  else chunk.oldLines

section Loop

variable (originalLines : List Text) (path : PathBuf)

/-- In a state of the loop, a chunk stays clear of the replacements so far: an addition, when they
take no line behind the place of additions, and a chunk whose lines are found at the end of the
file, when they are in front of these lines or behind the last one. -/
structure ChunkClear (replacements : List Replacement) (lineIndex : ℕ) (chunk : UpdateFileChunk) :
    Prop where
  addition : chunk.oldLines = [] → ∀ replacement ∈ replacements,
    replacement.oldLen = 0 ∨ replacement.stop ≤ (dropEmptyLast originalLines).length
  atEnd : chunk.oldLines ≠ [] → ∀ index,
    seekContext originalLines path chunk.changeContext lineIndex = .ok index →
    soughtLines originalLines chunk index ≠ [] →
    seekSequence originalLines (soughtLines originalLines chunk index) index chunk.isEndOfFile =
      some (originalLines.length - (soughtLines originalLines chunk index).length) →
    ∀ replacement ∈ replacements,
      replacement.stop ≤ originalLines.length - (soughtLines originalLines chunk index).length ∨
        originalLines.length ≤ replacement.startIndex

/-- Every chunk stays clear of the replacements of those before it. -/
def ChunksClear : List Replacement → ℕ → List UpdateFileChunk → Prop
  | _, _, [] => True
  | replacements, lineIndex, chunk :: chunks =>
      ChunkClear originalLines path replacements lineIndex chunk ∧
        ∀ replacement next,
          computeReplacement originalLines path lineIndex chunk = .ok (replacement, next) →
            ChunksClear (replacements ++ [replacement]) next chunks

end Loop

/-- Whichever of two replacements comes first stops before the other one starts; the earlier chunk
comes first when both start at one line. -/
def Apart (earlier later : Replacement) : Prop :=
  (earlier.startIndex ≤ later.startIndex → earlier.stop ≤ later.startIndex) ∧
    (later.startIndex < earlier.startIndex → later.stop ≤ earlier.startIndex)

/-- The replacements are in order and inside of the file, and each stops before the next one. -/
structure NeverOverlap (length : ℕ) (replacements : List Replacement) : Prop where
  sorted : replacements.Pairwise fun earlier later => earlier.startIndex ≤ later.startIndex
  inBounds : ∀ replacement ∈ replacements, replacement.startIndex + replacement.oldLen ≤ length
  consecutive : replacements.IsChain fun earlier next =>
    earlier.startIndex + earlier.oldLen ≤ next.startIndex

/-! ## A round of the loop -/

section Rounds

variable {originalLines : List Text} {path : PathBuf} {lineIndex next : ℕ}
  {chunk : UpdateFileChunk} {chunks : List UpdateFileChunk} {replacement : Replacement}
  {replacements : List Replacement}

theorem seekContext_bounds {changeContext : Option Text} {index : ℕ}
    (found : seekContext originalLines path changeContext lineIndex = .ok index)
    (inBounds : lineIndex ≤ originalLines.length) :
    lineIndex ≤ index ∧ index ≤ originalLines.length := by
  cases changeContext with
  | none =>
      cases found
      exact ⟨le_rfl, inBounds⟩
  | some contextLine =>
      rw [seekContext] at found
      cases position : seekSequence originalLines [contextLine] lineIndex false with
      | none =>
          rw [position] at found
          cases found
      | some before =>
          rw [position] at found
          cases found
          obtain ⟨inside, behind, -⟩ := seekSequence_bounds (List.cons_ne_nil _ _) position
          exact ⟨Nat.le_succ_of_le (behind rfl), inside⟩

/-- A chunk is an addition, or its lines are found. -/
theorem computeReplacement_cases
    (computed : computeReplacement originalLines path lineIndex chunk = .ok (replacement, next)) :
    ∃ index, seekContext originalLines path chunk.changeContext lineIndex = .ok index ∧
      (chunk.oldLines = [] ∧ replacement.startIndex = (dropEmptyLast originalLines).length ∧
          replacement.oldLen = 0 ∧ next = index ∨
        chunk.oldLines ≠ [] ∧
          seekSequence originalLines (soughtLines originalLines chunk index) index
            chunk.isEndOfFile = some replacement.startIndex ∧
          replacement.oldLen = (soughtLines originalLines chunk index).length ∧
          next = replacement.stop) := by
  rw [computeReplacement] at computed
  cases context : seekContext originalLines path chunk.changeContext lineIndex with
  | error error =>
      rw [context] at computed
      cases computed
  | ok index =>
      refine ⟨index, rfl, ?_⟩
      rw [context] at computed
      simp only [bind, Except.bind] at computed
      split at computed
      case isTrue noLines =>
        cases computed
        exact .inl ⟨noLines, rfl, rfl, rfl⟩
      case isFalse someLines =>
        refine .inr ⟨someLines, ?_⟩
        split at computed
        case h_1 startIndex found =>
          cases computed
          rw [soughtLines, if_neg (by simp [found])]
          exact ⟨found, rfl, rfl⟩
        case h_2 missed =>
          split at computed
          case isTrue emptyLast =>
            rw [soughtLines, if_pos ⟨missed, emptyLast⟩]
            split at computed
            case h_1 startIndex found =>
              cases computed
              exact ⟨found, rfl, rfl⟩
            case h_2 => cases computed
          case isFalse => cases computed

/-- What the loop knows: the lines behind its index are untouched, but for additions. -/
structure LoopState (originalLines : List Text) (replacements : List Replacement)
    (lineIndex : ℕ) : Prop where
  inBounds : lineIndex ≤ originalLines.length
  behind : ∀ replacement ∈ replacements, replacement.stop ≤ lineIndex ∨
    replacement.startIndex = (dropEmptyLast originalLines).length ∧ replacement.oldLen = 0

theorem length_dropEmptyLast (lines : List Text) :
    (dropEmptyLast lines).length ≤ lines.length ∧
      lines.length ≤ (dropEmptyLast lines).length + 1 := by
  rw [dropEmptyLast]
  split
  · rw [List.length_dropLast]
    omega
  · omega

theorem LoopState.stop_le (state : LoopState originalLines replacements lineIndex)
    (member : replacement ∈ replacements) : replacement.stop ≤ originalLines.length := by
  obtain located | ⟨start, none⟩ := state.behind replacement member
  · exact located.trans state.inBounds
  · rw [Replacement.stop, start, none]
    exact (length_dropEmptyLast originalLines).1

/-- Lines are found behind the index, or at the end of the file. -/
theorem seekSequence_located {pattern : List Text} {index start : ℕ} {eof : Bool}
    (inBounds : index ≤ originalLines.length)
    (found : seekSequence originalLines pattern index eof = some start) :
    start + pattern.length ≤ originalLines.length ∧ index ≤ start + pattern.length ∧
      (index ≤ start ∨ pattern ≠ [] ∧ start + pattern.length = originalLines.length) := by
  obtain rfl | nonempty := eq_or_ne pattern []
  · rw [seekSequence, if_pos rfl] at found
    cases found
    exact ⟨inBounds, le_rfl, .inl le_rfl⟩
  · obtain ⟨inside, behind, atEnd⟩ := seekSequence_bounds nonempty found
    cases eof with
    | false => exact ⟨inside, (behind rfl).trans (Nat.le_add_right _ _), .inl (behind rfl)⟩
    | true => exact ⟨inside, (atEnd rfl).symm ▸ inBounds, .inr ⟨nonempty, atEnd rfl⟩⟩

/-- A round of the loop keeps what the loop knows. -/
theorem LoopState.step (state : LoopState originalLines replacements lineIndex)
    (computed : computeReplacement originalLines path lineIndex chunk = .ok (replacement, next)) :
    LoopState originalLines (replacements ++ [replacement]) next := by
  obtain ⟨index, context, ⟨-, start, none, rfl⟩ | ⟨-, found, length, rfl⟩⟩ :=
    computeReplacement_cases computed
  · obtain ⟨later, inBounds⟩ := seekContext_bounds context state.inBounds
    refine ⟨inBounds, fun other member => ?_⟩
    obtain old | new := List.mem_append.mp member
    · exact (state.behind other old).imp_left later.trans'
    · rw [List.mem_singleton.mp new]
      exact .inr ⟨start, none⟩
  · obtain ⟨later, inBounds⟩ := seekContext_bounds context state.inBounds
    obtain ⟨inside, further, -⟩ := seekSequence_located inBounds found
    rw [← length] at inside further
    refine ⟨inside, fun other member => ?_⟩
    obtain old | new := List.mem_append.mp member
    · exact (state.behind other old).imp_left (later.trans further).trans'
    · rw [List.mem_singleton.mp new]
      exact .inl le_rfl

/-- An addition is apart from the replacements that take no line behind it. -/
theorem LoopState.apart_addition (state : LoopState originalLines replacements lineIndex)
    (start : replacement.startIndex = (dropEmptyLast originalLines).length)
    (none : replacement.oldLen = 0) {earlier : Replacement} (member : earlier ∈ replacements) :
    Apart earlier replacement ↔
      earlier.oldLen = 0 ∨ earlier.stop ≤ (dropEmptyLast originalLines).length := by
  have inside := state.stop_le member
  have place := length_dropEmptyLast originalLines
  rw [Apart, Replacement.stop, Replacement.stop, start, none]
  rw [Replacement.stop] at inside
  omega

/-- A chunk whose lines are found is apart from the earlier replacements, unless the lines are those
at the end of the file. -/
theorem LoopState.apart_located (state : LoopState originalLines replacements lineIndex)
    (inside : replacement.stop ≤ originalLines.length)
    (located : lineIndex ≤ replacement.startIndex ∨
      0 < replacement.oldLen ∧ replacement.stop = originalLines.length)
    {earlier : Replacement} (member : earlier ∈ replacements) :
    Apart earlier replacement ↔
      (0 < replacement.oldLen → replacement.stop = originalLines.length →
        earlier.stop ≤ replacement.startIndex ∨ originalLines.length ≤ earlier.startIndex) := by
  have place := length_dropEmptyLast originalLines
  have behind := state.behind earlier member
  have bound := state.stop_le member
  rw [Apart]
  rw [Replacement.stop] at *
  rw [Replacement.stop] at *
  omega

/-- In a round of the loop, the new replacement is apart from the old ones when the chunk stays
clear of them. -/
theorem LoopState.apart_iff (state : LoopState originalLines replacements lineIndex)
    (computed : computeReplacement originalLines path lineIndex chunk = .ok (replacement, next)) :
    (∀ earlier ∈ replacements, Apart earlier replacement) ↔
      ChunkClear originalLines path replacements lineIndex chunk := by
  obtain ⟨index, context, ⟨noLines, start, none, rfl⟩ | ⟨someLines, found, length, rfl⟩⟩ :=
    computeReplacement_cases computed
  · constructor
    · intro apart
      refine ⟨fun _ earlier member => ?_, fun someLines => absurd noLines someLines⟩
      exact (state.apart_addition start none member).mp (apart earlier member)
    · intro clear earlier member
      exact (state.apart_addition start none member).mpr (clear.addition noLines earlier member)
  · obtain ⟨later, inBounds⟩ := seekContext_bounds context state.inBounds
    obtain ⟨inside, -, located⟩ := seekSequence_located inBounds found
    rw [← length] at inside located
    have away : lineIndex ≤ replacement.startIndex ∨
        0 < replacement.oldLen ∧ replacement.stop = originalLines.length := by
      refine located.imp later.trans fun ⟨nonempty, last⟩ => ⟨?_, last⟩
      rw [length]
      exact List.length_pos_of_ne_nil nonempty
    have each {earlier : Replacement} (member : earlier ∈ replacements) :=
      state.apart_located inside away member
    constructor
    · intro apart
      refine ⟨fun noLines => absurd noLines someLines, ?_⟩
      intro _ other otherContext nonempty last earlier member
      cases context.symm.trans otherContext
      have start := Option.some.inj (found.symm.trans last)
      rw [← length] at start ⊢
      have positive : 0 < replacement.oldLen := by
        rw [length]
        exact List.length_pos_of_ne_nil nonempty
      have stop : replacement.stop = originalLines.length := by
        rw [Replacement.stop]
        omega
      rw [← start]
      exact (each member).mp (apart earlier member) positive stop
    · intro clear earlier member
      refine (each member).mpr fun positive stop => ?_
      have start : replacement.startIndex = originalLines.length - replacement.oldLen := by
        rw [Replacement.stop] at stop
        omega
      have nonempty : soughtLines originalLines chunk index ≠ [] := by
        rw [length] at positive
        exact List.ne_nil_of_length_pos positive
      rw [length] at start
      rw [start] at found ⊢
      exact clear.atEnd someLines index context nonempty found earlier member

/-! ## The loop -/

theorem collectReplacements_cons
    (collected : collectReplacements originalLines path (chunk :: chunks) lineIndex =
      .ok replacements) :
    ∃ replacement next rest,
      computeReplacement originalLines path lineIndex chunk = .ok (replacement, next) ∧
        collectReplacements originalLines path chunks next = .ok rest ∧
          replacements = replacement :: rest := by
  rw [collectReplacements] at collected
  cases computed : computeReplacement originalLines path lineIndex chunk with
  | error error =>
      rw [computed] at collected
      cases collected
  | ok first =>
      rw [computed] at collected
      simp only [bind, Except.bind] at collected
      cases others : collectReplacements originalLines path chunks first.2 with
      | error error =>
          rw [others] at collected
          cases collected
      | ok rest =>
          rw [others] at collected
          cases collected
          exact ⟨first.1, first.2, rest, rfl, others, rfl⟩

/-- The loop finds replacements inside of the file, and they are apart exactly when every chunk
stays clear of those before it. -/
theorem LoopState.run {found : List Replacement}
    (state : LoopState originalLines replacements lineIndex)
    (collected : collectReplacements originalLines path chunks lineIndex = .ok found) :
    (∀ replacement ∈ found, replacement.stop ≤ originalLines.length) ∧
      (replacements.Pairwise Apart →
        ((replacements ++ found).Pairwise Apart ↔
          ChunksClear originalLines path replacements lineIndex chunks)) := by
  induction chunks generalizing replacements lineIndex found with
  | nil =>
      cases collected
      refine ⟨fun _ member => absurd member List.not_mem_nil, fun apart => ?_⟩
      rw [List.append_nil]
      exact iff_of_true apart trivial
  | cons chunk chunks ih =>
      obtain ⟨replacement, next, rest, computed, others, rfl⟩ := collectReplacements_cons collected
      have stepped := state.step computed
      obtain ⟨inBounds, later⟩ := ih stepped others
      have inside := stepped.stop_le (List.mem_append_right _ (List.mem_singleton_self replacement))
      refine ⟨List.forall_mem_cons.mpr ⟨inside, inBounds⟩, fun apart => ?_⟩
      have first : (replacements ++ [replacement]).Pairwise Apart ↔
          ChunkClear originalLines path replacements lineIndex chunk := by
        rw [← state.apart_iff computed, List.pairwise_append]
        simp [apart]
      have whole : replacements ++ replacement :: rest = replacements ++ [replacement] ++ rest := by
        rw [List.append_assoc, List.singleton_append]
      rw [whole, ChunksClear]
      constructor
      · intro all
        have some := (List.pairwise_append.mp all).1
        refine ⟨first.mp some, fun other index same => ?_⟩
        cases computed.symm.trans same
        exact (later some).mp all
      · rintro ⟨clear, others⟩
        exact (later (first.mpr clear)).mpr (others replacement next computed)

theorem computeReplacements_spec
    (computed : computeReplacements originalLines path chunks = .ok replacements) :
    (∀ replacement ∈ replacements, replacement.stop ≤ originalLines.length) ∧
      (replacements.Pairwise (fun earlier later => earlier.startIndex ≤ later.startIndex)) ∧
      (replacements.Pairwise (fun earlier later => earlier.stop ≤ later.startIndex) ↔
        ChunksClear originalLines path [] 0 chunks) := by
  rw [computeReplacements] at computed
  cases collected : collectReplacements originalLines path chunks 0 with
  | error error =>
      rw [collected] at computed
      cases computed
  | ok found =>
      rw [collected] at computed
      cases computed
      have start : LoopState originalLines [] 0 :=
        ⟨Nat.zero_le _, fun _ member => absurd member List.not_mem_nil⟩
      obtain ⟨inBounds, apart⟩ := start.run collected
      refine ⟨fun replacement member => inBounds replacement (mem_sortByKey.mp member),
        pairwise_sortByKey _ _, ?_⟩
      rw [pairwise_sortByKey_iff]
      exact apart .nil

/-- The replacements of a patch do not overlap exactly when every chunk stays clear of those before
it. -/
theorem neverOverlap_iff
    (computed : computeReplacements originalLines path chunks = .ok replacements) :
    NeverOverlap originalLines.length replacements ↔
      ChunksClear originalLines path [] 0 chunks := by
  obtain ⟨inBounds, sorted, apart⟩ := computeReplacements_spec computed
  rw [← apart]
  have transitive : IsTrans Replacement fun earlier next =>
      earlier.startIndex + earlier.oldLen ≤ next.startIndex :=
    ⟨fun a b c first second => (first.trans (Nat.le_add_right _ _)).trans second⟩
  constructor
  · intro clear
    have pairs := List.isChain_iff_pairwise.mp clear.consecutive
    exact pairs
  · intro apart
    exact ⟨sorted, inBounds, List.isChain_iff_pairwise.mpr apart⟩

end Rounds

def bothLines : List Text := [['a'], ['b']]

/-- Both lines of a file are replaced, and then its last line once more. -/
def lastLineTwice : List UpdateFileChunk :=
  [⟨none, bothLines, [['c']], false⟩, ⟨none, [['b']], [['d']], true⟩]

def bothReplacements : List Replacement := [⟨0, 2, [['c']]⟩, ⟨1, 1, [['d']]⟩]

theorem not_neverOverlap_lastLineTwice :
    computeReplacements bothLines [] lastLineTwice = .ok bothReplacements ∧
      ¬NeverOverlap bothLines.length bothReplacements := by
  refine ⟨by decide, fun clear => ?_⟩
  have consecutive := clear.consecutive
  simp [bothReplacements] at consecutive

theorem neverOverlap_iff_lastLineTwice :
    NeverOverlap bothLines.length bothReplacements ↔
      ChunksClear bothLines [] [] 0 lastLineTwice :=
  neverOverlap_iff (by decide)

/-! ## The new lines -/

section Contents

variable {originalLines lines : List Text} {path : PathBuf} {chunks : List UpdateFileChunk}
  {replacements : List Replacement}

theorem removeLine_iterate (start count : ℕ) (lines : List Text) :
    (removeLine start)^[count] lines = lines.take start ++ lines.drop (start + count) := by
  induction count generalizing lines with
  | zero => simp
  | succ count ih =>
      rw [Function.iterate_succ_apply, ih, removeLine]
      split
      case isTrue inside =>
        have front : (lines.take start).length = start := by
          rw [List.length_take, Nat.min_eq_left inside.le]
        have behind : (lines.take start ++ lines.drop (start + 1)).drop (start + count) =
            lines.drop (start + (count + 1)) := by
          rw [List.drop_append, front, List.drop_of_length_le (by omega), List.nil_append,
            List.drop_drop]
          congr 1
          omega
        rw [List.eraseIdx_eq_take_drop_succ, behind, List.take_left' front]
      case isFalse outside =>
        have behind (more : ℕ) : lines.drop (start + more) = [] :=
          List.drop_of_length_le (by omega)
        rw [behind, behind]

theorem insertIdx_length_append (front behind : List Text) (line : Text) :
    (front ++ behind).insertIdx front.length line = front ++ line :: behind := by
  induction front with
  | nil => rw [List.nil_append, List.length_nil, List.insertIdx_zero, List.nil_append]
  | cons first front ih =>
      rw [List.cons_append, List.length_cons, List.insertIdx_succ_cons, ih, List.cons_append]

/-- Lines are put in behind some others, one after the other. -/
theorem insertLines {start offset : ℕ} {front : List Text} (place : front.length = start + offset)
    (new behind : List Text) :
    (new.zipIdx offset).foldl (fun lines (line, offset) => lines.insertIdx (start + offset) line)
        (front ++ behind) = front ++ new ++ behind := by
  induction new generalizing offset front with
  | nil => simp
  | cons line new ih =>
      have next : (front ++ [line]).length = start + (offset + 1) := by
        rw [List.length_append, place, List.length_singleton, Nat.add_assoc]
      rw [List.zipIdx_cons, List.foldl_cons]
      dsimp only
      rw [← place, insertIdx_length_append, ← List.singleton_append, ← List.append_assoc,
        ih next, List.append_assoc front, List.singleton_append]

/-- One replacement is one edit. -/
theorem applyReplacement_eq {replacement : Replacement}
    (inside : replacement.startIndex ≤ lines.length) :
    applyReplacement lines replacement = replacement.edit.apply lines := by
  have front : (lines.take replacement.startIndex).length = replacement.startIndex + 0 := by
    rw [List.length_take, Nat.min_eq_left inside, Nat.add_zero]
  rw [applyReplacement, removeLine_iterate]
  exact insertLines front _ _

/-- Replacements that are clear of each other are edits made one after the other. -/
theorem applyReplacements_eq (clear : Clear lines.length (replacements.map Replacement.edit)) :
    applyReplacements lines replacements = applyAll (replacements.map Replacement.edit) lines := by
  rw [applyReplacements, List.foldl_reverse]
  induction replacements with
  | nil => rfl
  | cons replacement replacements ih =>
      rw [List.map_cons] at clear
      obtain ⟨first, inBounds⟩ := List.forall_mem_cons.mp clear.inBounds
      obtain ⟨behind, apart⟩ := List.pairwise_cons.mp clear.apart
      have before : replacement.startIndex ≤ replacement.edit.stop := Nat.le_add_right _ _
      have inside : replacement.startIndex ≤
          (applyAll (replacements.map Replacement.edit) lines).length :=
        le_length_applyAll (before.trans first) fun edit member =>
          before.trans (behind edit member)
      rw [List.foldr_cons, ih ⟨inBounds, apart⟩, applyReplacement_eq inside]
      rfl

/-- The new lines are the original ones, cut at all replaced ranges at once, exactly when every
chunk stays clear of those before it. -/
theorem isSplice_iff
    (computed : computeReplacements originalLines path chunks = .ok replacements) :
    IsSplice 0 originalLines (replacements.map Replacement.edit)
        (applyReplacements originalLines replacements) ↔
      ChunksClear originalLines path [] 0 chunks := by
  obtain ⟨inBounds, -, apart⟩ := computeReplacements_spec computed
  rw [← apart]
  constructor
  · intro splice
    exact List.pairwise_map.mp splice.clear.2.apart
  · intro apart
    have clear : Clear originalLines.length (replacements.map Replacement.edit) :=
      ⟨List.forall_mem_map.mpr inBounds, List.pairwise_map.mpr apart⟩
    rw [applyReplacements_eq clear]
    exact isSplice_applyAll_iff.mpr clear

/-- The new last line is removed with the old lines. -/
theorem not_isSplice_lastLineTwice :
    applyReplacements bothLines bothReplacements = [['c']] ∧
      ¬IsSplice 0 bothLines (bothReplacements.map Replacement.edit)
        (applyReplacements bothLines bothReplacements) := by
  refine ⟨by decide, fun splice => ?_⟩
  have apart := splice.clear.2.apart
  simp [bothReplacements, Replacement.edit, Edit.stop] at apart

theorem isSplice_iff_lastLineTwice :
    IsSplice 0 bothLines (bothReplacements.map Replacement.edit)
        (applyReplacements bothLines bothReplacements) ↔
      ChunksClear bothLines [] [] 0 lastLineTwice :=
  isSplice_iff (by decide)

end Contents

end CodexPilot.ApplyPatch
