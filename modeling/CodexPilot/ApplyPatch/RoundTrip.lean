import CodexPilot.ApplyPatch.LineMachine

/-!
# Rendering and parsing patches

`render` writes a list of hunks in the canonical patch format, with every stored line protected by
its prefix.  Parsing the rendered text gives the hunks back, whatever the lines contain.
-/

namespace CodexPilot.ApplyPatch

open RustStd

/-! ## Rendering -/

/-- The lines of a text in which every line is ended by a line feed. -/
def contentLines (contents : Text) : List Text := (List.splitOn '\n' contents).dropLast

def UpdateFileChunk.diffLines (chunk : UpdateFileChunk) : List Text :=
  chunk.oldLines.map ('-' :: ·) ++ chunk.newLines.map ('+' :: ·)

/-- The lines of a chunk. -/
def UpdateFileChunk.render (chunk : UpdateFileChunk) : List Text :=
  contextLine chunk.changeContext :: chunk.diffLines ++
    if chunk.isEndOfFile then [eofMarker] else []

/-- The lines of a hunk. -/
def Hunk.render : Hunk → List Text
  | .addFile path contents =>
      (addFileMarker ++ path) :: (contentLines contents).map ('+' :: ·)
  | .deleteFile path => [deleteFileMarker ++ path]
  | .updateFile path movePath chunks =>
      (updateFileMarker ++ path) :: (movePath.map (moveToMarker ++ ·)).toList ++
        chunks.flatMap UpdateFileChunk.render

/-- The canonical text of a patch. -/
def render (hunks : List Hunk) : Text :=
  Text.join ['\n'] (beginPatchMarker :: hunks.flatMap Hunk.render ++ [endPatchMarker])

/-! ## Hunks with a canonical text -/

/-- A text that survives as one line: no line feed inside and no carriage return at its end. -/
def IsLine (line : Text) : Prop := '\n' ∉ line ∧ line.getLast? ≠ some '\r'

/-- A header path: one line without trailing white space. -/
def IsHeaderPath (path : PathBuf) : Prop :=
  IsLine path ∧ ∀ c ∈ path.getLast?, Text.isWhitespace c = false

instance : DecidablePred IsLine := fun line =>
  inferInstanceAs (Decidable ('\n' ∉ line ∧ line.getLast? ≠ some '\r'))

instance : DecidablePred IsHeaderPath := fun path =>
  @instDecidableAnd _ _ (inferInstanceAs (Decidable (IsLine path)))
    (Option.decidableForallMem path.getLast?)

/-- A chunk of single lines that changes something. -/
structure UpdateFileChunk.Renderable (chunk : UpdateFileChunk) : Prop where
  context : ∀ line ∈ chunk.changeContext, IsLine line
  old : ∀ line ∈ chunk.oldLines, IsLine line
  new : ∀ line ∈ chunk.newLines, IsLine line
  nonempty : chunk.oldLines ≠ [] ∨ chunk.newLines ≠ []

instance : DecidablePred UpdateFileChunk.Renderable := fun chunk =>
  decidable_of_iff
    ((∀ line ∈ chunk.changeContext, IsLine line) ∧ (∀ line ∈ chunk.oldLines, IsLine line) ∧
      (∀ line ∈ chunk.newLines, IsLine line) ∧ (chunk.oldLines ≠ [] ∨ chunk.newLines ≠ []))
    ⟨fun ⟨context, old, new, nonempty⟩ => ⟨context, old, new, nonempty⟩,
      fun renderable =>
        ⟨renderable.context, renderable.old, renderable.new, renderable.nonempty⟩⟩

/-- The hunks that the patch format can express. -/
def Hunk.Renderable : Hunk → Prop
  | .addFile path contents =>
      IsHeaderPath path ∧ (contents = [] ∨ contents.getLast? = some '\n') ∧
        ∀ line ∈ contentLines contents, IsLine line
  | .deleteFile path => IsHeaderPath path
  | .updateFile path movePath chunks =>
      IsHeaderPath path ∧ (∀ dest ∈ movePath, IsLine dest) ∧ chunks ≠ [] ∧
        ∀ chunk ∈ chunks, chunk.Renderable

instance : DecidablePred Hunk.Renderable
  | .addFile path contents =>
      inferInstanceAs (Decidable (IsHeaderPath path ∧
        (contents = [] ∨ contents.getLast? = some '\n') ∧
          ∀ line ∈ contentLines contents, IsLine line))
  | .deleteFile path => inferInstanceAs (Decidable (IsHeaderPath path))
  | .updateFile path movePath chunks =>
      inferInstanceAs (Decidable (IsHeaderPath path ∧ (∀ dest ∈ movePath, IsLine dest) ∧
        chunks ≠ [] ∧ ∀ chunk ∈ chunks, chunk.Renderable))

theorem Hunk.Renderable.headerPath {hunk : Hunk} (renderable : hunk.Renderable) :
    IsHeaderPath hunk.path := by
  cases hunk with
  | addFile path contents => exact renderable.1
  | deleteFile path => exact renderable
  | updateFile path movePath chunks => exact renderable.1

theorem flatMap_contentLines {contents : Text}
    (ended : contents = [] ∨ contents.getLast? = some '\n') :
    (contentLines contents).flatMap (· ++ ['\n']) = contents := by
  have pieces := List.splitOn_ne_nil '\n' contents
  have rejoined : Text.join ['\n'] (List.splitOn '\n' contents) = contents :=
    List.intercalate_splitOn '\n'
  rw [← List.dropLast_concat_getLast pieces, Text.join_concat] at rejoined
  have lastClean := Text.separator_not_mem_splitOn (List.getLast_mem pieces)
  have lastEmpty : (List.splitOn '\n' contents).getLast pieces = [] := by
    generalize (List.splitOn '\n' contents).getLast pieces = last at rejoined lastClean
    rcases ended with empty | newline
    · rw [empty] at rejoined
      exact (List.append_eq_nil_iff.mp rejoined).2
    · by_contra nonempty
      rw [← rejoined, List.getLast?_append_of_ne_nil _ nonempty] at newline
      exact lastClean (List.mem_of_getLast? newline)
  rw [lastEmpty, List.append_nil] at rejoined
  exact rejoined

/-! ## Reading rendered lines -/

/-- A line that ends the chunk it follows. -/
def Breaks (line : Text) : Prop :=
  line ≠ eofMarker ∧ ∀ chunk : UpdateFileChunk, chunk.read line = none

namespace Mode

theorem run_inChunk_of_breaks (draft : Draft) (chunk : UpdateFileChunk) {lines : List Text}
    (breaks : ∀ line, lines.head? = some line → Breaks line) :
    (inChunk draft chunk).run lines = (between (draft.push chunk)).run lines := by
  cases lines with
  | nil => simp [run, close]
  | cons line rest =>
      obtain ⟨notEof, notDiff⟩ := breaks line rfl
      exact run_cons_congr (by simp [step, readInChunk, notEof, notDiff chunk]) rest

theorem run_inChunk_old (draft : Draft) (chunk : UpdateFileChunk) (old rest : List Text) :
    (inChunk draft chunk).run (old.map ('-' :: ·) ++ rest) =
      (inChunk draft { chunk with oldLines := chunk.oldLines ++ old }).run rest := by
  induction old generalizing chunk with
  | nil => simp
  | cons line old ih =>
      rw [List.map_cons, List.cons_append, run_cons_of_step (by rfl), ih]
      simp

theorem run_inChunk_new (draft : Draft) (chunk : UpdateFileChunk) (new rest : List Text) :
    (inChunk draft chunk).run (new.map ('+' :: ·) ++ rest) =
      (inChunk draft { chunk with newLines := chunk.newLines ++ new }).run rest := by
  induction new generalizing chunk with
  | nil => simp
  | cons line new ih =>
      rw [List.map_cons, List.cons_append, run_cons_of_step (by rfl), ih]
      simp

theorem run_inChunk_end (draft : Draft) (chunk : UpdateFileChunk) {rest : List Text}
    (breaks : ∀ line, rest.head? = some line → Breaks line) :
    (inChunk draft { chunk with isEndOfFile := false }).run
        ((if chunk.isEndOfFile then [eofMarker] else []) ++ rest) =
      (between (draft.push chunk)).run rest := by
  obtain ⟨context, old, new, isEndOfFile⟩ := chunk
  cases isEndOfFile with
  | false => exact run_inChunk_of_breaks draft _ breaks
  | true => exact run_cons_of_step (by simp [step, readInChunk]) rest

/-- The diff lines of a chunk, after its context marker. -/
theorem run_opened_render (draft : Draft) (chunk : UpdateFileChunk) {rest : List Text}
    (nonempty : chunk.oldLines ≠ [] ∨ chunk.newLines ≠ [])
    (breaks : ∀ line, rest.head? = some line → Breaks line) :
    (opened draft chunk.changeContext).run
        (chunk.diffLines ++ ((if chunk.isEndOfFile then [eofMarker] else []) ++ rest)) =
      (between (draft.push chunk)).run rest := by
  rw [← run_inChunk_end draft chunk breaks]
  obtain ⟨context, old, new, isEndOfFile⟩ := chunk
  generalize (if isEndOfFile = true then [eofMarker] else []) ++ rest = tail
  simp only [UpdateFileChunk.diffLines, List.append_assoc]
  cases old with
  | cons line old =>
      rw [List.map_cons, List.cons_append, run_cons_of_step (by rfl), run_inChunk_old,
        run_inChunk_new]
      rfl
  | nil =>
      cases new with
      | nil => simp at nonempty
      | cons line new =>
          rw [List.map_nil, List.nil_append, List.map_cons, List.cons_append,
            run_cons_of_step (by rfl), run_inChunk_new]
          rfl

theorem breaks_contextLine (context : Option Text) : Breaks (contextLine context) := by
  cases context with
  | none => exact ⟨by decide, fun _ => rfl⟩
  | some context =>
      refine ⟨?_, fun _ => rfl⟩
      intro same
      exact absurd (show '@' = '*' from (List.cons.inj same).1) (by decide)

theorem head?_render_chunks (chunks : List UpdateFileChunk) {rest : List Text}
    (breaks : ∀ line, rest.head? = some line → Breaks line) :
    ∀ line, (chunks.flatMap UpdateFileChunk.render ++ rest).head? = some line → Breaks line := by
  intro line head
  cases chunks with
  | nil => exact breaks line (by simpa using head)
  | cons chunk chunks =>
      have lineEq : contextLine chunk.changeContext = line := by
        simpa [UpdateFileChunk.render] using head
      rw [← lineEq]
      exact breaks_contextLine chunk.changeContext

/-- All the chunks of an updated file. -/
theorem run_between_render (draft : Draft) (chunks : List UpdateFileChunk) {rest : List Text}
    (renderable : ∀ chunk ∈ chunks, chunk.Renderable)
    (breaks : ∀ line, rest.head? = some line → Breaks line) :
    (between draft).run (chunks.flatMap UpdateFileChunk.render ++ rest) =
      (between { draft with chunks := draft.chunks ++ chunks }).run rest := by
  induction chunks generalizing draft with
  | nil => simp
  | cons chunk chunks ih =>
      have later := ih (draft.push chunk) fun other member =>
        renderable other (List.mem_cons_of_mem _ member)
      have first := run_opened_render draft chunk (renderable chunk List.mem_cons_self).nonempty
        (head?_render_chunks chunks breaks)
      rw [later] at first
      simp only [List.flatMap_cons, UpdateFileChunk.render, List.append_assoc, List.cons_append]
      rw [run_cons_of_step (step_between_contextLine draft chunk.changeContext), first]
      simp [Draft.push]

/-! ## Headers -/

/-- A rendered header line: a marker and a nonempty path without trailing white space. -/
structure IsHeader (marker path : Text) : Prop where
  known : marker = addFileMarker ∨ marker = deleteFileMarker ∨ marker = updateFileMarker
  headerPath : IsHeaderPath path
  nonempty : path ≠ []

theorem IsHeader.trim {marker path : Text} (header : IsHeader marker path) :
    Text.trim (marker ++ path) = marker ++ path := by
  apply Text.trim_eq_self
  · intro c head
    have star : c = '*' := by
      rcases header.known with rfl | rfl | rfl <;> exact (Option.some.inj head).symm
    rw [star]
    decide
  · intro c last
    rw [List.getLast?_append_of_ne_nil _ header.nonempty] at last
    exact header.headerPath.2 c last

theorem IsHeader.breaks {marker path : Text} (header : IsHeader marker path) :
    Breaks (marker ++ path) := by
  constructor
  · intro same
    have fifth := congrArg (fun line => line.getD 4 ' ') same
    rcases header.known with rfl | rfl | rfl
    · exact absurd (show 'A' = 'E' from fifth) (by decide)
    · exact absurd (show 'D' = 'E' from fifth) (by decide)
    · exact absurd (show 'U' = 'E' from fifth) (by decide)
  · intro chunk
    rcases header.known with rfl | rfl | rfl <;> rfl

theorem IsHeader.closes {marker path : Text} (header : IsHeader marker path) (draft : Draft) :
    (between draft).step (marker ++ path) =
      closeAndReadHeader (between draft) (marker ++ path) := by
  have visible : Text.trim (marker ++ path) ≠ [] := by
    rw [header.trim]
    simp [header.nonempty]
  have starred : Text.startsWith (marker ++ path) headerStart = true := by
    rcases header.known with rfl | rfl | rfl <;> rfl
  simp [step, readBetween, visible, starred]

/-- The lines that follow a rendered hunk: none, or those of the next hunk. -/
def StartsWithHeader (lines : List Text) : Prop :=
  ∀ line, lines.head? = some line → ∃ marker path, line = marker ++ path ∧ IsHeader marker path

theorem StartsWithHeader.breaks {lines : List Text} (starts : StartsWithHeader lines) :
    ∀ line, lines.head? = some line → Breaks line := by
  intro line head
  obtain ⟨marker, path, rfl, header⟩ := starts line head
  exact header.breaks

theorem run_between_of_header {draft : Draft} (nonempty : draft.chunks ≠ []) {lines : List Text}
    (starts : StartsWithHeader lines) :
    (between draft).run lines = (idle.run lines).map (draft.hunk :: ·) := by
  cases lines with
  | nil => simp [run, close, nonempty]
  | cons line rest =>
      obtain ⟨marker, path, rfl, header⟩ := starts line rfl
      rw [run_of_closeAndReadHeader (header.closes draft)]
      simp [close, nonempty]

theorem parseAddLines_render (lines rest : List Text) (starts : StartsWithHeader rest) :
    parseAddLines (lines.map ('+' :: ·) ++ rest) =
      (lines.flatMap (· ++ ['\n']), lines.length) := by
  induction lines with
  | cons line lines ih => simp [parseAddLines, ih]
  | nil =>
      cases rest with
      | nil => rfl
      | cons line rest =>
          obtain ⟨marker, path, rfl, header⟩ := starts line rfl
          rcases header.known with rfl | rfl | rfl <;> rfl

/-- Reading the lines of one rendered hunk gives that hunk. -/
theorem run_idle_render {hunk : Hunk} (renderable : hunk.Renderable) (named : hunk.path ≠ [])
    {rest : List Text} (starts : StartsWithHeader rest) :
    idle.run (hunk.render ++ rest) = (idle.run rest).map (hunk :: ·) := by
  have headerPath := renderable.headerPath
  cases hunk with
  | addFile path contents =>
      have header : IsHeader addFileMarker path := ⟨Or.inl rfl, headerPath, named⟩
      have stepped : idle.step (addFileMarker ++ path) = some ([], adding path []) := by
        simp [step, readHeader, header.trim]
      rw [Hunk.render, List.cons_append, run_cons_of_step stepped, run_adding,
        parseAddLines_render _ rest starts, flatMap_contentLines renderable.2.1]
      simp
  | deleteFile path =>
      have header : IsHeader deleteFileMarker path := ⟨Or.inr (Or.inl rfl), headerPath, named⟩
      have notAdd : Text.stripPrefix (deleteFileMarker ++ path) addFileMarker = none := rfl
      have stepped : idle.step (deleteFileMarker ++ path) = some ([.deleteFile path], idle) := by
        simp [step, readHeader, header.trim, notAdd]
      rw [Hunk.render, List.cons_append, run_cons, stepped]
      simp
  | updateFile path movePath chunks =>
      obtain ⟨_, destLine, chunksNonempty, chunksRenderable⟩ := renderable
      have header : IsHeader updateFileMarker path := ⟨Or.inr (Or.inr rfl), headerPath, named⟩
      have notAdd : Text.stripPrefix (updateFileMarker ++ path) addFileMarker = none := rfl
      have notDelete : Text.stripPrefix (updateFileMarker ++ path) deleteFileMarker = none := rfl
      have stepped : idle.step (updateFileMarker ++ path) = some ([], fresh path) := by
        simp [step, readHeader, header.trim, notAdd, notDelete]
      have afterMove : (between ⟨path, movePath, []⟩).run
          (chunks.flatMap UpdateFileChunk.render ++ rest) =
            (idle.run rest).map (Hunk.updateFile path movePath chunks :: ·) := by
        rw [run_between_render ⟨path, movePath, []⟩ chunks chunksRenderable starts.breaks]
        exact run_between_of_header (by simpa using chunksNonempty) starts
      rw [Hunk.render, List.cons_append, List.cons_append, run_cons_of_step stepped]
      cases movePath with
      | some dest =>
          have moved : (fresh path).step (moveToMarker ++ dest) =
              some ([], between ⟨path, some dest, []⟩) := by
            simp [step]
          simp only [Option.map_some, Option.toList_some, List.cons_append, List.nil_append]
          rw [run_cons_of_step moved, afterMove]
      | none =>
          obtain ⟨chunk, others, rfl⟩ := List.exists_cons_of_ne_nil chunksNonempty
          have notMoved : ∀ context,
            Text.stripPrefix (contextLine context) moveToMarker = none := by
            intro context
            cases context <;> rfl
          simp only [Option.map_none, Option.toList_none, List.nil_append]
          rw [← afterMove]
          simp only [List.flatMap_cons, UpdateFileChunk.render, List.cons_append]
          exact run_cons_congr (by simp [step, notMoved]) _

theorem startsWithHeader_render {hunks : List Hunk}
    (renderable : ∀ hunk ∈ hunks, hunk.Renderable) (named : ∀ hunk ∈ hunks, hunk.path ≠ []) :
    StartsWithHeader (hunks.flatMap Hunk.render) := by
  intro line head
  cases hunks with
  | nil => simp at head
  | cons hunk hunks =>
      have headerPath := (renderable hunk List.mem_cons_self).headerPath
      have nonempty := named hunk List.mem_cons_self
      cases hunk with
      | addFile path contents =>
          obtain rfl : addFileMarker ++ path = line := by simpa [Hunk.render] using head
          exact ⟨_, path, rfl, Or.inl rfl, headerPath, nonempty⟩
      | deleteFile path =>
          obtain rfl : deleteFileMarker ++ path = line := by simpa [Hunk.render] using head
          exact ⟨_, path, rfl, Or.inr (Or.inl rfl), headerPath, nonempty⟩
      | updateFile path movePath chunks =>
          obtain rfl : updateFileMarker ++ path = line := by simpa [Hunk.render] using head
          exact ⟨_, path, rfl, Or.inr (Or.inr rfl), headerPath, nonempty⟩

theorem run_render {hunks : List Hunk} (renderable : ∀ hunk ∈ hunks, hunk.Renderable)
    (named : ∀ hunk ∈ hunks, hunk.path ≠ []) :
    idle.run (hunks.flatMap Hunk.render) = some hunks := by
  induction hunks with
  | nil => rfl
  | cons hunk hunks ih =>
      have laterRenderable : ∀ other ∈ hunks, other.Renderable := fun other member =>
        renderable other (List.mem_cons_of_mem _ member)
      have laterNamed : ∀ other ∈ hunks, other.path ≠ [] := fun other member =>
        named other (List.mem_cons_of_mem _ member)
      rw [List.flatMap_cons,
        run_idle_render (renderable hunk List.mem_cons_self) (named hunk List.mem_cons_self)
          (startsWithHeader_render laterRenderable laterNamed),
        ih laterRenderable laterNamed]
      rfl

end Mode

/-! ## The round trip -/

theorem isLine_cons {c : Char} {line : Text} (black : Text.isWhitespace c = false)
    (isLine : IsLine line) : IsLine (c :: line) := by
  obtain ⟨clean, noReturn⟩ := isLine
  have notNewline : '\n' ≠ c := by
    rintro rfl
    exact absurd black (by decide)
  refine ⟨by simp [notNewline, clean], ?_⟩
  cases line with
  | nil =>
      intro returned
      obtain rfl : c = '\r' := by simpa using returned
      exact absurd black (by decide)
  | cons head tail => simpa using noReturn

theorem isLine_append {marker line : Text} (isMarker : IsLine marker) (isLine : IsLine line) :
    IsLine (marker ++ line) := by
  obtain ⟨clean, noReturn⟩ := isLine
  refine ⟨by simp [isMarker.1, clean], ?_⟩
  cases line with
  | nil => simpa using isMarker.2
  | cons head tail => rwa [List.getLast?_append_of_ne_nil _ (by simp)]

theorem isLine_contextLine {context : Option Text} (isLine : ∀ line ∈ context, IsLine line) :
    IsLine (contextLine context) := by
  cases context with
  | none => exact ⟨by decide, by decide⟩
  | some context => exact isLine_append ⟨by decide, by decide⟩ (isLine context rfl)

theorem UpdateFileChunk.Renderable.isLine {chunk : UpdateFileChunk}
    (renderable : chunk.Renderable) : ∀ line ∈ chunk.render, IsLine line := by
  intro line member
  simp only [UpdateFileChunk.render, UpdateFileChunk.diffLines, List.cons_append, List.mem_cons,
    List.mem_append, List.mem_map] at member
  rcases member with rfl | (⟨old, inOld, rfl⟩ | ⟨new, inNew, rfl⟩) | isEof
  · exact isLine_contextLine renderable.context
  · exact isLine_cons (by decide) (renderable.old old inOld)
  · exact isLine_cons (by decide) (renderable.new new inNew)
  · split at isEof
    · rw [List.mem_singleton.mp isEof]
      exact ⟨by decide, by decide⟩
    · simp at isEof

theorem Hunk.Renderable.isLine {hunk : Hunk} (renderable : hunk.Renderable) :
    ∀ line ∈ hunk.render, IsLine line := by
  intro line member
  cases hunk with
  | addFile path contents =>
      obtain ⟨headerPath, _, contentsLines⟩ := renderable
      rcases List.mem_cons.mp member with rfl | added
      · exact isLine_append ⟨by decide, by decide⟩ headerPath.1
      · obtain ⟨content, inContents, rfl⟩ := List.mem_map.mp added
        exact isLine_cons (by decide) (contentsLines content inContents)
  | deleteFile path =>
      rw [List.mem_singleton.mp member]
      exact isLine_append ⟨by decide, by decide⟩ renderable.1
  | updateFile path movePath chunks =>
      obtain ⟨headerPath, destLine, _, chunksRenderable⟩ := renderable
      simp only [Hunk.render, List.cons_append, List.mem_cons, List.mem_append, Option.mem_toList,
        Option.map_eq_some_iff, List.mem_flatMap] at member
      rcases member with rfl | ⟨dest, moved, rfl⟩ | ⟨chunk, inChunks, inChunk⟩
      · exact isLine_append ⟨by decide, by decide⟩ headerPath.1
      · exact isLine_append ⟨by decide, by decide⟩ (destLine dest moved)
      · exact (chunksRenderable chunk inChunks).isLine line inChunk

theorem framed_render {hunks : List Hunk} (renderable : ∀ hunk ∈ hunks, hunk.Renderable) :
    Framed beginPatchMarker (hunks.flatMap Hunk.render) endPatchMarker where
  opening := by decide
  closing := by decide
  firstClean := by decide
  lastClean := by decide
  bodyClean := by
    intro line member
    obtain ⟨hunk, inHunks, inHunk⟩ := List.mem_flatMap.mp member
    exact ((renderable hunk inHunks).isLine line inHunk).1

theorem map_stripCr_render {hunks : List Hunk} (renderable : ∀ hunk ∈ hunks, hunk.Renderable) :
    (hunks.flatMap Hunk.render).map Text.stripCr = hunks.flatMap Hunk.render := by
  refine (List.map_congr_left ?_).trans (List.map_id _)
  intro line member
  obtain ⟨hunk, inHunks, inHunk⟩ := List.mem_flatMap.mp member
  exact Text.stripCr_of_getLast?_ne ((renderable hunk inHunks).isLine line inHunk).2

/-- Parsing the canonical text of a patch gives back its hunks, in order. -/
theorem parsePatch_render {hunks : List Hunk} (renderable : ∀ hunk ∈ hunks, hunk.Renderable)
    (named : ∀ hunk ∈ hunks, hunk.path ≠ []) :
    parsePatch (render hunks) = .ok { patch := render hunks, hunks, workdir := none } := by
  refine (framed_render renderable).parsePatch_join.mpr ⟨hunks, ?_, ?_⟩
  · rw [map_stripCr_render renderable]
    exact Mode.run_render renderable named
  · rw [map_stripCr_render renderable]
    rfl

/-- A moved file whose chunk holds lines that look like markers. -/
def lookalikeHunks : List Hunk :=
  [.updateFile ['a'] (some ['b'])
      [⟨some ['@'], [endPatchMarker, []], [emptyChangeContextMarker, eofMarker], true⟩],
    .addFile ['c'] (addFileMarker ++ ['\n']), .deleteFile ['d']]

theorem parsePatch_render_lookalikes :
    parsePatch (render lookalikeHunks) =
      .ok { patch := render lookalikeHunks, hunks := lookalikeHunks, workdir := none } :=
  parsePatch_render (by decide) (by decide)

/-- Without a path the trimmed header lacks the blank at the end of its marker. -/
theorem parsePatch_render_unnamed :
    ¬ ∀ hunks : List Hunk, (∀ hunk ∈ hunks, hunk.Renderable) →
      ∃ args, parsePatch (render hunks) = .ok args ∧ args.hunks = hunks := by
  intro parsed
  obtain ⟨args, accepted, _⟩ := parsed [.deleteFile []] (by decide)
  have rejected : (parsePatch (render [.deleteFile []])).toOption = none := by decide
  rw [accepted] at rejected
  cases rejected

end CodexPilot.ApplyPatch
