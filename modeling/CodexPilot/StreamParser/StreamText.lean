import CodexPilot.Library.Streams
import CodexPilot.RustStd.Text

/-!
# Parsers of streamed text

A parser is fed chunks of text and is finished in the end; it returns visible text, and payloads
that it has extracted.
-/

namespace CodexPilot.StreamParser

open RustStd Streams

/-- `StreamTextChunk`. -/
structure StreamTextChunk (ε : Type*) where
  visibleText : Text
  extracted : List ε
deriving DecidableEq

namespace StreamTextChunk

variable {ε : Type*}

/-- `StreamTextChunk::default`. -/
def empty : StreamTextChunk ε where
  visibleText := []
  extracted := []

/-- What is returned for one chunk and then for another one. -/
def append (first second : StreamTextChunk ε) : StreamTextChunk ε where
  visibleText := first.visibleText ++ second.visibleText
  extracted := first.extracted ++ second.extracted

instance : Append (StreamTextChunk ε) := ⟨append⟩

@[simp]
theorem visibleText_append (first second : StreamTextChunk ε) :
    (first ++ second).visibleText = first.visibleText ++ second.visibleText := rfl

@[simp]
theorem extracted_append (first second : StreamTextChunk ε) :
    (first ++ second).extracted = first.extracted ++ second.extracted := rfl

@[ext]
theorem ext {first second : StreamTextChunk ε} (visible : first.visibleText = second.visibleText)
    (extracted : first.extracted = second.extracted) : first = second := by
  cases first
  cases second
  cases visible
  cases extracted
  rfl

end StreamTextChunk

/-- `StreamTextParser`. -/
structure StreamTextParser (σ ε : Type*) where
  pushStr : σ → Text → σ × StreamTextChunk ε
  finish : σ → σ × StreamTextChunk ε

namespace StreamTextParser

variable {σ ε : Type*}

/-- What a parser returns altogether, for the chunks and in the end. -/
def collectChunks (parser : StreamTextParser σ ε) (state : σ) (chunks : List Text) :
    StreamTextChunk ε :=
  let run := feed parser.pushStr state chunks
  run.2.foldr (· ++ ·) (parser.finish run.1).2

variable (parser : StreamTextParser σ ε) (state : σ) (chunks : List Text)

theorem visibleText_foldr (outs : List (StreamTextChunk ε)) (tail : StreamTextChunk ε) :
    (outs.foldr (· ++ ·) tail).visibleText =
      outs.flatMap StreamTextChunk.visibleText ++ tail.visibleText := by
  induction outs with
  | nil => rfl
  | cons out outs ih =>
      rw [List.foldr_cons, StreamTextChunk.visibleText_append, ih, List.flatMap_cons,
        List.append_assoc]

theorem extracted_foldr (outs : List (StreamTextChunk ε)) (tail : StreamTextChunk ε) :
    (outs.foldr (· ++ ·) tail).extracted =
      outs.flatMap StreamTextChunk.extracted ++ tail.extracted := by
  induction outs with
  | nil => rfl
  | cons out outs ih =>
      rw [List.foldr_cons, StreamTextChunk.extracted_append, ih, List.flatMap_cons,
        List.append_assoc]

theorem visibleText_collectChunks : (parser.collectChunks state chunks).visibleText =
    (feed parser.pushStr state chunks).2.flatMap StreamTextChunk.visibleText ++
      (parser.finish (feed parser.pushStr state chunks).1).2.visibleText :=
  visibleText_foldr _ _

theorem extracted_collectChunks : (parser.collectChunks state chunks).extracted =
    (feed parser.pushStr state chunks).2.flatMap StreamTextChunk.extracted ++
      (parser.finish (feed parser.pushStr state chunks).1).2.extracted :=
  extracted_foldr _ _

/-- A parser whose pushes add up returns the same altogether, however the text is cut. -/
theorem collectChunks_eq (visible : Additive parser.pushStr StreamTextChunk.visibleText)
    (extracted : Additive parser.pushStr StreamTextChunk.extracted)
    (idle : parser.pushStr state [] = (state, .empty)) :
    parser.collectChunks state chunks = parser.collectChunks state [chunks.flatten] := by
  have stays : (parser.pushStr state []).1 = state := by rw [idle]
  obtain ⟨sameState, sameVisible⟩ := feed_flatten visible stays (by rw [idle]; rfl) chunks
  obtain ⟨-, sameExtracted⟩ := feed_flatten extracted stays (by rw [idle]; rfl) chunks
  refine StreamTextChunk.ext ?_ ?_
  · rw [visibleText_collectChunks, visibleText_collectChunks, sameState, sameVisible]
  · rw [extracted_collectChunks, extracted_collectChunks, sameState, sameExtracted]

end StreamTextParser

end CodexPilot.StreamParser
