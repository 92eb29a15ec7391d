import Mathlib.Data.List.Basic

/-!
# Text that is fed in chunks

A parser takes a text chunk by chunk and returns something for each chunk.  When the parser makes
no difference between two chunks in turn and both of them at once, it makes none between any two
ways of cutting a text.
-/

namespace Streams

variable {σ α β ω : Type*}

/-- Feed the chunks one after the other; what is returned for each of them. -/
def feed (push : σ → List α → σ × ω) : σ → List (List α) → σ × List ω
  | state, [] => (state, [])
  | state, chunk :: chunks =>
      let (state, out) := push state chunk
      let (state, outs) := feed push state chunks
      (state, out :: outs)

/-- The parser does not tell two chunks in turn from both of them at once, as far as it goes on from
there and as far as the view of what it returns shows. -/
structure Additive (push : σ → List α → σ × ω) (view : ω → List β) : Prop where
  state : ∀ state first second,
    (push state (first ++ second)).1 = (push (push state first).1 second).1
  out : ∀ state first second, view (push state (first ++ second)).2 =
    view (push state first).2 ++ view (push (push state first).1 second).2

variable {push : σ → List α → σ × ω} {view : ω → List β}

/-- However a text is cut, the parser ends in one state. -/
theorem feed_state (additive : Additive push view) (state : σ) (chunk : List α)
    (chunks : List (List α)) :
    (feed push state (chunk :: chunks)).1 = (push state (chunk ++ chunks.flatten)).1 := by
  induction chunks generalizing state chunk with
  | nil => simp [feed]
  | cons next chunks ih =>
      rw [List.flatten_cons, additive.state]
      exact ih (push state chunk).1 next

/-- However a text is cut, the view shows the same altogether. -/
theorem feed_out (additive : Additive push view) (state : σ) (chunk : List α)
    (chunks : List (List α)) :
    (feed push state (chunk :: chunks)).2.flatMap view =
      view (push state (chunk ++ chunks.flatten)).2 := by
  induction chunks generalizing state chunk with
  | nil => simp [feed]
  | cons next chunks ih =>
      rw [List.flatten_cons, additive.out, ← ih]
      rfl

/-- However a text is cut, feeding it is feeding all of it at once. -/
theorem feed_flatten (additive : Additive push view) {state : σ} (stays : (push state []).1 = state)
    (silent : view (push state []).2 = []) (chunks : List (List α)) :
    (feed push state chunks).1 = (feed push state [chunks.flatten]).1 ∧
      (feed push state chunks).2.flatMap view =
        (feed push state [chunks.flatten]).2.flatMap view := by
  cases chunks with
  | nil => exact ⟨stays.symm, by simp [feed, silent]⟩
  | cons chunk chunks =>
      rw [feed_state additive, feed_state additive, feed_out additive, feed_out additive]
      simp

/-- What is returned for the chunks is what some pushes return. -/
theorem exists_of_mem_feed {out : ω} {state : σ} {chunks : List (List α)}
    (member : out ∈ (feed push state chunks).2) : ∃ state chunk, out = (push state chunk).2 := by
  induction chunks generalizing state with
  | nil => exact absurd member List.not_mem_nil
  | cons chunk chunks ih =>
      obtain isFirst | later := List.mem_cons.mp member
      · exact ⟨state, chunk, isFirst⟩
      · exact ih later

/-- Another view that appends like the first one. -/
theorem Additive.through {γ : Type*} {through : List β → List γ} (additive : Additive push view)
    (appends : ∀ first second, through (first ++ second) = through first ++ through second) :
    Additive push fun out => through (view out) where
  state := additive.state
  out state first second := by rw [additive.out, appends]

/-- A parser that does the same as another one on a view of its states does so for all chunks. -/
theorem feed_map {τ : Type*} {simulated : τ → List α → τ × ω} (forget : σ → τ)
    (simulates : ∀ state chunk,
      simulated (forget state) chunk = (forget (push state chunk).1, (push state chunk).2))
    (state : σ) (chunks : List (List α)) :
    feed simulated (forget state) chunks =
      (forget (feed push state chunks).1, (feed push state chunks).2) := by
  induction chunks generalizing state with
  | nil => rfl
  | cons chunk chunks ih =>
      simp only [feed, simulates]
      rw [ih (push state chunk).1]

/-! ## Two parsers in a row -/

section Pipe

variable {τ γ δ ψ : Type*}

/-- What one parser lets through is fed to another one. -/
def pipe (push : σ → List α → σ × ω) (through : ω → List β) (next : τ → List β → τ × ψ)
    (states : σ × τ) (chunk : List α) : (σ × τ) × (ω × ψ) :=
  let (state, out) := push states.1 chunk
  let (later, outLater) := next states.2 (through out)
  ((state, later), (out, outLater))

variable {next : τ → List β → τ × ψ} {after : ψ → List γ} {aside : ω → List δ}

theorem Additive.pipe (first : Additive push view) (second : Additive next after) :
    Additive (pipe push view next) fun out => after out.2 where
  state states one two := by
    simp only [Streams.pipe]
    rw [first.state, first.out, second.state]
  out states one two := by
    simp only [Streams.pipe]
    rw [first.out, second.out]

/-- The other things that the first parser returns are not touched by the second one. -/
theorem Additive.pipe_aside (first : Additive push view) (beside : Additive push aside)
    (second : Additive next after) :
    Additive (Streams.pipe push view next) fun out => aside out.1 where
  state := (first.pipe second).state
  out states one two := beside.out states.1 one two

end Pipe

end Streams
