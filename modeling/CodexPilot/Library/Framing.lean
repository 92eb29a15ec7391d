import Mathlib.Data.List.Infix

/-!
# Frames on a stream

Messages travel as frames, one after the other, and a receiver assembles them from the front of what
is ahead of it.  However the stream is cut into pieces, what has been consumed of the next frame and
what is ahead are together the frames of the messages that have not been delivered.
-/

namespace Framing

/-- A frame for every message; no frame is empty. -/
structure Code (μ κ : Type*) where
  frame : μ → List κ
  frame_ne_nil : ∀ message, frame message ≠ []

variable {μ κ : Type*} (code : Code μ κ) {messages received rest : List μ} {message : μ}
  {consumed taken ahead : List κ}

/-- After the messages received, the next frame is consumed in part, and the rest of it and the
other frames are ahead. -/
structure Next (messages received : List μ) (consumed ahead : List κ) (message : μ)
    (rest : List μ) : Prop where
  messages_eq : messages = received ++ message :: rest
  frames_eq : consumed ++ ahead = code.frame message ++ rest.flatMap code.frame
  front : consumed <+: code.frame message

/-- Either all messages are received, or there is a next one. -/
def Assembles (messages received : List μ) (consumed ahead : List κ) : Prop :=
  (received = messages ∧ consumed = [] ∧ ahead = []) ∨
    ∃ message rest, Next code messages received consumed ahead message rest

variable {code}

theorem assembles_of_rest (rest : List μ) (split : messages = received ++ rest)
    (frames : ahead = rest.flatMap code.frame) : Assembles code messages received [] ahead := by
  cases rest with
  | nil => exact .inl ⟨by simp [split], rfl, frames⟩
  | cons message rest => exact .inr ⟨message, rest, split, frames, List.nil_prefix⟩

namespace Next

/-- What is consumed further, as long as it is no longer than the frame, is of the frame. -/
theorem take (next : Next code messages received consumed (taken ++ ahead) message rest)
    (fits : (consumed ++ taken).length ≤ (code.frame message).length) :
    Next code messages received (consumed ++ taken) ahead message rest where
  messages_eq := next.messages_eq
  frames_eq := by rw [← next.frames_eq, List.append_assoc]
  front := by
    have whole : consumed ++ taken <+: code.frame message ++ rest.flatMap code.frame :=
      ⟨ahead, by rw [← next.frames_eq, List.append_assoc]⟩
    exact List.prefix_of_prefix_length_le whole (List.prefix_append _ _) fits

/-- A frame that is consumed as a whole is a message received. -/
theorem deliver (next : Next code messages received (code.frame message) ahead message rest) :
    Assembles code messages (received ++ [message]) [] ahead := by
  refine assembles_of_rest rest ?_ (List.append_cancel_left next.frames_eq)
  rw [next.messages_eq, List.append_assoc]
  rfl

/-- With nothing ahead, the frame is there as a whole. -/
theorem eq_of_nil (next : Next code messages received consumed [] message rest) :
    consumed = code.frame message := by
  refine next.front.eq_of_length_le ?_
  have lengths := congrArg List.length next.frames_eq
  simp only [List.append_nil, List.length_append] at lengths
  omega

end Next

end Framing
