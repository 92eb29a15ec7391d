import Mathlib.Data.List.Infix

/-!
# Pieces ended by a mark

A text is cut behind every mark.  Every piece but the last ends with the mark, and what is appended
to the text leaves the pieces that have ended as they are.
-/

namespace Terminated

variable {κ : Type*} [DecidableEq κ] {mark : κ} {text more piece : List κ} {rest : List (List κ)}

/-- Cut behind every mark. -/
def pieces (mark : κ) : List κ → List (List κ)
  | [] => []
  | symbol :: text =>
      if symbol = mark then [symbol] :: pieces mark text
      else
        match pieces mark text with
        | [] => [[symbol]]
        | piece :: rest => (symbol :: piece) :: rest

@[simp]
theorem pieces_nil : pieces mark [] = [] := rfl

theorem pieces_mark : pieces mark (mark :: text) = [mark] :: pieces mark text := if_pos rfl

theorem pieces_cons {symbol : κ} (other : symbol ≠ mark) :
    pieces mark (symbol :: text) =
      (symbol :: (pieces mark text).headD []) :: (pieces mark text).tail := by
  rw [pieces, if_neg other]
  cases pieces mark text <;> rfl

/-- The first piece ends at the first mark. -/
theorem pieces_append_mark (absent : mark ∉ piece) (text : List κ) :
    pieces mark (piece ++ mark :: text) = (piece ++ [mark]) :: pieces mark text := by
  induction piece with
  | nil => exact pieces_mark
  | cons symbol piece ih =>
      rw [List.mem_cons, not_or] at absent
      rw [List.cons_append, pieces_cons (Ne.symm absent.1), ih absent.2]
      rfl

/-- Without a mark there is one piece. -/
theorem pieces_of_notMem (absent : mark ∉ piece) (nonempty : piece ≠ []) :
    pieces mark piece = [piece] := by
  induction piece with
  | nil => exact absurd rfl nonempty
  | cons symbol piece ih =>
      rw [List.mem_cons, not_or] at absent
      rw [pieces_cons (Ne.symm absent.1)]
      cases piece with
      | nil => rfl
      | cons next piece =>
          rw [ih absent.2 (List.cons_ne_nil next piece)]
          rfl

/-- Nothing is lost. -/
@[simp]
theorem flatten_pieces : (pieces mark text).flatten = text := by
  induction text with
  | nil => rfl
  | cons symbol text ih =>
      obtain rfl | other := eq_or_ne symbol mark
      · rw [pieces_mark, List.flatten_cons, ih]
        rfl
      · rw [pieces_cons other, List.flatten_cons, List.cons_append]
        have joined : (pieces mark text).headD [] ++ (pieces mark text).tail.flatten = text := by
          rw [← List.flatten_cons]
          cases cut : pieces mark text with
          | nil | cons piece rest => rwa [cut] at ih
        rw [joined]

theorem ne_nil_of_mem_pieces (member : piece ∈ pieces mark text) : piece ≠ [] := by
  induction text generalizing piece with
  | nil => exact absurd member List.not_mem_nil
  | cons symbol text ih =>
      obtain rfl | other := eq_or_ne symbol mark
      · rw [pieces_mark] at member
        obtain rfl | later := List.mem_cons.mp member
        · exact List.cons_ne_nil _ _
        · exact ih later
      · rw [pieces_cons other] at member
        obtain rfl | later := List.mem_cons.mp member
        · exact List.cons_ne_nil _ _
        · exact ih (List.mem_of_mem_tail later)

/-- The pieces that have ended stay as they are. -/
theorem take_pieces_append :
    (pieces mark (text ++ more)).take (text.count mark) =
      (pieces mark text).take (text.count mark) := by
  induction text with
  | nil => rfl
  | cons symbol text ih =>
      rw [List.cons_append]
      obtain rfl | other := eq_or_ne symbol mark
      · rw [pieces_mark, pieces_mark, List.count_cons_self, List.take_succ_cons,
          List.take_succ_cons, ih]
      · rw [pieces_cons other, pieces_cons other, List.count_cons_of_ne other]
        generalize text.count mark = ended at ih ⊢
        cases ended with
        | zero => rfl
        | succ count =>
            have same (cut : List (List κ)) :
                ((symbol :: cut.headD []) :: cut.tail).take (count + 1) =
                  (symbol :: (cut.take (count + 1)).headD []) :: (cut.take (count + 1)).tail := by
              cases cut <;> simp
            rw [same, same, ih]

/-- Pieces are cut as they are. -/
theorem pieces_flatten_of_cons (cut : pieces mark text = piece :: rest) :
    pieces mark rest.flatten = rest := by
  induction text generalizing piece rest with
  | nil => cases cut
  | cons symbol text ih =>
      obtain rfl | other := eq_or_ne symbol mark
      · rw [pieces_mark] at cut
        obtain ⟨-, rfl⟩ := List.cons.inj cut
        rw [flatten_pieces]
      · rw [pieces_cons other] at cut
        obtain ⟨-, rfl⟩ := List.cons.inj cut
        cases later : pieces mark text with
        | nil => rfl
        | cons next others => exact ih later

theorem pieces_flatten_drop (count : ℕ) :
    pieces mark ((pieces mark text).drop count).flatten = (pieces mark text).drop count := by
  induction count generalizing text with
  | zero => rw [List.drop_zero, flatten_pieces]
  | succ count ih =>
      cases cut : pieces mark text with
      | nil => rfl
      | cons piece rest =>
          rw [List.drop_succ_cons, ← pieces_flatten_of_cons cut]
          exact ih

end Terminated
