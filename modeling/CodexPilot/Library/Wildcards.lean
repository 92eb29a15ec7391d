import Mathlib.Data.List.Infix

/-!
# Wildcard patterns

Patterns of symbols, of wildcards for one symbol and of wildcards for any number of symbols.  A
concatenation of patterns accepts the concatenations of the words that its parts accept.
-/

namespace Wildcards

variable {α : Type*}

/-- A piece of a pattern. -/
inductive Token (α : Type*) where
  | one
  | many
  | symbol (value : α)
  deriving DecidableEq

section Accepts

variable [DecidableEq α]

/-- Match a whole text. -/
def accepts : List (Token α) → List α → Bool
  | [], word => word.isEmpty
  | .one :: _, [] => false
  | .one :: tokens, _ :: word => accepts tokens word
  | .many :: tokens, word => word.tails.any (accepts tokens)
  | .symbol _ :: _, [] => false
  | .symbol value :: tokens, first :: word => value = first && accepts tokens word

variable {tokens : List (Token α)} {word : List α}

@[simp]
theorem accepts_nil : accepts ([] : List (Token α)) word = true ↔ word = [] := by
  simp [accepts]

@[simp]
theorem accepts_one : accepts (.one :: tokens) word = true ↔
    ∃ first rest, word = first :: rest ∧ accepts tokens rest = true := by
  cases word <;> simp [accepts]

@[simp]
theorem accepts_many : accepts (.many :: tokens) word = true ↔
    ∃ front back, word = front ++ back ∧ accepts tokens back = true := by
  simp only [accepts, List.any_eq_true, List.mem_tails]
  constructor
  · rintro ⟨back, ⟨front, rfl⟩, accepted⟩
    exact ⟨front, back, rfl, accepted⟩
  · rintro ⟨front, back, rfl, accepted⟩
    exact ⟨back, List.suffix_append front back, accepted⟩

@[simp]
theorem accepts_symbol {value : α} : accepts (.symbol value :: tokens) word = true ↔
    ∃ rest, word = value :: rest ∧ accepts tokens rest = true := by
  cases word with
  | nil => simp [accepts]
  | cons first word =>
      simp only [accepts, Bool.and_eq_true, decide_eq_true_eq]
      constructor
      · rintro ⟨rfl, accepted⟩
        exact ⟨word, rfl, accepted⟩
      · rintro ⟨rest, ⟨⟩, accepted⟩
        exact ⟨rfl, accepted⟩

/-- A concatenation of patterns accepts the concatenated words. -/
theorem accepts_append (before after : List (Token α)) (word : List α) :
    accepts (before ++ after) word = true ↔
      ∃ front back, word = front ++ back ∧ accepts before front = true ∧
        accepts after back = true := by
  induction before generalizing word with
  | nil => simp
  | cons token before ih =>
      rw [List.cons_append]
      cases token with
      | one =>
          simp only [accepts_one, ih]
          constructor
          · rintro ⟨first, rest, rfl, front, back, rfl, accepted, accepted'⟩
            exact ⟨first :: front, back, rfl, ⟨first, front, rfl, accepted⟩, accepted'⟩
          · rintro ⟨front, back, rfl, ⟨first, rest, rfl, accepted⟩, accepted'⟩
            exact ⟨first, rest ++ back, rfl, rest, back, rfl, accepted, accepted'⟩
      | many =>
          simp only [accepts_many, ih]
          constructor
          · rintro ⟨skipped, rest, rfl, front, back, rfl, accepted, accepted'⟩
            exact ⟨skipped ++ front, back, (List.append_assoc ..).symm,
              ⟨skipped, front, rfl, accepted⟩, accepted'⟩
          · rintro ⟨front, back, rfl, ⟨skipped, rest, rfl, accepted⟩, accepted'⟩
            have whole := List.append_assoc skipped rest back
            exact ⟨skipped, rest ++ back, whole, rest, back, rfl, accepted, accepted'⟩
      | symbol value =>
          simp only [accepts_symbol, ih]
          constructor
          · rintro ⟨rest, rfl, front, back, rfl, accepted, accepted'⟩
            exact ⟨value :: front, back, rfl, ⟨front, rfl, accepted⟩, accepted'⟩
          · rintro ⟨front, back, rfl, ⟨rest, rfl, accepted⟩, accepted'⟩
            exact ⟨rest ++ back, rfl, rest, back, rfl, accepted, accepted'⟩

theorem accepts_symbols (symbols : List α) :
    accepts (symbols.map .symbol) word = true ↔ symbols = word := by
  induction symbols generalizing word with
  | nil => exact accepts_nil.trans ⟨Eq.symm, Eq.symm⟩
  | cons value symbols ih =>
      simp only [List.map_cons, accepts_symbol, ih]
      constructor
      · rintro ⟨rest, rfl, rfl⟩
        rfl
      · rintro rfl
        exact ⟨symbols, rfl, rfl⟩

/-- One symbol and then anything: any word that is not empty. -/
theorem accepts_one_many : accepts [.one, .many] word = true ↔ word ≠ [] := by
  cases word <;> simp

end Accepts

end Wildcards
