import Mathlib.Data.List.Infix

/-!
# Delimiters in a text of which more may come

A delimiter occurs at a position of a text, or it straddles the end: the rest of the text is the
beginning of the delimiter, and what comes next may complete it.  Text in front of every position of
either kind can be let go, whatever comes next.
-/

namespace Delimiters

variable {α : Type*} {needle text more : List α} {needles : List (List α)} {i j : ℕ}

/-- The delimiter occurs at a position. -/
def OccursAt (needle text : List α) (i : ℕ) : Prop := needle <+: text.drop i

/-- The text ends before one of the delimiters, which may begin at a position, is complete. -/
def Straddles (needles : List (List α)) (text : List α) (i : ℕ) : Prop :=
  ∃ needle ∈ needles, text.drop i <+: needle ∧ text.length < i + needle.length

/-- The first position at which a delimiter straddles the end, or the end. -/
structure IsHold (needles : List (List α)) (text : List α) (cut : ℕ) : Prop where
  within : cut ≤ text.length
  straddles : cut < text.length → Straddles needles text cut
  clear : ∀ i < cut, ¬Straddles needles text i

/-! ## Occurrences -/

theorem OccursAt.append (occurs : OccursAt needle text i) (more : List α) :
    OccursAt needle (text ++ more) i := by
  rw [OccursAt, List.drop_append]
  exact occurs.trans (List.prefix_append _ _)

theorem OccursAt.fits (occurs : OccursAt needle text i) (nonempty : needle ≠ []) :
    i + needle.length ≤ text.length := by
  have length := List.IsPrefix.length_le occurs
  have positive := List.length_pos_of_ne_nil nonempty
  rw [List.length_drop] at length
  omega

/-- What is behind the text matters for what straddles its end only. -/
theorem OccursAt.of_append (occurs : OccursAt needle (text ++ more) i)
    (fits : i + needle.length ≤ text.length) : OccursAt needle text i := by
  rw [OccursAt, List.drop_append_of_le_length (by omega)] at occurs
  exact List.prefix_of_prefix_length_le occurs (List.prefix_append _ _) (by simp; omega)

/-- Positions behind a cut are positions of what is behind the cut. -/
theorem drop_append_add (inside : j ≤ text.length) (more : List α) (i : ℕ) :
    (text ++ more).drop (j + i) = (text.drop j ++ more).drop i := by
  rw [← List.drop_drop, List.drop_append_of_le_length inside]

theorem take_append_add (inside : j ≤ text.length) (more : List α) (i : ℕ) :
    (text ++ more).take (j + i) = text.take j ++ (text.drop j ++ more).take i := by
  rw [List.take_add, List.take_append_of_le_length inside, List.drop_append_of_le_length inside]

theorem occursAt_drop_iff (inside : j ≤ text.length) :
    OccursAt needle (text ++ more) (j + i) ↔ OccursAt needle (text.drop j ++ more) i := by
  rw [OccursAt, OccursAt, drop_append_add inside]

theorem straddles_drop_iff (inside : j ≤ text.length) :
    Straddles needles (text ++ more) (j + i) ↔ Straddles needles (text.drop j ++ more) i := by
  have size : (text ++ more).length = j + (text.drop j ++ more).length := by
    simp only [List.length_append, List.length_drop]
    omega
  simp only [Straddles, drop_append_add inside, size, Nat.add_assoc, Nat.add_lt_add_iff_left]

theorem Straddles.of_append (straddles : Straddles needles (text ++ more) i)
    (inside : i ≤ text.length) : Straddles needles text i := by
  obtain ⟨needle, member, begins, beyond⟩ := straddles
  rw [List.drop_append_of_le_length inside] at begins
  rw [List.length_append] at beyond
  exact ⟨needle, member, (List.prefix_append _ _).trans begins, by omega⟩

/-- A delimiter that occurs only with what is behind the text straddles its end. -/
theorem OccursAt.straddles (occurs : OccursAt needle (text ++ more) i) (member : needle ∈ needles)
    (inside : i ≤ text.length) (beyond : text.length < i + needle.length) :
    Straddles needles text i := by
  rw [OccursAt, List.drop_append_of_le_length inside] at occurs
  refine ⟨needle, member, ?_, beyond⟩
  exact List.prefix_of_prefix_length_le (List.prefix_append _ _) occurs (by simp; omega)

/-- A delimiter that starts no earlier than another one and ends earlier is inside of it. -/
theorem OccursAt.isInfix {outer : List α} (occurs : OccursAt needle text i)
    (outerOccurs : OccursAt outer text j) (starts : j ≤ i)
    (ends : i + needle.length < j + outer.length) : needle <:+: outer.dropLast := by
  obtain ⟨further, rfl⟩ := Nat.exists_eq_add_of_le starts
  have size : outer.dropLast.length = outer.length - 1 := List.length_dropLast
  obtain ⟨rest, whole⟩ := (List.dropLast_prefix outer).trans outerOccurs
  rw [OccursAt, ← List.drop_drop, ← whole, List.drop_append_of_le_length (by omega)] at occurs
  have inside : needle <+: outer.dropLast.drop further :=
    List.prefix_of_prefix_length_le occurs (List.prefix_append _ _)
      (by rw [List.length_drop]; omega)
  exact inside.isInfix.trans (List.drop_suffix further _).isInfix

/-! ## What can be let go -/

theorem IsHold.unique (first : IsHold needles text i) (second : IsHold needles text j) : i = j := by
  have firstInside := first.within
  have secondInside := second.within
  obtain less | same | more := Nat.lt_trichotomy i j
  · exact absurd (first.straddles (by omega)) (second.clear i less)
  · exact same
  · exact absurd (second.straddles (by omega)) (first.clear j more)

/-- Behind a text without delimiters, every delimiter begins behind the hold. -/
theorem IsHold.le_of_occursAt (hold : IsHold needles text j)
    (none : ∀ needle ∈ needles, ∀ i, ¬OccursAt needle text i) (member : needle ∈ needles)
    (occurs : OccursAt needle (text ++ more) i) : j ≤ i := by
  by_contra early
  have within := hold.within
  by_cases fits : i + needle.length ≤ text.length
  · exact none needle member i (occurs.of_append fits)
  · exact hold.clear i (by omega) (occurs.straddles member (by omega) (by omega))

/-- Letting go of what is in front of the hold does not move the hold of what comes next. -/
theorem IsHold.append_iff (hold : IsHold needles text j) :
    IsHold needles (text ++ more) (j + i) ↔ IsHold needles (text.drop j ++ more) i := by
  have within := hold.within
  have moved (k : ℕ) : Straddles needles (text ++ more) (j + k) ↔
      Straddles needles (text.drop j ++ more) k := straddles_drop_iff within
  have size : (text ++ more).length = j + (text.drop j ++ more).length := by
    simp only [List.length_append, List.length_drop]
    omega
  constructor
  · rintro ⟨inside, starts, clear⟩
    refine ⟨by omega, fun less => (moved i).mp (starts (by omega)), fun k less straddles => ?_⟩
    exact clear (j + k) (by omega) ((moved k).mpr straddles)
  · rintro ⟨inside, starts, clear⟩
    refine ⟨by omega, fun less => (moved i).mpr (starts (by omega)), fun k less straddles => ?_⟩
    obtain front | behind := Nat.lt_or_ge k j
    · exact hold.clear k front (straddles.of_append (by omega))
    · obtain ⟨further, rfl⟩ := Nat.exists_eq_add_of_le behind
      exact clear further (by omega) ((moved further).mp straddles)

/-! ## Search -/

section Search

variable [DecidableEq α]

instance : Decidable (OccursAt needle text i) :=
  inferInstanceAs (Decidable (needle <+: text.drop i))

/-- The first position at which the delimiter occurs. -/
def find (needle : List α) : List α → Option ℕ
  | [] => if needle = [] then some 0 else none
  | c :: text => if needle <+: c :: text then some 0 else (find needle text).map (· + 1)

theorem find_eq_none_iff (nonempty : needle ≠ []) :
    find needle text = none ↔ ∀ i, ¬OccursAt needle text i := by
  induction text with
  | nil =>
      rw [find, if_neg nonempty]
      refine ⟨fun _ i occurs => ?_, fun _ => rfl⟩
      rw [OccursAt, List.drop_nil] at occurs
      exact nonempty (List.prefix_nil.mp occurs)
  | cons c text ih =>
      rw [find]
      split
      case isTrue begins =>
        exact ⟨fun same => absurd same (Option.some_ne_none 0),
          fun absent => absurd begins (absent 0)⟩
      case isFalse apart =>
        rw [Option.map_eq_none_iff, ih]
        refine ⟨fun absent i => ?_, fun absent i => absent (i + 1)⟩
        cases i with
        | zero => exact apart
        | succ i => exact absent i

theorem find_eq_some_iff (nonempty : needle ≠ []) :
    find needle text = some i ↔ OccursAt needle text i ∧ ∀ j < i, ¬OccursAt needle text j := by
  induction text generalizing i with
  | nil =>
      rw [find, if_neg nonempty]
      refine ⟨fun same => absurd same.symm (Option.some_ne_none i), fun ⟨occurs, _⟩ => ?_⟩
      rw [OccursAt, List.drop_nil] at occurs
      exact absurd (List.prefix_nil.mp occurs) nonempty
  | cons c text ih =>
      rw [find]
      split
      case isTrue begins =>
        rw [Option.some_inj]
        refine ⟨?_, fun ⟨_, first⟩ => ?_⟩
        · rintro rfl
          exact ⟨begins, fun j less => absurd less (Nat.not_lt_zero j)⟩
        · by_contra further
          exact first 0 (Nat.pos_of_ne_zero (Ne.symm further)) begins
      case isFalse apart =>
        rw [Option.map_eq_some_iff]
        constructor
        · rintro ⟨k, found, rfl⟩
          obtain ⟨occurs, first⟩ := ih.mp found
          refine ⟨occurs, fun j less => ?_⟩
          cases j with
          | zero => exact apart
          | succ j => exact first j (Nat.lt_of_succ_lt_succ less)
        · rintro ⟨occurs, first⟩
          cases i with
          | zero => exact absurd occurs apart
          | succ i =>
              refine ⟨i, ih.mpr ⟨occurs, fun j less => ?_⟩, rfl⟩
              exact first (j + 1) (Nat.succ_lt_succ less)

theorem find_append (nonempty : needle ≠ []) (found : find needle text = some i) (more : List α) :
    find needle (text ++ more) = some i := by
  obtain ⟨occurs, first⟩ := (find_eq_some_iff nonempty).mp found
  refine (find_eq_some_iff nonempty).mpr ⟨occurs.append more, fun j less occurs' => ?_⟩
  have fits := occurs.fits nonempty
  exact first j less (occurs'.of_append (by omega))

/-- What is let go does not hide a delimiter from the search. -/
theorem find_append_of_isHold (nonempty : needle ≠ []) (absent : find needle text = none)
    (hold : IsHold [needle] text j) (more : List α) :
    find needle (text ++ more) = (find needle (text.drop j ++ more)).map (j + ·) := by
  have behind (k : ℕ) : OccursAt needle (text ++ more) (j + k) ↔
      OccursAt needle (text.drop j ++ more) k := occursAt_drop_iff hold.within
  have late {k : ℕ} (occurs : OccursAt needle (text ++ more) k) : j ≤ k := by
    refine hold.le_of_occursAt (fun other member => ?_) (List.mem_singleton_self needle) occurs
    rw [List.mem_singleton.mp member]
    exact (find_eq_none_iff nonempty).mp absent
  cases found : find needle (text.drop j ++ more) with
  | none =>
      rw [Option.map_none, find_eq_none_iff nonempty]
      intro k occurs
      obtain ⟨further, rfl⟩ := Nat.exists_eq_add_of_le (late occurs)
      exact (find_eq_none_iff nonempty).mp found further ((behind further).mp occurs)
  | some k =>
      obtain ⟨occurs, first⟩ := (find_eq_some_iff nonempty).mp found
      rw [Option.map_some, find_eq_some_iff nonempty]
      refine ⟨(behind k).mpr occurs, fun l less occurs' => ?_⟩
      obtain ⟨further, rfl⟩ := Nat.exists_eq_add_of_le (late occurs')
      exact first further (by omega) ((behind further).mp occurs')

end Search

end Delimiters
