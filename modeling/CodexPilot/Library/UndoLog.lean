import Mathlib.Data.List.Infix
import Mathlib.Data.List.ReduceOption

/-!
# Two readings of an undo log

A log pushes entries, some of which carry a value, and undoes the last ones.  One reader undoes
entries, the other one values.  They end with the same values exactly when every undo since the last
one that left no value has only met entries with a value.
-/

namespace UndoLog

variable {α : Type*}

/-- A command of the log. -/
inductive Command (α : Type*) where
  | push (entry : Option α)
  | undo (count : ℕ)

/-- Undo entries. -/
def entriesStep (entries : List (Option α)) : Command α → List (Option α)
  | .push entry => entries ++ [entry]
  | .undo count => entries.take (entries.length - count)

/-- Undo values. -/
def valuesStep (values : List α) : Command α → List α
  | .push entry => values ++ entry.toList
  | .undo count => values.take (values.length - count)

/-- An undo that leaves no value makes the readings agree; another one keeps them so when it only
undoes entries with a value. -/
def agreeStep (state : List (Option α) × Bool) (command : Command α) : List (Option α) × Bool :=
  match command with
  | .push entry => (state.1 ++ [entry], state.2)
  | .undo count =>
      let kept := state.1.take (state.1.length - count)
      let undone := state.1.drop (state.1.length - count)
      (kept, kept.all (·.isNone) || (state.2 && undone.all (·.isSome)))

/-- The readings agree after a log. -/
def agrees (commands : List (Command α)) : Bool := (commands.foldl agreeStep ([], true)).2

theorem reduceOption_eq_nil_iff {entries : List (Option α)} :
    entries.reduceOption = [] ↔ entries.all (·.isNone) = true := by
  induction entries with
  | nil => simp
  | cons entry entries ih =>
      cases entry with
      | none => simpa using ih
      | some value => simp

theorem length_reduceOption_eq_iff {entries : List (Option α)} :
    entries.reduceOption.length = entries.length ↔ entries.all (·.isSome) = true := by
  induction entries with
  | nil => simp
  | cons entry entries ih =>
      cases entry with
      | none =>
          have fewer := List.reduceOption_length_le entries
          simp only [List.reduceOption_cons_of_none, List.length_cons, List.all_cons,
            Option.isSome_none, Bool.false_and, Bool.false_eq_true, iff_false]
          omega
      | some value => simpa using ih

/-- Of a sublist, a cut at the end takes at least as much when it is longer. -/
theorem take_sublist_of_sublist_append {values front back : List α} {count : ℕ}
    (sublist : values.Sublist (front ++ back)) (short : back.length ≤ count) :
    (values.take (values.length - count)).Sublist front := by
  obtain ⟨first, second, rfl, inFront, inBack⟩ := List.sublist_append_iff.mp sublist
  have within : (first ++ second).length - count ≤ first.length := by
    have bound := inBack.length_le
    rw [List.length_append]
    omega
  rw [List.take_append_of_le_length within]
  exact (List.take_sublist _ _).trans inFront

/-- What a reader of values has is part of what a reader of entries has, and all of it exactly when
they agree. -/
structure Tracks (entries : List (Option α)) (values : List α) (agree : Bool) : Prop where
  sublist : values.Sublist entries.reduceOption
  length_iff : agree = true ↔ values.length = entries.reduceOption.length

theorem tracks_step {entries : List (Option α)} {values : List α} {agree : Bool}
    (tracks : Tracks entries values agree) (command : Command α) :
    Tracks (agreeStep (entries, agree) command).1 (valuesStep values command)
      (agreeStep (entries, agree) command).2 := by
  cases command with
  | push entry =>
      have grown : (entries ++ [entry]).reduceOption = entries.reduceOption ++ entry.toList := by
        rw [List.reduceOption_append]
        cases entry <;> rfl
      constructor
      · simp only [agreeStep, valuesStep, grown]
        exact tracks.sublist.append (List.Sublist.refl _)
      · simp only [agreeStep, valuesStep, grown, List.length_append, Nat.add_right_cancel_iff]
        exact tracks.length_iff
  | undo count =>
      have split : entries.reduceOption =
          (entries.take (entries.length - count)).reduceOption ++
            (entries.drop (entries.length - count)).reduceOption := by
        rw [← List.reduceOption_append, List.take_append_drop]
      have undone : (entries.drop (entries.length - count)).reduceOption.length ≤ count := by
        refine (List.reduceOption_length_le _).trans ?_
        rw [List.length_drop]
        omega
      constructor
      · have sublist := tracks.sublist
        rw [split] at sublist
        exact take_sublist_of_sublist_append sublist undone
      · have fewer := tracks.sublist.length_le
        have total := congrArg List.length split
        rw [List.length_append] at total
        have keptLength : (entries.take (entries.length - count)).length =
            entries.length - count := by
          rw [List.length_take]
          omega
        have undoneLength : (entries.drop (entries.length - count)).length =
            entries.length - (entries.length - count) := List.length_drop
        have keptValues := List.reduceOption_length_le (entries.take (entries.length - count))
        simp only [agreeStep, valuesStep, Bool.or_eq_true, Bool.and_eq_true,
          ← reduceOption_eq_nil_iff, ← length_reduceOption_eq_iff, ← List.length_eq_zero_iff,
          tracks.length_iff, List.length_take]
        omega

theorem tracks_run {entries : List (Option α)} {values : List α} {agree : Bool}
    (tracks : Tracks entries values agree) (commands : List (Command α)) :
    Tracks (commands.foldl entriesStep entries) (commands.foldl valuesStep values)
      (commands.foldl agreeStep (entries, agree)).2 := by
  induction commands generalizing entries values agree with
  | nil => exact tracks
  | cons command commands ih =>
      have later := ih (tracks_step tracks command)
      cases command with
      | push entry | undo count => exact later

theorem tracks_agrees (commands : List (Command α)) :
    Tracks (commands.foldl entriesStep []) (commands.foldl valuesStep []) (agrees commands) :=
  tracks_run ⟨List.Sublist.refl _, by simp⟩ commands

/-- Where the readings agree, they have the same values. -/
theorem values_eq_of_agrees {commands : List (Command α)} (agree : agrees commands = true) :
    commands.foldl valuesStep [] = (commands.foldl entriesStep []).reduceOption := by
  have tracks := tracks_agrees commands
  exact tracks.sublist.eq_of_length (tracks.length_iff.mp agree)

/-- Where they do not agree, they do not even have the same number of values. -/
theorem agrees_of_length_eq {commands : List (Command α)}
    (same : (commands.foldl valuesStep []).length =
      (commands.foldl entriesStep []).reduceOption.length) : agrees commands = true :=
  (tracks_agrees commands).length_iff.mpr same

/-! ## How far a log reaches back -/

/-- The undoes that are still to be made, when the log is read backwards. -/
def reachStep (command : Command α) (pending : ℕ) : ℕ :=
  match command with
  | .push entry => pending - entry.toList.length
  | .undo count => pending + count

/-- How many values from before the log it undoes, followed by some more undoes. -/
def reach (commands : List (Command α)) (pending : ℕ) : ℕ := commands.foldr reachStep pending

theorem reach_concat (commands : List (Command α)) (command : Command α) (pending : ℕ) :
    reach (commands ++ [command]) pending = reach commands (reachStep command pending) := by
  rw [reach, List.foldr_append, List.foldr_cons, List.foldr_nil, reach]

theorem reach_push_cons (value : α) (commands : List (Command α)) (pending : ℕ) :
    reach (.push (some value) :: commands) pending = reach commands pending - 1 :=
  rfl

theorem reach_undo_cons (count : ℕ) (commands : List (Command α)) (pending : ℕ) :
    reach (.undo count :: commands) pending = reach commands pending + count :=
  rfl

/-- Undoing after one more command is undoing the rest of it. -/
theorem take_valuesStep (values : List α) (command : Command α) (pending : ℕ) :
    (valuesStep values command).take ((valuesStep values command).length - pending) =
      values.take (values.length - reachStep command pending) ++
        (valuesStep [] command).take ((valuesStep [] command).length - pending) := by
  cases command with
  | push entry =>
      rw [valuesStep, valuesStep, reachStep, List.nil_append, List.length_append, List.take_append]
      congr 1
      · rcases Nat.le_total pending entry.toList.length with fewer | more
        · rw [Nat.sub_eq_zero_of_le fewer, Nat.sub_zero, List.take_length,
            List.take_of_length_le (by omega)]
        · congr 1
          omega
      · congr 1
        omega
  | undo count =>
      rw [valuesStep, valuesStep, reachStep, List.take_nil, List.take_nil, List.append_nil,
        List.take_take, List.length_take]
      congr 1
      omega

/-- A log leaves of the values before it those that it does not reach, and its own. -/
theorem take_foldl_valuesStep (commands : List (Command α)) (values : List α) (pending : ℕ) :
    (commands.foldl valuesStep values).take
        ((commands.foldl valuesStep values).length - pending) =
      values.take (values.length - reach commands pending) ++
        (commands.foldl valuesStep []).take
          ((commands.foldl valuesStep []).length - pending) := by
  induction commands using List.reverseRecOn generalizing pending with
  | nil => rw [List.foldl_nil, List.foldl_nil, List.take_nil, List.append_nil]; rfl
  | append_singleton commands command before =>
      rw [List.foldl_concat, List.foldl_concat, take_valuesStep, before,
        take_valuesStep (commands.foldl valuesStep []), reach_concat, List.append_assoc]

theorem foldl_valuesStep (commands : List (Command α)) (values : List α) :
    commands.foldl valuesStep values =
      values.take (values.length - reach commands 0) ++ commands.foldl valuesStep [] := by
  have cut := take_foldl_valuesStep commands values 0
  rwa [Nat.sub_zero, Nat.sub_zero, List.take_length, List.take_length] at cut

end UndoLog
