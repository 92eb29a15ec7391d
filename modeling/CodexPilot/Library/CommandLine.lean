import Mathlib.Data.List.Forall2
import Mathlib.Data.List.Infix

/-!
# Options and operands

A reader of a command line passes over the options in front of the first operand, and over the
values that some options take from the next word.  Two readers that differ in which options take a
value find the same operands, unless one takes as a value what the other reads itself.  Operands
fall in their order into slots, each of which takes a group of them.
-/

namespace CommandLine

variable {α : Type*}

/-- How the words of a command line are told apart. -/
structure Reader (α : Type*) where
  isOption : α → Bool
  /-- Whether the next word is the value of this one. -/
  takesValue : α → Bool

namespace Reader

/-- A word that is passed over alone. -/
def standsAlone (reader : Reader α) (word : α) : Bool :=
  reader.isOption word && !reader.takesValue word

/-- The first operand and what follows it; a value may be due in front. -/
def operands (reader : Reader α) : Bool → List α → List α
  | _, [] => []
  | true, _ :: rest => reader.operands false rest
  | false, word :: rest =>
      if reader.takesValue word then reader.operands true rest
      else if reader.isOption word then reader.operands false rest
      else word :: rest

/-- The words in front of the first operand. -/
def opening (reader : Reader α) : Bool → List α → List α
  | _, [] => []
  | true, value :: rest => value :: reader.opening false rest
  | false, word :: rest =>
      if reader.takesValue word then word :: reader.opening true rest
      else if reader.isOption word then word :: reader.opening false rest
      else []

/-- Where the first reader takes a value that the second one reads itself: the words that the first
reader goes on with. -/
def parting (reader other : Reader α) : Bool → List α → Option (List α)
  | _, [] => none
  | true, _ :: rest => parting reader other false rest
  | false, word :: rest =>
      if other.takesValue word then parting reader other true rest
      else if reader.takesValue word then
        match rest with
        | [] => none
        | value :: left =>
            if other.standsAlone value then parting reader other false left else some left
      else if reader.isOption word then parting reader other false rest
      else none

variable {reader other : Reader α} {due : Bool} {words left : List α}

theorem opening_append_operands (reader : Reader α) (due : Bool) (words : List α) :
    reader.opening due words ++ reader.operands due words = words := by
  induction words generalizing due with
  | nil => cases due <;> rfl
  | cons word rest ih =>
      cases due with
      | true => exact congrArg (word :: ·) (ih false)
      | false =>
          rw [opening, operands]
          split
          · exact congrArg (word :: ·) (ih true)
          · split
            · exact congrArg (word :: ·) (ih false)
            · rfl

/-- What the second reader takes to have a value has one for the first, and options are the same. -/
structure Refines (reader other : Reader α) (word : α) : Prop where
  takesValue : other.takesValue word = true → reader.takesValue word = true
  isOption : other.isOption word = reader.isOption word
  option : reader.takesValue word = true → reader.isOption word = true

theorem operands_of_standsAlone {word : α} (alone : reader.standsAlone word = true)
    (rest : List α) : reader.operands false (word :: rest) = reader.operands false rest := by
  obtain ⟨option, valueless⟩ := Bool.and_eq_true_iff.mp alone
  rw [operands, if_neg (by simpa using valueless), if_pos option]

theorem operands_of_takesValue {word : α} (takes : reader.takesValue word = true)
    (rest : List α) : reader.operands false (word :: rest) = reader.operands true rest := by
  rw [operands, if_pos takes]

/-- Readers that do not part find the same operands. -/
theorem operands_eq (refines : ∀ word ∈ words, reader.Refines other word)
    (together : parting reader other due words = none) :
    reader.operands due words = other.operands due words := by
  fun_induction parting reader other due words with
  | case1 due => cases due <;> rfl
  | case2 word rest ih => exact ih (List.forall_mem_cons.mp refines).2 together
  | case3 word rest both ih =>
      obtain ⟨own, later⟩ := List.forall_mem_cons.mp refines
      rw [operands_of_takesValue (own.takesValue both), operands_of_takesValue both]
      exact ih later together
  | case4 word single takes =>
      obtain ⟨own, -⟩ := List.forall_mem_cons.mp refines
      have alone : other.standsAlone word = true := by
        simp [standsAlone, single, own.isOption, own.option takes]
      rw [operands_of_takesValue takes, operands_of_standsAlone alone]
      rfl
  | case5 word single takes value left valueAlone ih =>
      obtain ⟨own, later⟩ := List.forall_mem_cons.mp refines
      have alone : other.standsAlone word = true := by
        simp [standsAlone, single, own.isOption, own.option takes]
      rw [operands_of_takesValue takes, operands_of_standsAlone alone,
        operands_of_standsAlone valueAlone]
      exact ih (List.forall_mem_cons.mp later).2 together
  | case6 => cases together
  | case7 word rest single valueless option ih =>
      obtain ⟨own, later⟩ := List.forall_mem_cons.mp refines
      have alone : reader.standsAlone word = true := by simp [standsAlone, valueless, option]
      have otherAlone : other.standsAlone word = true := by
        simp [standsAlone, single, own.isOption, option]
      rw [operands_of_standsAlone alone, operands_of_standsAlone otherAlone]
      exact ih later together
  | case8 word rest single valueless operand =>
      obtain ⟨own, -⟩ := List.forall_mem_cons.mp refines
      simp [operands, single, valueless, operand, own.isOption]

/-- Where the readers part, the first one goes on with the words that are left. -/
theorem operands_eq_of_parting (refines : ∀ word ∈ words, reader.Refines other word)
    (parted : parting reader other due words = some left) :
    reader.operands due words = reader.operands false left := by
  fun_induction parting reader other due words with
  | case1 due => cases parted
  | case2 word rest ih => exact ih (List.forall_mem_cons.mp refines).2 parted
  | case3 word rest both ih =>
      obtain ⟨own, later⟩ := List.forall_mem_cons.mp refines
      rw [operands_of_takesValue (own.takesValue both)]
      exact ih later parted
  | case4 => cases parted
  | case5 word single takes value left valueAlone ih =>
      obtain ⟨-, later⟩ := List.forall_mem_cons.mp refines
      rw [operands_of_takesValue takes]
      exact ih (List.forall_mem_cons.mp later).2 parted
  | case6 word single takes value left paired =>
      cases parted
      rw [operands_of_takesValue takes]
      rfl
  | case7 word rest single valueless option ih =>
      obtain ⟨-, later⟩ := List.forall_mem_cons.mp refines
      have alone : reader.standsAlone word = true := by simp [standsAlone, valueless, option]
      rw [operands_of_standsAlone alone]
      exact ih later parted
  | case8 => cases parted

end Reader
/-! ## Operands and slots -/

section Slots

variable {σ : Type*} {Takes : σ → List α → Prop} {Fits : σ → α → Prop} {slots more : List σ}
  {slot : σ} {operands : List α} {assigned : List (σ × α)}

/-- The operands fall, in their order, into one group for each slot. -/
def Assigns (Takes : σ → List α → Prop) (slots : List σ) (operands : List α)
    (assigned : List (σ × α)) : Prop :=
  ∃ groups, List.Forall₂ Takes slots groups ∧ groups.flatten = operands ∧
    assigned = (List.zipWith (fun slot group => group.map (slot, ·)) slots groups).flatten

@[simp]
theorem assigns_nil : Assigns Takes [] operands assigned ↔ operands = [] ∧ assigned = [] := by
  constructor
  · rintro ⟨groups, takes, rfl, rfl⟩
    cases takes
    exact ⟨rfl, rfl⟩
  · rintro ⟨rfl, rfl⟩
    exact ⟨[], .nil, rfl, rfl⟩

/-- The first slot takes the operands in front. -/
theorem assigns_cons :
    Assigns Takes (slot :: slots) operands assigned ↔ ∃ group rest later, Takes slot group ∧
      Assigns Takes slots rest later ∧ operands = group ++ rest ∧
        assigned = group.map (slot, ·) ++ later := by
  constructor
  · rintro ⟨groups, takes, rfl, rfl⟩
    cases takes with
    | @cons _ group _ groups first others =>
        exact ⟨group, groups.flatten, _, first, ⟨groups, others, rfl, rfl⟩, rfl, rfl⟩
  · rintro ⟨group, rest, later, first, ⟨groups, others, rfl, rfl⟩, rfl, rfl⟩
    exact ⟨group :: groups, .cons first others, rfl, rfl⟩

theorem assigns_append :
    Assigns Takes (slots ++ more) operands assigned ↔ ∃ front back first second,
      Assigns Takes slots front first ∧ Assigns Takes more back second ∧
        operands = front ++ back ∧ assigned = first ++ second := by
  induction slots generalizing operands assigned with
  | nil =>
      rw [List.nil_append]
      constructor
      · intro assigns
        exact ⟨[], operands, [], assigned, assigns_nil.mpr ⟨rfl, rfl⟩, assigns, rfl, rfl⟩
      · rintro ⟨front, back, first, second, nothing, assigns, rfl, rfl⟩
        obtain ⟨rfl, rfl⟩ := assigns_nil.mp nothing
        exact assigns
  | cons slot slots ih =>
      rw [List.cons_append, assigns_cons]
      constructor
      · rintro ⟨group, rest, later, takes, assigns, rfl, rfl⟩
        obtain ⟨front, back, first, second, fore, aft, rfl, rfl⟩ := ih.mp assigns
        refine ⟨group ++ front, back, group.map (slot, ·) ++ first, second, ?_, aft, ?_, ?_⟩
        · exact assigns_cons.mpr ⟨group, front, first, takes, fore, rfl, rfl⟩
        all_goals rw [List.append_assoc]
      · rintro ⟨front, back, first, second, fore, aft, rfl, rfl⟩
        obtain ⟨group, rest, later, takes, assigns, rfl, rfl⟩ := assigns_cons.mp fore
        refine ⟨group, rest ++ back, later ++ second, takes, ?_, ?_, ?_⟩
        · exact ih.mpr ⟨rest, back, later, second, assigns, aft, rfl, rfl⟩
        all_goals rw [List.append_assoc]

theorem assigns_singleton :
    Assigns Takes [slot] operands assigned ↔
      Takes slot operands ∧ assigned = operands.map (slot, ·) := by
  rw [assigns_cons]
  constructor
  · rintro ⟨group, rest, later, takes, nothing, rfl, rfl⟩
    obtain ⟨rfl, rfl⟩ := assigns_nil.mp nothing
    rw [List.append_nil, List.append_nil]
    exact ⟨takes, rfl⟩
  · rintro ⟨takes, rfl⟩
    refine ⟨operands, [], [], takes, assigns_nil.mpr ⟨rfl, rfl⟩, ?_, ?_⟩
    · rw [List.append_nil]
    · rw [List.append_nil]

/-- Slots for one operand each. -/
theorem assigns_of_single
    (single : ∀ slot ∈ slots, ∀ group, Takes slot group ↔ ∃ item, group = [item] ∧ Fits slot item) :
    Assigns Takes slots operands assigned ↔
      List.Forall₂ Fits slots operands ∧ assigned = slots.zip operands := by
  induction slots generalizing operands assigned with
  | nil =>
      rw [assigns_nil, List.forall₂_nil_left_iff]
      constructor
      all_goals
        rintro ⟨rfl, rfl⟩
        exact ⟨rfl, rfl⟩
  | cons slot slots ih =>
      obtain ⟨first, others⟩ := List.forall_mem_cons.mp single
      rw [assigns_cons]
      constructor
      · rintro ⟨group, rest, later, takes, assigns, rfl, rfl⟩
        obtain ⟨item, rfl, fits⟩ := (first group).mp takes
        obtain ⟨all, rfl⟩ := (ih others).mp assigns
        exact ⟨.cons fits all, rfl⟩
      · rintro ⟨all, rfl⟩
        cases all with
        | @cons _ item _ rest fits all =>
            exact ⟨[item], rest, slots.zip rest, (first [item]).mpr ⟨item, rfl, fits⟩,
              (ih others).mpr ⟨all, rfl⟩, rfl, rfl⟩

theorem Assigns.map_snd (assigns : Assigns Takes slots operands assigned) :
    assigned.map Prod.snd = operands := by
  induction slots generalizing operands assigned with
  | nil =>
      obtain ⟨rfl, rfl⟩ := assigns_nil.mp assigns
      rfl
  | cons slot slots ih =>
      obtain ⟨group, rest, later, -, others, rfl, rfl⟩ := assigns_cons.mp assigns
      rw [List.map_append, ih others, List.map_map]
      congr 1
      exact List.map_id group

end Slots

end CommandLine
