import Mathlib.Algebra.GroupWithZero.Nat
import Mathlib.Data.List.Nodup
import Mathlib.Logic.Relation

/-!
# Numbers for the entries of blocks

Entries are put into blocks, and some of them get the next number.  Blocks are only taken away from
the end, and the next number is then one more than the count of the entries that are left.  A number
is never above the count of the entries up to its block, so numbers stay different.
-/

namespace Numbering

/-- The numbers in a block, and how many entries it has. -/
structure Block where
  numbers : List ℕ
  size : ℕ

/-- Blocks, and the next number. -/
structure Ledger where
  blocks : List Block
  next : ℕ

/-- All numbers issued. -/
def numbers (blocks : List Block) : List ℕ := blocks.flatMap Block.numbers

/-- All entries. -/
def total (blocks : List Block) : ℕ := (blocks.map Block.size).sum

/-- Open or drop an empty block, or issue a number in the last one. -/
inductive Step : Ledger → Ledger → Prop
  | opens (blocks : List Block) (next : ℕ) : Step ⟨blocks, next⟩ ⟨blocks ++ [⟨[], 0⟩], next⟩
  | drops (blocks : List Block) (next : ℕ) : Step ⟨blocks ++ [⟨[], 0⟩], next⟩ ⟨blocks, next⟩
  | issues (blocks : List Block) (block : Block) (next : ℕ) :
      Step ⟨blocks ++ [block], next⟩
        ⟨blocks ++ [⟨block.numbers ++ [next], block.size + 1⟩], next + 1⟩
  | grows (before : List Block) (block : Block) (after : List Block) (more next : ℕ) :
      Step ⟨before ++ block :: after, next⟩
        ⟨before ++ ⟨block.numbers, block.size + more⟩ :: after, next⟩
  | truncates (kept dropped : List Block) (next : ℕ) :
      Step ⟨kept ++ dropped, next⟩ ⟨kept, total kept + 1⟩

/-- Any number of steps. -/
abbrev Reaches : Ledger → Ledger → Prop := Relation.ReflTransGen Step

/-- Behind a number of entries, the numbers of a block are at most the entries up to its end. -/
def Counted : ℕ → List Block → Prop
  | _, [] => True
  | offset, block :: blocks =>
      (∀ number ∈ block.numbers, number ≤ offset + block.size) ∧
        Counted (offset + block.size) blocks

/-- The invariant of a ledger. -/
structure Numbered (ledger : Ledger) : Prop where
  counted : Counted 0 ledger.blocks
  fresh : ∀ number ∈ numbers ledger.blocks, number < ledger.next
  next_le : ledger.next ≤ total ledger.blocks + 1
  nodup : (numbers ledger.blocks).Nodup

variable {before after blocks : List Block} {block : Block} {offset : ℕ} {ledger later : Ledger}

@[simp]
theorem numbers_append (before after : List Block) :
    numbers (before ++ after) = numbers before ++ numbers after := List.flatMap_append

@[simp]
theorem numbers_cons (block : Block) (blocks : List Block) :
    numbers (block :: blocks) = block.numbers ++ numbers blocks := List.flatMap_cons

@[simp]
theorem numbers_nil : numbers [] = [] := rfl

@[simp]
theorem total_append (before after : List Block) :
    total (before ++ after) = total before + total after := by
  simp [total]

@[simp]
theorem total_cons (block : Block) (blocks : List Block) :
    total (block :: blocks) = block.size + total blocks := by
  simp [total]

@[simp]
theorem total_nil : total [] = 0 := rfl

theorem counted_append :
    Counted offset (before ++ after) ↔
      Counted offset before ∧ Counted (offset + total before) after := by
  induction before generalizing offset with
  | nil => simp [Counted]
  | cons block before ih =>
      rw [List.cons_append, Counted, Counted, ih, total_cons, Nat.add_assoc, and_assoc]

theorem Counted.mono (counted : Counted offset blocks) (more : ℕ) :
    Counted (offset + more) blocks := by
  induction blocks generalizing offset with
  | nil => trivial
  | cons block blocks ih =>
      refine ⟨fun number member => ?_, ?_⟩
      · have bound := counted.1 number member
        omega
      · rw [Nat.add_right_comm]
        exact ih counted.2

theorem Counted.le_total (counted : Counted offset blocks) :
    ∀ number ∈ numbers blocks, number ≤ offset + total blocks := by
  induction blocks generalizing offset with
  | nil => exact fun number member => nomatch member
  | cons block blocks ih =>
      intro number member
      rw [total_cons]
      rw [numbers_cons, List.mem_append] at member
      obtain first | rest := member
      · have bound := counted.1 number first
        omega
      · have bound := ih counted.2 number rest
        omega

theorem Numbered.step (numbered : Numbered ledger) (step : Step ledger later) : Numbered later := by
  obtain ⟨counted, fresh, next_le, nodup⟩ := numbered
  cases step with
  | opens blocks next =>
      refine ⟨counted_append.mpr ⟨counted, by simp [Counted]⟩, ?_, ?_, ?_⟩
      · simpa using fresh
      · simpa using next_le
      · simpa using nodup
  | drops blocks next =>
      refine ⟨(counted_append.mp counted).1, ?_, ?_, ?_⟩
      · simpa using fresh
      · simpa using next_le
      · simpa using nodup
  | issues blocks block next =>
      obtain ⟨first, last, -⟩ := counted_append.mp counted
      simp only [numbers_append, numbers_cons, numbers_nil, List.append_nil, total_append,
        total_cons, total_nil] at fresh next_le nodup
      refine ⟨counted_append.mpr ⟨first, ?_, trivial⟩, ?_, ?_, ?_⟩
      · intro number member
        obtain old | new := List.mem_append.mp member
        · have bound := last number old
          exact Nat.le_succ_of_le bound
        · rw [List.mem_singleton.mp new]
          dsimp only
          omega
      · intro number member
        simp only [numbers_append, numbers_cons, numbers_nil, List.append_nil,
          ← List.append_assoc] at member
        obtain old | new := List.mem_append.mp member
        · exact Nat.lt_succ_of_lt (fresh number old)
        · rw [List.mem_singleton.mp new]
          exact Nat.lt_succ_self next
      · simp only [total_append, total_cons, total_nil]
        omega
      · simp only [numbers_append, numbers_cons, numbers_nil, List.append_nil,
          ← List.append_assoc]
        apply List.Nodup.append nodup (List.nodup_singleton next)
        rw [List.disjoint_singleton]
        exact fun member => Nat.lt_irrefl next (fresh next member)
  | grows before block after more next =>
      obtain ⟨first, last, rest⟩ := counted_append.mp counted
      refine ⟨counted_append.mpr ⟨first, ?_, ?_⟩, ?_, ?_, ?_⟩
      · intro number member
        have bound := last number member
        dsimp only
        omega
      · rw [← Nat.add_assoc]
        exact rest.mono more
      · simpa using fresh
      · simp only [total_append, total_cons] at next_le ⊢
        omega
      · simpa using nodup
  | truncates kept dropped next =>
      have remaining := (counted_append.mp counted).1
      refine ⟨remaining, ?_, Nat.le_refl _, ?_⟩
      · intro number member
        have bound := remaining.le_total number member
        dsimp only
        omega
      · rw [numbers_append] at nodup
        exact nodup.of_append_left

/-- The numbers of every run from a numbered ledger stay different. -/
theorem Numbered.reaches (numbered : Numbered ledger) (reaches : Reaches ledger later) :
    Numbered later := by
  induction reaches with
  | refl => exact numbered
  | tail _ step ih => exact ih.step step

theorem numbered_new : Numbered ⟨[], 1⟩ where
  counted := trivial
  fresh := by simp
  next_le := Nat.le_refl 1
  nodup := List.nodup_nil

end Numbering
