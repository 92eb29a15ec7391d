import Mathlib.Data.List.Count
import Mathlib.Data.List.Nodup
import Mathlib.Data.List.Perm.Subperm
import Mathlib.Order.Basic

/-!
# Worklists over a forest

A worklist takes a vertex, and its children wait.  Nothing remembers which vertices were taken, so
on a forest, where a vertex has one parent at most, the worklist takes every vertex once and ends
exactly when the vertex it starts from is not below itself.
-/

namespace Worklist

variable {α : Type*}

/-- The vertices that wait, and those that were taken, the last one first. -/
structure Config (α : Type*) where
  waiting : List α
  taken : List α

/-- The children that wait after a vertex is taken: each of them once, all that are linked, and no
others when the vertex is taken for the first time. -/
structure Expansion (edge link : α → α → Prop) (taken : List α) (vertex : α) (pushed : List α) :
    Prop where
  nodup : pushed.Nodup
  edges : ∀ child ∈ pushed, edge vertex child
  linked : ∀ child, link vertex child → child ∈ pushed
  first : vertex ∉ taken → ∀ child ∈ pushed, link vertex child

/-- The next vertex is taken. -/
inductive Step (edge link : α → α → Prop) : Config α → Config α → Prop
  | take {vertex : α} {rest taken pushed : List α}
      (expansion : Expansion edge link taken vertex pushed) :
      Step edge link ⟨vertex :: rest, taken⟩ ⟨rest ++ pushed, vertex :: taken⟩

/-- The configurations of a run. -/
abbrev Reaches (edge link : α → α → Prop) (start : α) (config : Config α) : Prop :=
  Relation.ReflTransGen (Step edge link) ⟨[start], []⟩ config

section Forest

variable {edge link : α → α → Prop} {start : α} {config : Config α}

theorem length_taken_of_step {next : Config α} (stepped : Step edge link config next) :
    config.taken.length + 1 = next.taken.length := by
  obtain ⟨_⟩ := stepped
  rfl

/-- While the start is not below itself, every vertex was taken or waits once, and was reached from
the start through its parent. -/
structure Unrepeated (edge link : α → α → Prop) (start : α) (config : Config α) : Prop where
  nodup : (config.taken ++ config.waiting).Nodup
  reached : ∀ vertex ∈ config.taken ++ config.waiting, Relation.ReflTransGen link start vertex
  parent : ∀ vertex ∈ config.taken ++ config.waiting,
    vertex = start ∨ ∃ parent ∈ config.taken, edge parent vertex

theorem unrepeated_of_reaches
    (forest : ∀ parent other child, edge parent child → edge other child → parent = other)
    (acyclic : ¬ Relation.TransGen link start start) (reaches : Reaches edge link start config) :
    Unrepeated edge link start config := by
  induction reaches with
  | refl =>
      refine ⟨List.nodup_singleton start, ?_, ?_⟩
      · rintro vertex member
        rw [List.mem_singleton.mp member]
      · exact fun vertex member => .inl (List.mem_singleton.mp member)
  | tail _ stepped unrepeated =>
      obtain @⟨vertex, rest, taken, pushed, expansion⟩ := stepped
      have fresh : vertex ∉ taken := by
        intro again
        exact (List.nodup_append.mp unrepeated.nodup).2.2 vertex again vertex List.mem_cons_self rfl
      have member : vertex ∈ taken ++ vertex :: rest :=
        List.mem_append_right _ List.mem_cons_self
      have below : ∀ child ∈ pushed, Relation.TransGen link start child := fun child pushedChild =>
        .tail' (unrepeated.reached vertex member) (expansion.first fresh child pushedChild)
      -- A child that is known already would have a parent that was taken before.
      have new : ∀ child ∈ pushed, child ∉ taken ++ vertex :: rest := by
        intro child pushedChild known
        obtain rfl | ⟨parent, earlier, isParent⟩ := unrepeated.parent child known
        · exact acyclic (below child pushedChild)
        · exact fresh (forest _ _ _ (expansion.edges child pushedChild) isParent ▸ earlier)
      have same :
          (vertex :: taken ++ (rest ++ pushed)).Perm (taken ++ vertex :: rest ++ pushed) := by
        rw [List.cons_append, ← List.append_assoc]
        exact (List.perm_middle.symm).append_right pushed
      refine ⟨same.nodup_iff.mpr ?_, ?_, ?_⟩
      · refine List.nodup_append.mpr ⟨unrepeated.nodup, expansion.nodup, ?_⟩
        rintro known isKnown child pushedChild rfl
        exact new known pushedChild isKnown
      · intro other known
        obtain before | pushedChild := List.mem_append.mp (same.subset known)
        · exact unrepeated.reached other before
        · exact (below other pushedChild).to_reflTransGen
      · intro other known
        obtain before | pushedChild := List.mem_append.mp (same.subset known)
        · refine (unrepeated.parent other before).imp_right ?_
          rintro ⟨parent, earlier, isParent⟩
          exact ⟨parent, List.mem_cons_of_mem _ earlier, isParent⟩
        · exact .inr ⟨vertex, List.mem_cons_self, expansion.edges other pushedChild⟩

/-- What is taken is the start or a child. -/
theorem length_taken_le {children : List α}
    (forest : ∀ parent other child, edge parent child → edge other child → parent = other)
    (acyclic : ¬ Relation.TransGen link start start) (reaches : Reaches edge link start config)
    (bounded : ∀ parent child, edge parent child → child ∈ children) :
    config.taken.length ≤ children.length + 1 := by
  have unrepeated := unrepeated_of_reaches forest acyclic reaches
  have nodup := (List.nodup_append.mp unrepeated.nodup).1
  have among : config.taken ⊆ start :: children := by
    intro vertex taken
    obtain rfl | ⟨parent, _, isParent⟩ := unrepeated.parent vertex (List.mem_append_left _ taken)
    · exact List.mem_cons_self
    · exact List.mem_cons_of_mem _ (bounded parent vertex isParent)
  exact (List.subperm_of_subset nodup among).length_le

section Counting

variable [DecidableEq α]

/-- A linked child waits as often as its parent is taken, and the start once more. -/
theorem count_taken_le (reaches : Reaches edge link start config) {parent child : α}
    (linked : link parent child) :
    config.taken.count parent + (if child = start then 1 else 0) ≤
      (config.taken ++ config.waiting).count child := by
  induction reaches with
  | refl =>
      obtain rfl | apart := eq_or_ne child start
      · simp
      · simp [apart]
  | tail _ stepped counted =>
      obtain @⟨vertex, rest, taken, pushed, expansion⟩ := stepped
      have again : vertex = parent → 1 ≤ pushed.count child := by
        rintro rfl
        exact List.one_le_count_iff.mpr (expansion.linked child linked)
      simp only [List.count_append, List.count_cons, beq_iff_eq] at counted ⊢
      split_ifs at counted ⊢ with _ _ _ _ <;> try omega
      all_goals have once := again ‹_›
      all_goals omega

/-- A worklist that starts on a cycle does not end. -/
theorem waiting_ne_nil_of_cycle (cycle : Relation.TransGen link start start)
    (reaches : Reaches edge link start config) : config.waiting ≠ [] := by
  intro ended
  have counted : ∀ {parent child}, link parent child →
      config.taken.count parent + (if child = start then 1 else 0) ≤ config.taken.count child := by
    intro parent child linked
    simpa [ended] using count_taken_le reaches linked
  have rises : ∀ {vertex}, Relation.ReflTransGen link start vertex →
      config.taken.count start ≤ config.taken.count vertex := by
    intro vertex path
    induction path with
    | refl => exact Nat.le_refl _
    | tail _ linked rises =>
        exact Nat.le_trans rises (Nat.le_trans (Nat.le_add_right _ _) (counted linked))
  obtain ⟨last, path, linked⟩ := Relation.TransGen.tail'_iff.mp cycle
  have once := counted linked
  have before := rises path
  rw [if_pos rfl] at once
  omega

end Counting

end Forest

end Worklist
