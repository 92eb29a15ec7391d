import Mathlib.Data.List.Infix

/-!
# What is left of a stack of overlays

Layers are merged one over the other, and each shows values at some places.  A layer shows its own
values, and hides what it replaces.  Whoever records, place by place, the last layer that shows a
value there describes the merged stack exactly when nothing above that layer hides the place.
-/

namespace Overlays

variable {υ π α : Type*}

/-- How values are merged, what they show, and what they hide of the value under them. -/
structure Overlay (υ π α : Type*) where
  merge : υ → υ → υ
  shown : υ → π → Option α
  hides : υ → υ → π → Prop
  shown_of_own : ∀ {base overlay place value},
    shown overlay place = some value → shown (merge base overlay) place = some value
  shown_of_hides : ∀ {base overlay place},
    shown overlay place = none → hides overlay base place → shown (merge base overlay) place = none
  shown_of_not_hides : ∀ {base overlay place}, shown overlay place = none →
    ¬hides overlay base place → shown (merge base overlay) place = shown base place
  hides_of_own : ∀ {above base overlay place}, shown overlay place ≠ none →
    (hides above (merge base overlay) place ↔ hides above overlay place)
  hides_of_not_hides : ∀ {above base overlay place}, shown base place ≠ none →
    ¬hides overlay base place → shown overlay place = none →
      (hides above (merge base overlay) place ↔ hides above base place)

namespace Overlay

variable {ι : Type*} (overlay : Overlay υ π α) (read : ι → υ) {base state : υ} {layer : ι}
  {layers after : List ι} {place : π} {value : α}

/-- Merge the layers over the base, the last on top. -/
def stack (base : υ) (layers : List ι) : υ :=
  layers.foldl (fun state layer => overlay.merge state (read layer)) base

/-- The last layer that shows a value at the place, and what it shows. -/
def recorded (layers : List ι) (place : π) : Option α :=
  layers.reverse.findSome? fun layer => overlay.shown (read layer) place

/-- Nothing above the last layer that shows a value at the place hides it. -/
def Kept (layers : List ι) (place : π) : Prop :=
  ∀ before layer after, layers = before ++ layer :: after →
    overlay.shown (read layer) place ≠ none →
    (∀ later ∈ after, overlay.shown (read later) place = none) →
      ∀ later ∈ after, ¬overlay.hides (read later) (read layer) place

theorem shown_stack_of_none (nothing : overlay.shown base place = none)
    (silent : ∀ layer ∈ layers, overlay.shown (read layer) place = none) :
    overlay.shown (overlay.stack read base layers) place = none := by
  induction layers generalizing base with
  | nil => exact nothing
  | cons layer layers ih =>
      obtain ⟨own, rest⟩ := List.forall_mem_cons.mp silent
      refine ih ?_ rest
      by_cases hidden : overlay.hides (read layer) base place
      · exact overlay.shown_of_hides own hidden
      · exact (overlay.shown_of_not_hides own hidden).trans nothing

/-- Under layers that show nothing at the place, a value is lost as soon as one of them hides it,
and is still shown when none does. -/
theorem shown_stack_of_silent (shows : overlay.shown state place = some value)
    (silent : ∀ later ∈ after, overlay.shown (read later) place = none) :
    (∀ later ∈ after, ¬overlay.hides (read later) state place) ∧
        overlay.shown (overlay.stack read state after) place = some value ∨
      (∃ later ∈ after, overlay.hides (read later) state place) ∧
        overlay.shown (overlay.stack read state after) place = none := by
  induction after generalizing state with
  | nil => exact .inl ⟨by simp, shows⟩
  | cons later after ih =>
      obtain ⟨own, rest⟩ := List.forall_mem_cons.mp silent
      rw [List.forall_mem_cons, List.exists_mem_cons_iff]
      by_cases hidden : overlay.hides (read later) state place
      · have lost := overlay.shown_stack_of_none read (overlay.shown_of_hides own hidden) rest
        exact .inr ⟨.inl hidden, lost⟩
      · have shown : overlay.shown state place ≠ none := by simp [shows]
        have still := (overlay.shown_of_not_hides own hidden).trans shows
        -- what the later layers hide of the merged value is what they hide of the value below
        have same : ∀ above : υ,
            overlay.hides above (overlay.merge state (read later)) place ↔
              overlay.hides above state place :=
          fun above => overlay.hides_of_not_hides shown hidden own
        obtain ⟨clear, found⟩ | ⟨⟨above, member, lost⟩, found⟩ := ih still rest
        · exact .inl ⟨⟨hidden, fun above member => mt (same (read above)).mpr
            (clear above member)⟩, found⟩
        · exact .inr ⟨.inr ⟨above, member, (same (read above)).mp lost⟩, found⟩

theorem recorded_concat (last : ι) :
    overlay.recorded read (layers ++ [last]) place =
      (overlay.shown (read last) place).or (overlay.recorded read layers place) := by
  cases own : overlay.shown (read last) place <;> simp [recorded, own]

theorem recorded_append_cons (before : List ι)
    (shows : overlay.shown (read layer) place = some value)
    (silent : ∀ later ∈ after, overlay.shown (read later) place = none) :
    overlay.recorded read (before ++ layer :: after) place = some value := by
  have upper : after.reverse.findSome? (fun later => overlay.shown (read later) place) = none := by
    simpa [List.findSome?_eq_none_iff] using silent
  simp [recorded, List.findSome?_append, upper, shows]

theorem recorded_eq_none_iff :
    overlay.recorded read layers place = none ↔
      ∀ layer ∈ layers, overlay.shown (read layer) place = none := by
  simp [recorded, List.findSome?_eq_none_iff]

/-- Where a value is shown at all, there is a last layer that shows one. -/
theorem exists_last (shows : overlay.recorded read layers place ≠ none) :
    ∃ before layer after value, layers = before ++ layer :: after ∧
      overlay.shown (read layer) place = some value ∧
        ∀ later ∈ after, overlay.shown (read later) place = none := by
  induction layers using List.reverseRecOn with
  | nil => exact absurd rfl shows
  | append_singleton layers last ih =>
      cases own : overlay.shown (read last) place with
      | some value => exact ⟨layers, last, [], value, rfl, own, by simp⟩
      | none =>
          rw [recorded_concat, own, Option.none_or] at shows
          obtain ⟨before, layer, after, value, rfl, found, silent⟩ := ih shows
          refine ⟨before, layer, after ++ [last], value, by simp, found, fun later member => ?_⟩
          obtain upper | rfl := List.mem_append.mp member |>.imp_right List.mem_singleton.mp
          · exact silent later upper
          · exact own

/-- A place is kept exactly when no layer above its last one hides it. -/
theorem kept_iff {before : List ι} (shows : overlay.shown (read layer) place ≠ none)
    (silent : ∀ later ∈ after, overlay.shown (read later) place = none) :
    overlay.Kept read (before ++ layer :: after) place ↔
      ∀ later ∈ after, ¬overlay.hides (read later) (read layer) place := by
  refine ⟨fun kept => kept before layer after rfl shows silent, fun clear => ?_⟩
  intro before' layer' after' same shows' silent'
  obtain ⟨middle, lower, upper⟩ | ⟨middle, lower, upper⟩ := List.append_eq_append_iff.mp same
  · cases middle with
    | nil =>
        obtain ⟨rfl, rfl⟩ := List.cons.inj upper
        exact clear
    | cons first middle =>
        obtain ⟨rfl, rfl⟩ := List.cons.inj upper
        exact absurd (silent layer' (by simp)) shows'
  · cases middle with
    | nil =>
        obtain ⟨rfl, rfl⟩ := List.cons.inj upper
        exact clear
    | cons first middle =>
        obtain ⟨rfl, rfl⟩ := List.cons.inj upper
        exact absurd (silent' layer (by simp)) shows

/-- What the stack shows is what was recorded, or it shows nothing; it shows it when the place is
kept. -/
theorem shown_stack_cases (layers : List ι) (nothing : overlay.shown base place = none) :
    overlay.Kept read layers place ∧
        overlay.shown (overlay.stack read base layers) place = overlay.recorded read layers place ∨
      ¬overlay.Kept read layers place ∧ overlay.recorded read layers place ≠ none ∧
        overlay.shown (overlay.stack read base layers) place = none := by
  by_cases recorded : overlay.recorded read layers place = none
  · have silent := (overlay.recorded_eq_none_iff read).mp recorded
    rw [recorded]
    refine .inl ⟨?_, overlay.shown_stack_of_none read nothing silent⟩
    rintro before layer after rfl shows
    exact absurd (silent layer (by simp)) shows
  · obtain ⟨before, layer, after, value, rfl, shows, silent⟩ := overlay.exists_last read recorded
    have split : overlay.stack read base (before ++ layer :: after) =
        overlay.stack read (overlay.merge (overlay.stack read base before) (read layer)) after := by
      simp [stack]
    have shown : overlay.shown (read layer) place ≠ none := by simp [shows]
    have same : ∀ later : υ, overlay.hides later
        (overlay.merge (overlay.stack read base before) (read layer)) place ↔
        overlay.hides later (read layer) place := fun later => overlay.hides_of_own shown
    rw [overlay.kept_iff read shown silent, split]
    obtain ⟨clear, found⟩ | ⟨⟨later, member, hidden⟩, found⟩ :=
      overlay.shown_stack_of_silent read (overlay.shown_of_own shows) silent
    · refine .inl ⟨fun later member => mt (same (read later)).mpr (clear later member), ?_⟩
      exact found.trans (overlay.recorded_append_cons read before shows silent).symm
    · exact .inr ⟨fun clear => clear later member ((same (read later)).mp hidden), recorded, found⟩

/-- The record describes the stack at a place exactly when the place is kept. -/
theorem shown_eq_recorded_iff (nothing : overlay.shown base place = none) :
    overlay.shown (overlay.stack read base layers) place = overlay.recorded read layers place ↔
      overlay.Kept read layers place := by
  obtain ⟨kept, same⟩ | ⟨lost, recorded, found⟩ := overlay.shown_stack_cases read layers nothing
  · exact iff_of_true same kept
  · refine iff_of_false (fun same => ?_) lost
    exact recorded (same.symm.trans found)

/-- Where the stack shows a value, it is the recorded one. -/
theorem recorded_of_shown (nothing : overlay.shown base place = none)
    (found : overlay.shown (overlay.stack read base layers) place = some value) :
    overlay.recorded read layers place = some value := by
  obtain ⟨-, same⟩ | ⟨-, -, lost⟩ := overlay.shown_stack_cases read layers nothing
  · exact same.symm.trans found
  · exact absurd (lost.symm.trans found) (by simp)

end Overlay

end Overlays
