import Mathlib.Data.List.Basic

/-!
# Results

A sequence of fallible steps succeeds when each of them does.  What a computation returns is known
once each of its steps is, and so is that none of them ends in a crash.
-/

namespace RustStd

variable {ε ε' α β : Type}

theorem bind_eq_ok_iff {first : Except ε α} {next : α → Except ε β} {result : β} :
    (first >>= next) = .ok result ↔ ∃ value, first = .ok value ∧ next value = .ok result := by
  cases first with
  | error error | ok value => simp [bind, Except.bind]

/-- A step without a value. -/
theorem andThen_eq_ok_iff {first : Except ε Unit} {next : Unit → Except ε β} {result : β} :
    (first >>= next) = .ok result ↔ first = .ok () ∧ next () = .ok result := by
  rw [bind_eq_ok_iff]
  exact ⟨fun ⟨_, passed, rest⟩ => ⟨passed, rest⟩, fun ⟨passed, rest⟩ => ⟨(), passed, rest⟩⟩

theorem mapError_eq_ok_iff {outcome : Except ε α} {convert : ε → ε'} {result : α} :
    outcome.mapError convert = .ok result ↔ outcome = .ok result := by
  cases outcome with
  | error error => exact ⟨nofun, nofun⟩
  | ok value =>
      constructor
      all_goals
        intro succeeded
        cases succeeded
        rfl

/-- What a fold of checks collects. -/
theorem mem_foldlM {collect : List α → β → Except ε (List α)} {adds : β → List α}
    (each : ∀ seen item after, collect seen item = .ok after →
      ∀ found, found ∈ after ↔ found ∈ seen ∨ found ∈ adds item)
    {items : List β} {seen after : List α} (collected : items.foldlM collect seen = .ok after)
    (found : α) : found ∈ after ↔ found ∈ seen ∨ ∃ item ∈ items, found ∈ adds item := by
  induction items generalizing seen with
  | nil =>
      cases collected
      simp
  | cons item items ih =>
      rw [List.foldlM_cons] at collected
      obtain ⟨next, first, rest⟩ := bind_eq_ok_iff.mp collected
      rw [ih rest, each seen item next first found]
      simp [or_assoc]

/-- What a computation returns when it succeeds, where it never ends in a crash. -/
structure Returns (IsCrash : ε → Prop) (outcome : Except ε α) (post : α → Prop) : Prop where
  ok_iff : ∀ {result}, outcome = .ok result ↔ post result
  safe : ∀ {error}, outcome = .error error → ¬IsCrash error

section Returns

variable {IsCrash : ε → Prop} {outcome : Except ε α} {next : α → Except ε β} {error : ε}
  {post : α → Prop} {after : β → Prop} {goal : Prop}

theorem returns_ok (value : α) : Returns IsCrash (.ok value : Except ε α) (· = value) := by
  constructor
  · intro result
    rw [Except.ok.injEq, eq_comm]
  · intro error failed
    cases failed

theorem returns_error (fails : ¬IsCrash error) :
    Returns IsCrash (.error error : Except ε α) fun _ => False := by
  constructor
  · intro result
    exact iff_of_false (fun succeeded => by cases succeeded) id
  · rintro _ ⟨⟩
    exact fails

theorem Returns.congr {same : α → Prop} (returns : Returns IsCrash outcome post)
    (agree : ∀ result, post result ↔ same result) : Returns IsCrash outcome same :=
  ⟨fun {result} => returns.ok_iff.trans (agree result), returns.safe⟩

theorem Returns.bind {Post : α → β → Prop} (first : Returns IsCrash outcome post)
    (later : ∀ value, post value → Returns IsCrash (next value) (Post value)) :
    Returns IsCrash (outcome >>= next) fun result => ∃ value, post value ∧ Post value result := by
  constructor
  · intro result
    rw [bind_eq_ok_iff]
    refine exists_congr fun value => ?_
    rw [first.ok_iff]
    exact and_congr_right fun holds => (later value holds).ok_iff
  · intro error failed
    cases found : outcome with
    | error error' =>
        rw [found] at failed
        cases failed
        exact first.safe found
    | ok value =>
        rw [found] at failed
        exact (later value (first.ok_iff.mp found)).safe failed

/-- A step whose value is known. -/
theorem Returns.bind_value {value : α}
    (first : Returns IsCrash outcome fun result => goal ∧ result = value)
    (later : goal → Returns IsCrash (next value) after) :
    Returns IsCrash (outcome >>= next) fun result => goal ∧ after result := by
  have stepped : ∀ found, goal ∧ found = value → Returns IsCrash (next found) after := by
    rintro _ ⟨holds, rfl⟩
    exact later holds
  refine (first.bind stepped).congr fun result => ?_
  constructor
  · rintro ⟨_, ⟨holds, -⟩, reached⟩
    exact ⟨holds, reached⟩
  · rintro ⟨holds, reached⟩
    exact ⟨value, ⟨holds, rfl⟩, reached⟩

/-- A step without a value. -/
theorem Returns.bind_unit {outcome : Except ε Unit} {next : Unit → Except ε β}
    (first : Returns IsCrash outcome fun _ => goal)
    (later : goal → Returns IsCrash (next ()) after) :
    Returns IsCrash (outcome >>= next) fun result => goal ∧ after result :=
  (first.congr fun _ => (and_iff_left rfl).symm).bind_value later

/-- A computation that always fails in the end. -/
theorem Returns.bind_false (first : Returns IsCrash outcome post)
    (later : ∀ value, post value → Returns IsCrash (next value) fun _ => False) :
    Returns IsCrash (outcome >>= next) fun _ => False :=
  (first.bind later).congr fun _ => iff_of_false (fun ⟨_, _, impossible⟩ => impossible) id

/-- A computation behind a check. -/
theorem returns_guard [Decidable goal] {stopped : Except ε α}
    (stops : goal → Returns IsCrash stopped fun _ => False)
    (passes : ¬goal → Returns IsCrash outcome post) :
    Returns IsCrash (if goal then stopped else outcome) fun result => ¬goal ∧ post result := by
  split
  case isTrue holds =>
    exact (stops holds).congr fun result => iff_of_false id fun both => both.1 holds
  case isFalse fails =>
    exact (passes fails).congr fun result => (and_iff_right fails).symm

theorem returns_mapM {items : List β} {read : β → Except ε α} {Post : β → Prop} {value : β → α}
    (each : ∀ item ∈ items, Returns IsCrash (read item) fun result =>
      Post item ∧ result = value item) :
    Returns IsCrash (items.mapM read) fun results =>
      (∀ item ∈ items, Post item) ∧ results = items.map value := by
  induction items with
  | nil =>
      rw [List.mapM_nil]
      exact (returns_ok []).congr fun results => by simp
  | cons item items ih =>
      obtain ⟨first, others⟩ := List.forall_mem_cons.mp each
      rw [List.mapM_cons]
      refine (first.bind_value fun _ => (ih others).bind_value fun _ =>
        returns_ok (value item :: items.map value)).congr fun results => ?_
      rw [List.forall_mem_cons, List.map_cons, and_assoc]

end Returns

end RustStd
