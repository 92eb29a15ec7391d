import CodexPilot.Library.Interleaving
import Mathlib.Data.Finset.Card

/-!
# The escalation stopwatch

A stopwatch accumulates time while no `pause_for` is inside.  The task spawned by
`cancellation_token` reads it under the lock, releases the lock, and then either waits for a
notification or sleeps for the remaining time and waits for a notification, whichever comes first.
The lock sections are atomic; between any two steps of a task other tasks step and the clock
advances.

An onlooker notes who is inside a `pause_for`, how much time has passed with nobody inside, and, for
each task that watches the limit, when the remaining time it read will have run and whether a pause
stopped the clock before that.  A task that sleeps through such a pause cancels too early: it has
not registered for the notification yet, or its sleep is over when it looks.  Every other
cancellation comes after the limit.
-/

namespace CodexPilot.ShellEscalation

open Interleaving Transitions

/-- `Stopwatch` with its `StopwatchState`, the clock, and how often `notify_waiters` was called. -/
structure Stopwatch where
  limit : Option ℕ
  elapsed : ℕ
  runningSince : Option ℕ
  activePauses : ℕ
  notified : ℕ
  now : ℕ

namespace Stopwatch

/-- `Stopwatch::new`, or `Stopwatch::unlimited` without a limit. -/
def new (limit : Option ℕ) (now : ℕ) : Stopwatch where
  limit
  elapsed := 0
  runningSince := some now
  activePauses := 0
  notified := 0
  now

/-- The accumulated time, as the lock section of the spawned task computes it. -/
def reading (watch : Stopwatch) : ℕ :=
  watch.elapsed + (watch.runningSince.map fun since => watch.now - since).getD 0

/-- `Stopwatch::pause`: the first pause stops the clock. -/
def pause (watch : Stopwatch) : Stopwatch :=
  let watch := { watch with activePauses := watch.activePauses + 1 }
  match watch.runningSince with
  | some since =>
      if watch.activePauses = 1 then
        { watch with
          elapsed := watch.elapsed + (watch.now - since)
          runningSince := none
          notified := watch.notified + 1 }
      else watch
  | none => watch

/-- `Stopwatch::resume`: the last pause to end lets the clock run again. -/
def resume (watch : Stopwatch) : Stopwatch :=
  if watch.activePauses = 0 then watch
  else
    let watch := { watch with activePauses := watch.activePauses - 1 }
    if watch.activePauses = 0 ∧ watch.runningSince = none then
      { watch with runningSince := some watch.now, notified := watch.notified + 1 }
    else watch

/-- Time passes. -/
def tick (watch : Stopwatch) (duration : ℕ) : Stopwatch :=
  { watch with now := watch.now + duration }

end Stopwatch

/-- Where a task stands. -/
inductive Place
  | idle
  -- the task spawned by `cancellation_token`
  | lockState
  | arm (remaining : ℕ) (running : Bool)
  | awaitResume (seen : ℕ)
  | register (deadline : ℕ)
  | select (deadline seen : ℕ)
  | cancel
  | cancelled
  /-- `cancellation_token` of an unlimited stopwatch. -/
  | unlimited
  -- `pause_for`
  | pause
  | pending
  | resume
  | resumed
  deriving DecidableEq

/-- What a task does: make its call, take its next step, or take one of the two branches of the
`select!`. The notification also ends the wait of a paused stopwatch. -/
inductive Action
  | cancellationToken
  | pauseFor
  | proceed
  | slept
  | wasNotified
  deriving DecidableEq

/-- The lock section at the head of the loop. -/
def look (watch : Stopwatch) (limit : ℕ) : Place :=
  if limit ≤ watch.reading then .cancel
  else .arm (limit - watch.reading) watch.runningSince.isSome

/-- One step of a task. -/
def move (watch : Stopwatch) : Place → Action → Option (Stopwatch × Place)
  | .idle, .cancellationToken =>
      some (watch, if watch.limit.isSome then .lockState else .unlimited)
  | .idle, .pauseFor => some (watch, .pause)
  | .lockState, .proceed => watch.limit.map fun limit => (watch, look watch limit)
  | .arm remaining running, .proceed =>
      some (watch,
        if running then .register (watch.now + remaining) else .awaitResume watch.notified)
  | .awaitResume seen, .wasNotified =>
      if watch.notified = seen then none else some (watch, .lockState)
  | .register deadline, .proceed => some (watch, .select deadline watch.notified)
  | .select deadline _, .slept => if deadline ≤ watch.now then some (watch, .cancel) else none
  | .select _ seen, .wasNotified =>
      if watch.notified = seen then none else some (watch, .lockState)
  | .cancel, .proceed => some (watch, .cancelled)
  | .pause, .proceed => some (watch.pause, .pending)
  | .pending, .proceed => some (watch, .resume)
  | .resume, .proceed => some (watch.resume, .resumed)
  | _, _ => none

/-! ## When the stopwatch times out -/

/-- What an onlooker with a clock notes. -/
structure Onlooker (ι : Type*) where
  /-- The tasks inside `pause_for`. -/
  inside : Finset ι
  /-- The time that has passed with no task inside. -/
  unpaused : ℕ
  /-- When the remaining time that a watching task last read will have run. -/
  due : ι → ℕ
  /-- A pause has stopped the clock since that reading, before the time had run. -/
  interrupted : ι → Bool

/-- The tasks and the onlooker. -/
structure World (ι : Type*) where
  tasks : Tasks ι Stopwatch Place
  seen : Onlooker ι

/-- The clock advances, or a task takes a step. -/
inductive Event (ι : Type*)
  | tick (duration : ℕ)
  | act (id : ι) (action : Action)

variable {ι : Type*} [DecidableEq ι]

/-- What the onlooker notes when a task steps from one place to another. -/
def Onlooker.note (seen : Onlooker ι) (watch : Stopwatch) (id : ι) : Place → Place → Onlooker ι
  | .lockState, .arm remaining _ =>
      { seen with
        due := Function.update seen.due id (watch.now + remaining)
        interrupted := Function.update seen.interrupted id false }
  | .pause, .pending =>
      { seen with
        inside := insert id seen.inside
        interrupted := fun watcher =>
          seen.interrupted watcher ||
            (decide (seen.inside = ∅) && decide (watch.now < seen.due watcher)) }
  | .resume, .resumed => { seen with inside := seen.inside.erase id }
  | _, _ => seen

/-- Time with nobody inside a pause is counted. -/
def Onlooker.tick (seen : Onlooker ι) (duration : ℕ) : Onlooker ι :=
  { seen with unpaused := seen.unpaused + if seen.inside = ∅ then duration else 0 }

/-- One event. -/
def step (world : World ι) : Event ι → Option (World ι)
  | .tick duration =>
      some
        { tasks := { world.tasks with shared := world.tasks.shared.tick duration }
          seen := world.seen.tick duration }
  | .act id action =>
      (Interleaving.step (fun _ => move) world.tasks (id, action)).map fun next =>
        { tasks := next
          seen := world.seen.note world.tasks.shared id (world.tasks.place id) (next.place id) }

/-- A fresh stopwatch. -/
def start (limit : Option ℕ) (now : ℕ) : World ι where
  tasks := { shared := .new limit now, place := fun _ => .idle }
  seen := { inside := ∅, unpaused := 0, due := fun _ => 0, interrupted := fun _ => false }

/-- A sleep ends the loop only when no pause has stopped the clock within the remaining time that
its task had read. -/
def Uninterrupted (world : World ι) : Event ι → Prop
  | .act id .slept => world.seen.interrupted id = false
  | _ => True

/-- The task is inside `pause_for`. -/
def Place.InPause : Place → Prop
  | .pending | .resume => True
  | _ => False

/-- What a step of a task can be. -/
inductive Moved (watch : Stopwatch) : Place → Stopwatch → Place → Prop
  | token : Moved watch .idle watch (if watch.limit.isSome then .lockState else .unlimited)
  | pauseFor : Moved watch .idle watch .pause
  | look (limit : ℕ) (limited : watch.limit = some limit) :
      Moved watch .lockState watch (look watch limit)
  | arm (remaining : ℕ) (running : Bool) :
      Moved watch (.arm remaining running) watch
        (if running then .register (watch.now + remaining) else .awaitResume watch.notified)
  | resumed (seen : ℕ) : Moved watch (.awaitResume seen) watch .lockState
  | register (deadline : ℕ) :
      Moved watch (.register deadline) watch (.select deadline watch.notified)
  | slept (deadline seen : ℕ) (due : deadline ≤ watch.now) :
      Moved watch (.select deadline seen) watch .cancel
  | notified (deadline seen : ℕ) : Moved watch (.select deadline seen) watch .lockState
  | cancel : Moved watch .cancel watch .cancelled
  | pause : Moved watch .pause watch.pause .pending
  | pending : Moved watch .pending watch .resume
  | resume : Moved watch .resume watch.resume .resumed

theorem moved_of_move {watch watch' : Stopwatch} {place place' : Place} {action : Action}
    (moves : move watch place action = some (watch', place')) :
      Moved watch place watch' place' := by
  unfold move at moves
  split at moves
  case h_1 =>
    cases moves
    exact .token
  case h_3 =>
    obtain ⟨limit, limited, stepped⟩ := Option.map_eq_some_iff.mp moves
    cases stepped
    exact .look limit limited
  case h_4 remaining running =>
    cases moves
    exact .arm remaining running
  case h_7 deadline seen =>
    split at moves <;> cases moves
    exact .slept deadline seen ‹_›
  all_goals (try split at moves) <;> cases moves <;> constructor

/-- Only its sleep takes a task out of the `select!` and the loop. -/
theorem slept_of_cancel {watch watch' : Stopwatch} {deadline seen : ℕ} {action : Action}
    (moves : move watch (.select deadline seen) action = some (watch', .cancel)) :
    action = .slept := by
  cases action with
  | slept => rfl
  | wasNotified =>
      simp only [move] at moves
      split at moves <;> cases moves
  | _ => cases moves

theorem move_of_step {world next : World ι} {id : ι} {action : Action}
    (stepped : step world (.act id action) = some next) :
    move world.tasks.shared (world.tasks.place id) action =
        some (next.tasks.shared, next.tasks.place id) ∧
      (∀ other, other ≠ id → next.tasks.place other = world.tasks.place other) ∧
        next.seen =
          world.seen.note world.tasks.shared id (world.tasks.place id) (next.tasks.place id) := by
  obtain ⟨tasks, taken, rfl⟩ := Option.map_eq_some_iff.mp stepped
  obtain ⟨moves, elsewhere⟩ := moved_of_step taken
  exact ⟨moves, elsewhere, rfl⟩

/-- The state of the stopwatch is what the onlooker would expect. -/
structure Books (watch : Stopwatch) (seen : Onlooker ι) : Prop where
  pauses : watch.activePauses = seen.inside.card
  running : ∀ since, watch.runningSince = some since → seen.inside = ∅ ∧ since ≤ watch.now
  paused : watch.runningSince = none → seen.inside ≠ ∅
  reading : watch.reading = seen.unpaused

/-- The remaining time that a task has read is still before it. -/
def Timely (limit : ℕ) (watch : Stopwatch) (seen : Onlooker ι) (id : ι) : Prop :=
  seen.interrupted id = false →
    (watch.now < seen.due id → seen.inside = ∅) ∧
      limit ≤ seen.unpaused + (seen.due id - watch.now)

/-- What a watching task may rely on at its place. -/
def Sound (limit : ℕ) (watch : Stopwatch) (seen : Onlooker ι) (id : ι) : Place → Prop
  | .arm remaining running =>
      running = true → seen.due id ≤ watch.now + remaining ∧ Timely limit watch seen id
  | .register deadline | .select deadline _ =>
      seen.due id ≤ deadline ∧ Timely limit watch seen id
  | .cancel | .cancelled => limit ≤ seen.unpaused
  | _ => True

section Books

variable {watch : Stopwatch} {seen : Onlooker ι}

@[simp]
theorem now_pause (watch : Stopwatch) : watch.pause.now = watch.now := by
  unfold Stopwatch.pause
  dsimp only
  split <;> (try split) <;> rfl

@[simp]
theorem now_resume (watch : Stopwatch) : watch.resume.now = watch.now := by
  unfold Stopwatch.resume
  dsimp only
  split <;> (try split) <;> rfl

@[simp]
theorem limit_pause (watch : Stopwatch) : watch.pause.limit = watch.limit := by
  unfold Stopwatch.pause
  dsimp only
  split <;> (try split) <;> rfl

@[simp]
theorem limit_resume (watch : Stopwatch) : watch.resume.limit = watch.limit := by
  unfold Stopwatch.resume
  dsimp only
  split <;> (try split) <;> rfl

theorem Books.tick (books : Books watch seen) (duration : ℕ) :
    Books (watch.tick duration) (seen.tick duration) := by
  obtain ⟨pauses, running, paused, reading⟩ := books
  refine ⟨pauses, fun since runs => ?_, paused, ?_⟩
  · obtain ⟨outside, before⟩ := running since runs
    exact ⟨outside, by simp only [Stopwatch.tick]; omega⟩
  · cases runs : watch.runningSince with
    | none =>
        simp only [Stopwatch.reading, Stopwatch.tick, Onlooker.tick, runs, paused runs] at reading ⊢
        simpa using reading
    | some since =>
        obtain ⟨outside, before⟩ := running since runs
        simp only [Stopwatch.reading, Stopwatch.tick, Onlooker.tick, runs, outside] at reading ⊢
        simp only [Option.map_some, Option.getD_some, if_true] at reading ⊢
        omega

theorem Books.pause (books : Books watch seen) {id : ι} (outside : id ∉ seen.inside) :
    Books watch.pause (seen.note watch id .pause .pending) := by
  obtain ⟨pauses, running, paused, reading⟩ := books
  have count : (insert id seen.inside).card = watch.activePauses + 1 := by
    rw [Finset.card_insert_of_notMem outside, pauses]
  cases runs : watch.runningSince with
  | none =>
      have shape : watch.pause = { watch with activePauses := watch.activePauses + 1 } := by
        simp only [Stopwatch.pause, runs]
      rw [shape]
      refine ⟨count.symm, fun since runs' => ?_, fun _ => Finset.insert_ne_empty id _, reading⟩
      exact absurd (runs.symm.trans runs') (by simp)
  | some since =>
      obtain ⟨empty, before⟩ := running since runs
      have first : watch.activePauses = 0 := by rw [pauses, empty, Finset.card_empty]
      have shape : watch.pause =
          { watch with
            activePauses := watch.activePauses + 1
            elapsed := watch.elapsed + (watch.now - since)
            runningSince := none
            notified := watch.notified + 1 } := by
        simp [Stopwatch.pause, runs, first]
      rw [shape]
      refine ⟨count.symm, nofun, fun _ => Finset.insert_ne_empty id _, ?_⟩
      simpa [Stopwatch.reading, runs, Onlooker.note] using reading

theorem Books.resume (books : Books watch seen) {id : ι} (inside : id ∈ seen.inside) :
    Books watch.resume (seen.note watch id .resume .resumed) := by
  obtain ⟨pauses, running, paused, reading⟩ := books
  have count : (seen.inside.erase id).card = watch.activePauses - 1 := by
    rw [Finset.card_erase_of_mem inside, pauses]
  have active : watch.activePauses ≠ 0 := by
    rw [pauses]
    exact Finset.card_ne_zero_of_mem inside
  have stopped : watch.runningSince = none := by
    cases runs : watch.runningSince with
    | none => rfl
    | some since => simp [(running since runs).1] at inside
  by_cases last : watch.activePauses - 1 = 0
  · have shape : watch.resume =
        { watch with
          activePauses := watch.activePauses - 1
          runningSince := some watch.now
          notified := watch.notified + 1 } := by
      simp [Stopwatch.resume, active, stopped, last]
    rw [shape]
    have empty : seen.inside.erase id = ∅ := Finset.card_eq_zero.mp (count.trans last)
    refine ⟨count.symm, fun since runs => ?_, nofun, ?_⟩
    · cases runs
      exact ⟨empty, le_rfl⟩
    · simpa [Stopwatch.reading, stopped, Onlooker.note] using reading
  · have shape : watch.resume = { watch with activePauses := watch.activePauses - 1 } := by
      simp [Stopwatch.resume, active, stopped, last]
    rw [shape]
    refine ⟨count.symm, fun since runs => ?_, fun _ empty => ?_, reading⟩
    · exact absurd (stopped.symm.trans runs) (by simp)
    · exact last (count.symm.trans (Finset.card_eq_zero.mpr empty))

end Books

section Sound

variable {limit : ℕ} {watch watch' : Stopwatch} {seen seen' : Onlooker ι} {id : ι} {place : Place}

omit [DecidableEq ι] in
/-- What a watching task may rely on, it may rely on later. -/
theorem Sound.later (after : watch.now ≤ watch'.now) (due : seen'.due id = seen.due id)
    (more : seen.unpaused ≤ seen'.unpaused)
    (timely : Timely limit watch seen id → Timely limit watch' seen' id)
    (sound : Sound limit watch seen id place) : Sound limit watch' seen' id place := by
  cases place with
  | arm remaining running =>
      intro runs
      obtain ⟨soon, time⟩ := sound runs
      exact ⟨by omega, timely time⟩
  | register deadline | select deadline seen => exact ⟨due ▸ sound.1, timely sound.2⟩
  | cancel | cancelled => exact le_trans sound more
  | _ => trivial

theorem Timely.tick (timely : Timely limit watch seen id) (duration : ℕ) :
    Timely limit (watch.tick duration) (seen.tick duration) id := by
  intro quiet
  obtain ⟨outside, time⟩ := timely quiet
  simp only [Stopwatch.tick, Onlooker.tick]
  refine ⟨fun before => outside (by omega), ?_⟩
  split
  · omega
  · have passed : seen.due id ≤ watch.now := by
      by_contra before
      exact absurd (outside (by omega)) ‹_›
    omega

theorem Sound.tick (sound : Sound limit watch seen id place) (duration : ℕ) :
    Sound limit (watch.tick duration) (seen.tick duration) id place := by
  have due : (seen.tick duration).due id = seen.due id := rfl
  exact sound.later (Nat.le_add_right _ _) due (Nat.le_add_right _ _) fun timely =>
    timely.tick duration

theorem Timely.pause (timely : Timely limit watch seen id) (other : ι) :
    Timely limit watch.pause (seen.note watch other .pause .pending) id := by
  intro quiet
  simp only [Onlooker.note, Bool.or_eq_false_iff, Bool.and_eq_false_iff, decide_eq_false_iff_not,
    now_pause] at quiet ⊢
  obtain ⟨quiet, stopped⟩ := quiet
  obtain ⟨outside, time⟩ := timely quiet
  refine ⟨fun before => ?_, time⟩
  exact absurd before (stopped.resolve_left fun inside => inside (outside before))

theorem Timely.resume (timely : Timely limit watch seen id) (other : ι) :
    Timely limit watch.resume (seen.note watch other .resume .resumed) id := by
  intro quiet
  obtain ⟨outside, time⟩ := timely quiet
  simp only [Onlooker.note, now_resume]
  refine ⟨fun before => ?_, time⟩
  rw [outside before, Finset.erase_empty]

/-- The reading of one task leaves the others' alone. -/
theorem Timely.look (timely : Timely limit watch seen id) {other : ι} (different : id ≠ other)
    (after : Place) : Timely limit watch (seen.note watch other .lockState after) id := by
  cases after with
  | arm remaining running =>
      simpa [Timely, Onlooker.note, Function.update_of_ne different] using timely
  | _ => exact timely

end Sound

section Step

variable {limit : ℕ} {world next : World ι} {id : ι} {action : Action}

theorem due_note {seen : Onlooker ι} {watch : Stopwatch} {other : ι} (different : other ≠ id)
    (before after : Place) : (seen.note watch id before after).due other = seen.due other := by
  unfold Onlooker.note
  split <;> first | rfl | exact Function.update_of_ne different _ _

theorem unpaused_note (seen : Onlooker ι) (watch : Stopwatch) (before after : Place) :
    (seen.note watch id before after).unpaused = seen.unpaused := by
  unfold Onlooker.note
  split <;> rfl

/-- A step of one task keeps what the others rely on. -/
theorem Sound.other {watch watch' : Stopwatch} {seen : Onlooker ι} {before after place : Place}
    {other : ι} (different : other ≠ id) (moved : Moved watch before watch' after)
    (sound : Sound limit watch seen other place) :
    Sound limit watch' (seen.note watch id before after) other place := by
  refine sound.later ?_ (due_note different before after)
    (unpaused_note seen watch before after).ge fun timely => ?_
  · cases moved <;> simp
  · cases moved with
    | look limit limited => exact timely.look different _
    | pause => exact timely.pause id
    | resume => exact timely.resume id
    | _ => exact timely

/-- A step keeps what its own task relies on, where a sleep ends the loop only uninterrupted. -/
theorem Sound.own {watch watch' : Stopwatch} {seen : Onlooker ι} {before after : Place}
    (books : Books watch seen) (limited : watch.limit = some limit)
    (moved : Moved watch before watch' after)
    (quiet : ∀ deadline seen', before = .select deadline seen' → after = .cancel →
      seen.interrupted id = false) (sound : Sound limit watch seen id before) :
    Sound limit watch' (seen.note watch id before after) id after := by
  cases moved with
  | token => split <;> trivial
  | look limit' limited' =>
      cases limited.symm.trans limited'
      unfold look
      split
      case isTrue reached => exact le_of_le_of_eq reached books.reading
      case isFalse unreached =>
        intro runs
        obtain ⟨since, runs⟩ := Option.isSome_iff_exists.mp runs
        obtain ⟨outside, -⟩ := books.running since runs
        have reading := books.reading
        simp only [Onlooker.note, Timely, Function.update_self]
        exact ⟨le_rfl, fun _ => ⟨fun _ => outside, by omega⟩⟩
  | arm remaining running =>
      cases running with
      | true => exact sound rfl
      | false => trivial
  | register deadline => exact sound
  | slept deadline seen' due =>
      obtain ⟨soon, time⟩ := sound
      obtain ⟨-, time⟩ := time (quiet deadline seen' rfl rfl)
      change limit ≤ seen.unpaused
      omega
  | cancel => exact sound
  | _ => trivial

/-- The task watches the limit. -/
def Place.Watches : Place → Prop
  | .lockState | .arm _ _ | .awaitResume _ | .register _ | .select _ _ | .cancel | .cancelled =>
    True
  | _ => False

/-- The books are right, and every watching task may rely on what it read. -/
structure Kept (limit : Option ℕ) (world : World ι) : Prop where
  limited : world.tasks.shared.limit = limit
  inside : ∀ id, id ∈ world.seen.inside ↔ (world.tasks.place id).InPause
  books : Books world.tasks.shared world.seen
  watches : ∀ id, (world.tasks.place id).Watches → limit.isSome
  sound : ∀ bound, limit = some bound →
    ∀ id, Sound bound world.tasks.shared world.seen id (world.tasks.place id)

omit [DecidableEq ι] in
theorem kept_start (limit : Option ℕ) (now : ℕ) : Kept limit (start limit now : World ι) where
  limited := rfl
  inside _ := ⟨fun inside => absurd inside (Finset.notMem_empty _), fun inside => inside.elim⟩
  books :=
    { pauses := rfl
      running := fun since runs => by
        cases runs
        exact ⟨rfl, le_rfl⟩
      paused := nofun
      reading := by simp [Stopwatch.reading, start, Stopwatch.new] }
  watches _ watches := watches.elim
  sound _ _ _ := trivial

theorem Kept.tick {limit : Option ℕ} (kept : Kept limit world) {duration : ℕ}
    (stepped : step world (.tick duration) = some next) : Kept limit next := by
  cases stepped
  obtain ⟨limited, inside, books, watches, sound⟩ := kept
  refine ⟨limited, inside, books.tick duration, watches, fun bound some id => ?_⟩
  exact (sound bound some id).tick duration

theorem inside_note {seen : Onlooker ι} {watch watch' : Stopwatch} {before after : Place}
    (moved : Moved watch before watch' after) (inside : id ∈ seen.inside ↔ before.InPause) :
    id ∈ (seen.note watch id before after).inside ↔ after.InPause := by
  cases moved with
  | token => split <;> simpa [Onlooker.note, Place.InPause] using inside
  | look limit limited =>
      unfold look
      split <;> simpa [Onlooker.note, Place.InPause] using inside
  | arm remaining running => cases running <;> simpa [Onlooker.note, Place.InPause] using inside
  | _ => simp_all [Onlooker.note, Place.InPause]

theorem inside_note_of_ne {seen : Onlooker ι} {watch : Stopwatch} {other : ι}
    (different : other ≠ id) (before after : Place) :
    other ∈ (seen.note watch id before after).inside ↔ other ∈ seen.inside := by
  unfold Onlooker.note
  split <;> simp [different]

theorem Books.note {seen : Onlooker ι} {watch watch' : Stopwatch} {before after : Place}
    (books : Books watch seen) (inside : id ∈ seen.inside ↔ before.InPause)
    (moved : Moved watch before watch' after) : Books watch' (seen.note watch id before after) := by
  cases moved with
  | look limit limited =>
      unfold look
      split
      · exact books
      · exact ⟨books.pauses, books.running, books.paused, books.reading⟩
  | pause => exact books.pause fun within => inside.mp within
  | resume => exact books.resume (inside.mpr trivial)
  | _ => exact books

theorem limit_of_moved {watch watch' : Stopwatch} {before after : Place}
    (moved : Moved watch before watch' after) : watch'.limit = watch.limit := by
  cases moved <;> simp

theorem watches_of_moved {watch watch' : Stopwatch} {before after : Place}
    (moved : Moved watch before watch' after) (watches : before.Watches → watch.limit.isSome) :
    after.Watches → watch.limit.isSome := by
  cases moved with
  | token =>
      intro watching
      split at watching
      · assumption
      · exact watching.elim
  | pause | resume | pending | pauseFor => exact fun absent => absent.elim
  | _ => exact fun _ => watches trivial

theorem Kept.act {limit : Option ℕ} (kept : Kept limit world)
    (met : Uninterrupted world (.act id action))
    (stepped : step world (.act id action) = some next) : Kept limit next := by
  obtain ⟨limited, inside, books, watches, sound⟩ := kept
  obtain ⟨moves, elsewhere, noted⟩ := move_of_step stepped
  have moved := moved_of_move moves
  refine ⟨(limit_of_moved moved).trans limited, fun other => ?_, noted ▸ books.note
    (inside id) moved,
    fun other watching => ?_, fun bound some other => ?_⟩
  · rw [noted]
    by_cases same : other = id
    · subst same
      exact inside_note moved (inside other)
    · rw [inside_note_of_ne same, inside other, elsewhere other same]
  · by_cases same : other = id
    · subst same
      rw [← limited]
      exact watches_of_moved moved (fun before => limited ▸ watches other before) watching
    · rw [elsewhere other same] at watching
      exact watches other watching
  · rw [noted]
    by_cases same : other = id
    · subst same
      refine (sound bound some other).own books (limited.trans some) moved
        fun deadline seen' sleeps ends => ?_
      rw [sleeps, ends] at moves
      rw [slept_of_cancel moves] at met
      exact met
    · rw [elsewhere other same]
      exact (sound bound some other).other same moved

theorem Kept.step {limit : Option ℕ} {event : Event ι} (kept : Kept limit world)
    (met : Uninterrupted world event) (stepped : step world event = some next) :
      Kept limit next := by
  cases event with
  | tick duration => exact kept.tick stepped
  | act id action => exact kept.act met stepped

end Step

/-- In every run whose sleeps end the loop only uninterrupted, a token is cancelled only when the
time outside every pause has reached the limit. -/
theorem limit_le_unpaused_of_cancelled {limit : Option ℕ} {now : ℕ} {events : List (Event ι)}
    {final : World ι} (quiet : Along step Uninterrupted (start limit now) events)
    (ran : run step (start limit now) events = some final) {watcher : ι}
    (cancelled : final.tasks.place watcher = .cancelled) :
    ∃ bound, limit = some bound ∧ bound ≤ final.seen.unpaused := by
  have kept : Kept limit final :=
    invariant_of_run (fun _ _ _ kept met stepped => kept.step met stepped)
      (kept_start limit now) quiet
      ran
  have watches : limit.isSome := kept.watches watcher (cancelled ▸ trivial)
  obtain ⟨bound, limited⟩ := Option.isSome_iff_exists.mp watches
  have sound := kept.sound bound limited watcher
  rw [cancelled] at sound
  exact ⟨bound, limited, sound⟩

/-- A task watches a limit of fifty; another pauses the stopwatch, either while the first stands
between its lock section and its registration, or when it has registered. -/
def pauseWhile (early : Bool) : List (Event (ℕ)) :=
  [.act 0 .cancellationToken, .act 1 .pauseFor, .act 0 .proceed] ++
    (if early then
      [.act 1 .proceed, .act 0 .proceed, .act 0 .proceed, .tick 50, .act 0 .slept]
    else
      [.act 0 .proceed, .act 0 .proceed, .act 1 .proceed, .act 0 .wasNotified, .tick 50,
        .act 1 .proceed, .act 1 .proceed, .act 0 .proceed, .act 0 .proceed, .act 0 .proceed,
        .tick 50, .act 0 .slept]) ++
    [.act 0 .proceed]

instance (world : World ι) (event : Event ι) : Decidable (Uninterrupted world event) := by
  cases event with
  | tick duration => exact isTrue trivial
  | act id action => cases action <;> first | exact isTrue trivial | exact Bool.decEq _ _

theorem unpaused_of_notified :
    ∃ final, run step (start (some 50) 0) (pauseWhile false) = some final ∧
      final.tasks.place 0 = .cancelled ∧
        ∃ bound, some 50 = some bound ∧ bound ≤ final.seen.unpaused := by
  have quiet : Along step Uninterrupted (start (some 50) 0) (pauseWhile false) := by decide
  have ends : (run step (start (some 50) 0) (pauseWhile false)).map
      (fun final => final.tasks.place 0) = some .cancelled := by decide
  obtain ⟨final, ran, cancelled⟩ := Option.map_eq_some_iff.mp ends
  exact ⟨final, ran, cancelled, limit_le_unpaused_of_cancelled quiet ran cancelled⟩

/-- The early pause is not noticed, and the token is cancelled with no time outside the pause. -/
theorem cancelled_inside_pause :
    (run step (start (some 50) 0) (pauseWhile true)).map (fun final =>
      (final.tasks.place 0, final.tasks.place 1, final.seen.unpaused)) =
        some (.cancelled, .pending, 0) := by
  decide

end CodexPilot.ShellEscalation
