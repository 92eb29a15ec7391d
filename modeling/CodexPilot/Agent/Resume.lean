import CodexPilot.Library.Tables
import CodexPilot.Library.Worklist
import Mathlib.Data.List.Sort
import Mathlib.Data.String.Basic

/-!
# Resuming an agent tree

An agent is resumed together with the threads that were spawned below it and not closed since.  The
threads whose children are still to be looked up wait in a queue; nothing remembers which ones were
looked up before, so the loop ends exactly when the agent is not one of its own descendants.
-/

namespace CodexPilot.Agent

open Tables

/-! ## Edges between threads -/

/-- Whether a child is open. -/
inductive DirectionalThreadSpawnEdgeStatus where
  | open_
  | closed
  deriving DecidableEq

/-- A row of `thread_spawn_edges`; its key is the child. -/
structure ThreadSpawnEdge where
  parentThreadId : String
  status : DirectionalThreadSpawnEdgeStatus
  deriving DecidableEq

/-- The table of edges, by the child. -/
abbrev ThreadSpawnEdges := Table String ThreadSpawnEdge

/-- `upsert_thread_spawn_edge`. -/
def upsertThreadSpawnEdge (edges : ThreadSpawnEdges) (parentThreadId childThreadId : String)
    (status : DirectionalThreadSpawnEdgeStatus) : ThreadSpawnEdges :=
  edges.insert childThreadId ⟨parentThreadId, status⟩

def listThreadSpawnChildrenWithStatus (edges : ThreadSpawnEdges) (parentThreadId : String)
    (status : DirectionalThreadSpawnEdgeStatus) : List String :=
  let rows := edges.entries.filter fun entry => entry.2 = ⟨parentThreadId, status⟩
  (rows.map (·.1)).insertionSort (· ≤ ·)

/-- An edge is persisted for a thread that has a parent. -/
def persistThreadSpawnEdgeForSource (edges : ThreadSpawnEdges) (childThreadId : String) :
    Option String → ThreadSpawnEdges
  | none => edges
  | some parentThreadId => upsertThreadSpawnEdge edges parentThreadId childThreadId .open_

section Edges

variable {edges : ThreadSpawnEdges} {parent child : String}
  {status : DirectionalThreadSpawnEdgeStatus}

theorem mem_listThreadSpawnChildrenWithStatus :
    child ∈ listThreadSpawnChildrenWithStatus edges parent status ↔
      edges.lookup child = some ⟨parent, status⟩ := by
  simp only [listThreadSpawnChildrenWithStatus, List.mem_insertionSort, List.mem_map,
    List.mem_filter, decide_eq_true_eq]
  constructor
  · rintro ⟨⟨key, row⟩, ⟨member, rfl⟩, rfl⟩
    exact AList.mem_lookup_iff.mpr member
  · intro found
    exact ⟨⟨child, _⟩, ⟨AList.mem_lookup_iff.mp found, rfl⟩, rfl⟩

theorem nodup_listThreadSpawnChildrenWithStatus :
    (listThreadSpawnChildrenWithStatus edges parent status).Nodup := by
  have rows : ((edges.entries.filter fun entry => entry.2 = ⟨parent, status⟩).map (·.1)).Nodup :=
    List.Nodup.sublist (List.filter_sublist.map _) edges.nodupKeys
  exact (List.perm_insertionSort (· ≤ ·) _).nodup_iff.mpr rows

end Edges

/-! ## The loop -/

/-- The queue and what resuming reads and writes: the live threads, the edges, and how often a
thread was tried.  The threads whose children were looked up are recorded as well, the last one
first. -/
structure State where
  resumeQueue : List (String × ℕ)
  live : List String
  edges : ThreadSpawnEdges
  attempts : String → ℕ
  processed : List String

section Loop

-- Whether a thread can be resumed, by how often that was tried before.
variable (resumes : String → ℕ → Bool)

/-- `resume_single_agent_from_rollout`, for a thread with or without a parent. -/
def resumeSingleAgentFromRollout (state : State) (threadId : String) (source : Option String) :
    Bool × State :=
  let attempt := state.attempts threadId
  let tried := { state with attempts := Function.update state.attempts threadId (attempt + 1) }
  if resumes threadId attempt then
    (true, { tried with
      live := threadId :: state.live
      edges := persistThreadSpawnEdgeForSource state.edges threadId source })
  else (false, tried)

/-- A child is queued when it is live, or when it can be resumed. -/
def resumeChild (parentThreadId : String) (childDepth : ℕ) (state : State)
    (childThreadId : String) : State :=
  let result := if childThreadId ∈ state.live then (true, state)
    else resumeSingleAgentFromRollout resumes state childThreadId (some parentThreadId)
  if result.1 then
    { result.2 with resumeQueue := result.2.resumeQueue ++ [(childThreadId, childDepth)] }
  else result.2

/-- The children of the next thread are looked up and resumed. -/
def loopStep (state : State) : State :=
  match state.resumeQueue with
  | [] => state
  | (parentThreadId, parentDepth) :: rest =>
      let children := listThreadSpawnChildrenWithStatus state.edges parentThreadId .open_
      children.foldl (resumeChild resumes parentThreadId (parentDepth + 1))
        { state with resumeQueue := rest, processed := parentThreadId :: state.processed }

/-- The state in which the loop starts, once the thread itself was resumed. -/
def resumeAgentFromRollout (edges : ThreadSpawnEdges) (live : List String) (threadId : String)
    (source : Option String) (rootDepth : ℕ) : Option State :=
  let initial : State :=
    { resumeQueue := [], live, edges, attempts := fun _ => 0, processed := [] }
  let result := resumeSingleAgentFromRollout resumes initial threadId source
  if result.1 then some { result.2 with resumeQueue := [(threadId, rootDepth)] } else none

end Loop

/-! ## What a round does -/

section Round

variable {resumes : String → ℕ → Bool} {state : State} {parent child : String} {depth : ℕ}
  {children : List String}

/-- The child is live, or it will be resumed. -/
def joins (resumes : String → ℕ → Bool) (state : State) (child : String) : Bool :=
  child ∈ state.live || resumes child (state.attempts child)

/-- What is known after the children of a thread were resumed. -/
structure Resumed (resumes : String → ℕ → Bool) (state : State) (children : List String) (depth : ℕ)
    (after : State) : Prop where
  queue : after.resumeQueue =
    state.resumeQueue ++ (children.filter (joins resumes state)).map (·, depth)
  processed : after.processed = state.processed
  edges : ∀ thread, after.edges.lookup thread = state.edges.lookup thread
  live : ∀ thread, thread ∈ after.live ↔
    thread ∈ state.live ∨ (thread ∈ children ∧ joins resumes state thread = true)
  attempts : ∀ thread, after.attempts thread =
    if thread ∈ children ∧ thread ∉ state.live then state.attempts thread + 1
    else state.attempts thread

variable (resumes depth) in
theorem resumed_resumeChild (isChild : state.edges.lookup child = some ⟨parent, .open_⟩) :
    Resumed resumes state [child] depth (resumeChild resumes parent depth state child) := by
  have unchanged : ∀ thread, (upsertThreadSpawnEdge state.edges parent child .open_).lookup thread =
      state.edges.lookup thread := by
    intro thread
    obtain rfl | apart := eq_or_ne thread child
    · rw [upsertThreadSpawnEdge, AList.lookup_insert, isChild]
    · exact AList.lookup_insert_ne apart
  have counted : child ∉ state.live → ∀ thread,
      Function.update state.attempts child (state.attempts child + 1) thread =
        if thread ∈ [child] ∧ thread ∉ state.live then state.attempts thread + 1
        else state.attempts thread := by
    intro missing thread
    obtain rfl | apart := eq_or_ne thread child
    · simp [missing]
    · simp [apart]
  by_cases live : child ∈ state.live
  · have result : resumeChild resumes parent depth state child =
        { state with resumeQueue := state.resumeQueue ++ [(child, depth)] } := by
      simp [resumeChild, live]
    rw [result]
    refine ⟨by simp [live, joins], rfl, fun _ => rfl, fun thread => ?_, fun thread => ?_⟩
    · refine ⟨.inl, fun known => known.elim id fun joined => ?_⟩
      exact List.mem_singleton.mp joined.1 ▸ live
    · refine (if_neg ?_).symm
      rintro ⟨isChild, missing⟩
      exact missing (List.mem_singleton.mp isChild ▸ live)
  · cases outcome : resumes child (state.attempts child)
    · have alone : joins resumes state child = false := by simp [joins, live, outcome]
      have result : resumeChild resumes parent depth state child =
          { state with
            attempts := Function.update state.attempts child (state.attempts child + 1) } := by
        simp [resumeChild, resumeSingleAgentFromRollout, live, outcome]
      rw [result]
      refine ⟨by simp [alone], rfl, fun _ => rfl, fun thread => ?_, counted live⟩
      refine ⟨.inl, fun known => known.elim id fun joined => ?_⟩
      rw [List.mem_singleton.mp joined.1, alone] at joined
      cases joined.2
    · have joined : joins resumes state child = true := by simp [joins, live, outcome]
      have result : resumeChild resumes parent depth state child =
          { state with
            resumeQueue := state.resumeQueue ++ [(child, depth)]
            live := child :: state.live
            edges := upsertThreadSpawnEdge state.edges parent child .open_
            attempts := Function.update state.attempts child (state.attempts child + 1) } := by
        simp [resumeChild, resumeSingleAgentFromRollout, live, outcome,
          persistThreadSpawnEdgeForSource]
      rw [result]
      refine ⟨by simp [joined], rfl, unchanged, fun thread => ?_, counted live⟩
      rw [List.mem_cons, List.mem_singleton, or_comm]
      refine or_congr_right ⟨fun same => ⟨same, same ▸ joined⟩, And.left⟩

/-- The children of one thread are resumed independently of each other. -/
theorem resumed_foldl (nodup : children.Nodup)
    (isChild : ∀ child ∈ children, state.edges.lookup child = some ⟨parent, .open_⟩) :
    Resumed resumes state children depth
      (children.foldl (resumeChild resumes parent depth) state) := by
  induction children generalizing state with
  | nil => exact ⟨by simp, rfl, fun _ => rfl, by simp, by simp⟩
  | cons child children ih =>
      obtain ⟨fresh, nodup⟩ := List.nodup_cons.mp nodup
      have first := resumed_resumeChild resumes depth
        (isChild child List.mem_cons_self)
      have rest : Resumed resumes (resumeChild resumes parent depth state child) children depth _ :=
        ih nodup fun other member =>
          (first.edges other).trans (isChild other (List.mem_cons_of_mem child member))
      have apart : ∀ other ∈ children, other ≠ child := fun other member same =>
        fresh (same ▸ member)
      have sameLive : ∀ other ∈ children,
          (other ∈ (resumeChild resumes parent depth state child).live ↔ other ∈ state.live) := by
        intro other member
        simp [first.live, apart other member]
      have sameAttempts : ∀ other ∈ children,
          (resumeChild resumes parent depth state child).attempts other = state.attempts other := by
        intro other member
        simp [first.attempts, apart other member]
      have sameJoins : ∀ other ∈ children,
          joins resumes (resumeChild resumes parent depth state child) other =
            joins resumes state other := by
        intro other member
        simp [joins, sameLive other member, sameAttempts other member]
      rw [List.foldl_cons]
      refine ⟨?_, ?_, ?_, ?_, ?_⟩
      · rw [rest.queue, first.queue, List.filter_congr sameJoins, List.append_assoc,
          ← List.map_append, ← List.filter_append, List.singleton_append]
      · rw [rest.processed, first.processed]
      · exact fun thread => (rest.edges thread).trans (first.edges thread)
      · intro thread
        rw [rest.live, first.live, or_assoc, List.mem_singleton, List.mem_cons]
        refine or_congr_right ⟨?_, ?_⟩
        · rintro (⟨rfl, joined⟩ | ⟨later, joined⟩)
          · exact ⟨.inl rfl, joined⟩
          · exact ⟨.inr later, sameJoins thread later ▸ joined⟩
        · rintro ⟨rfl | later, joined⟩
          · exact .inl ⟨rfl, joined⟩
          · exact .inr ⟨later, (sameJoins thread later).symm ▸ joined⟩
      · intro thread
        rw [rest.attempts, first.attempts]
        obtain rfl | other := eq_or_ne thread child
        · simp [fresh]
        · by_cases later : thread ∈ children
          · simp [later, other, sameLive thread later]
          · simp [later, other]

end Round

/-! ## When the loop ends -/

/-- An edge that is open when the loop starts. -/
def OpenEdge (base : State) (parent child : String) : Prop :=
  base.edges.lookup child = some ⟨parent, .open_⟩

/-- An open edge to a child that is live, or that can be resumed at the first attempt. -/
def Link (resumes : String → ℕ → Bool) (base : State) (parent child : String) : Prop :=
  OpenEdge base parent child ∧ joins resumes base child = true

/-- The vertices of the worklist. -/
def State.config (state : State) : Worklist.Config String :=
  ⟨state.resumeQueue.map (·.1), state.processed⟩

/-- What the loop has changed since it started. -/
structure Continues (resumes : String → ℕ → Bool) (base state : State) : Prop where
  edges : ∀ thread, state.edges.lookup thread = base.edges.lookup thread
  attempts : ∀ thread, base.attempts thread ≤ state.attempts thread
  live : ∀ thread, thread ∈ base.live → thread ∈ state.live
  resumed : ∀ thread, thread ∈ state.live → thread ∈ base.live ∨
    base.attempts thread < state.attempts thread
  tried : ∀ thread, base.attempts thread < state.attempts thread →
    ∃ parent ∈ state.processed, OpenEdge base parent thread
  first : ∀ thread, base.attempts thread < state.attempts thread →
    joins resumes base thread = true → thread ∈ state.live

section Ends

variable {resumes : String → ℕ → Bool} {base state : State} {parent child thread : String}

theorem OpenEdge.unique (base : State) (parent other child : String)
    (isParent : OpenEdge base parent child) (isOther : OpenEdge base other child) :
    parent = other :=
  congrArg ThreadSpawnEdge.parentThreadId (Option.some.inj (isParent.symm.trans isOther))

theorem joins_iff : joins resumes state thread = true ↔
    thread ∈ state.live ∨ resumes thread (state.attempts thread) = true := by
  simp [joins]

namespace Continues

theorem refl : Continues resumes base base where
  edges := fun _ => rfl
  attempts := fun _ => Nat.le_refl _
  live := fun _ => id
  resumed := fun _ => .inl
  tried := fun _ tried => absurd tried (Nat.lt_irrefl _)
  first := fun _ tried => absurd tried (Nat.lt_irrefl _)

/-- What would join when the loop starts joins at any time. -/
theorem joins_of_base (continues : Continues resumes base state)
    (joined : joins resumes base thread = true) : joins resumes state thread = true := by
  obtain untried | tried := Nat.eq_or_lt_of_le (continues.attempts thread)
  · refine joins_iff.mpr ((joins_iff.mp joined).imp (continues.live thread) fun resumable => ?_)
    exact untried ▸ resumable
  · exact joins_iff.mpr (.inl (continues.first thread tried joined))

/-- What joins while its parent was not taken before would join when the loop starts. -/
theorem joins_of_untried (continues : Continues resumes base state)
    (fresh : parent ∉ state.processed) (isChild : OpenEdge base parent thread)
    (joined : joins resumes state thread = true) : joins resumes base thread = true := by
  have untried : ¬ base.attempts thread < state.attempts thread := by
    intro tried
    obtain ⟨other, earlier, isOther⟩ := continues.tried thread tried
    exact fresh (OpenEdge.unique base parent other thread isChild isOther ▸ earlier)
  have same : state.attempts thread = base.attempts thread :=
    Nat.le_antisymm (Nat.not_lt.mp untried) (continues.attempts thread)
  refine joins_iff.mpr ((joins_iff.mp joined).imp (fun live => ?_) fun resumable =>
    same ▸ resumable)
  exact (continues.resumed thread live).resolve_right untried

end Continues

/-- A round of the loop is a step of the worklist. -/
theorem loopStep_spec (continues : Continues resumes base state)
    (waiting : state.resumeQueue ≠ []) :
    Worklist.Step (OpenEdge base) (Link resumes base) state.config (loopStep resumes state).config ∧
      Continues resumes base (loopStep resumes state) := by
  obtain ⟨⟨parent, depth⟩, rest, queue⟩ := List.exists_cons_of_ne_nil waiting
  let taken : State := { state with resumeQueue := rest, processed := parent :: state.processed }
  let children := listThreadSpawnChildrenWithStatus state.edges parent .open_
  have isChild : ∀ child, child ∈ children ↔ OpenEdge base parent child := by
    intro child
    rw [mem_listThreadSpawnChildrenWithStatus, continues.edges]
    rfl
  have round : Resumed resumes taken children (depth + 1) (loopStep resumes state) := by
    have unfolded : loopStep resumes state =
        children.foldl (resumeChild resumes parent (depth + 1)) taken := by
      simp only [loopStep, queue, taken, children]
    rw [unfolded]
    exact resumed_foldl nodup_listThreadSpawnChildrenWithStatus fun child member =>
      mem_listThreadSpawnChildrenWithStatus.mp member
  have joinsTaken : joins resumes taken = joins resumes state := rfl
  constructor
  · have before : state.config = ⟨parent :: rest.map (·.1), state.processed⟩ := by
      simp [State.config, queue]
    have after : (loopStep resumes state).config =
        ⟨rest.map (·.1) ++ children.filter (joins resumes state), parent :: state.processed⟩ := by
      simp [State.config, round.queue, round.processed, taken, joinsTaken, Function.comp_def]
    rw [before, after]
    refine .take ⟨?_, ?_, ?_, ?_⟩
    · exact nodup_listThreadSpawnChildrenWithStatus.filter _
    · exact fun child member => (isChild child).mp (List.mem_of_mem_filter member)
    · rintro child ⟨edge, joined⟩
      exact List.mem_filter.mpr ⟨(isChild child).mpr edge, continues.joins_of_base joined⟩
    · intro fresh child member
      obtain ⟨isListed, joined⟩ := List.mem_filter.mp member
      have edge := (isChild child).mp isListed
      exact ⟨edge, continues.joins_of_untried fresh edge joined⟩
  · have grows : ∀ thread, state.attempts thread ≤ (loopStep resumes state).attempts thread := by
      intro thread
      rw [round.attempts]
      split_ifs
      · exact Nat.le_succ _
      · exact Nat.le_refl _
    have known : ∀ thread, thread ∈ state.live → thread ∈ (loopStep resumes state).live :=
      fun thread live => (round.live thread).mpr (.inl live)
    -- A thread is tried when it is a child that is not live.
    have tries : ∀ thread, state.attempts thread < (loopStep resumes state).attempts thread →
        thread ∈ children ∧ thread ∉ state.live := by
      intro thread tried
      by_contra untried
      rw [round.attempts, if_neg untried] at tried
      exact absurd tried (Nat.lt_irrefl _)
    refine ⟨?_, ?_, ?_, ?_, ?_, ?_⟩
    · exact fun thread => (round.edges thread).trans (continues.edges thread)
    · exact fun thread => (continues.attempts thread).trans (grows thread)
    · exact fun thread live => known thread (continues.live thread live)
    · intro thread live
      by_cases before : thread ∈ state.live
      · exact (continues.resumed thread before).imp_right fun tried => tried.trans_le (grows thread)
      · obtain ⟨listed, _⟩ := ((round.live thread).mp live).resolve_left before
        refine .inr ((continues.attempts thread).trans_lt ?_)
        rw [round.attempts, if_pos ⟨listed, before⟩]
        exact Nat.lt_succ_self _
    · intro thread tried
      rw [round.processed]
      by_cases before : base.attempts thread < state.attempts thread
      · obtain ⟨other, earlier, edge⟩ := continues.tried thread before
        exact ⟨other, List.mem_cons_of_mem _ earlier, edge⟩
      · have now := (Nat.not_lt.mp before).trans_lt tried
        exact ⟨parent, List.mem_cons_self, (isChild thread).mp (tries thread now).1⟩
    · intro thread tried joined
      by_cases before : base.attempts thread < state.attempts thread
      · exact known thread (continues.first thread before joined)
      · have now := (Nat.not_lt.mp before).trans_lt tried
        refine (round.live thread).mpr (.inr ⟨(tries thread now).1, ?_⟩)
        exact continues.joins_of_base joined

variable (resumes) in
/-- Rounds of the loop are steps of the worklist. -/
theorem iterate_spec (start : String) (waiting : base.resumeQueue.map (·.1) = [start])
    (unprocessed : base.processed = []) (rounds : ℕ) :
    Worklist.Reaches (OpenEdge base) (Link resumes base) start
        ((loopStep resumes)^[rounds] base).config ∧
      Continues resumes base ((loopStep resumes)^[rounds] base) := by
  induction rounds with
  | zero =>
      have config : base.config = ⟨[start], []⟩ := by simp [State.config, waiting, unprocessed]
      exact ⟨config ▸ .refl, .refl⟩
  | succ rounds ih =>
      obtain ⟨reaches, continues⟩ := ih
      rw [Function.iterate_succ_apply']
      by_cases ended : ((loopStep resumes)^[rounds] base).resumeQueue = []
      · have idle : loopStep resumes ((loopStep resumes)^[rounds] base) =
            (loopStep resumes)^[rounds] base := by
          rw [loopStep, ended]
        rw [idle]
        exact ⟨reaches, continues⟩
      · obtain ⟨stepped, continues'⟩ := loopStep_spec continues ended
        exact ⟨reaches.tail stepped, continues'⟩

variable (resumes) in
/-- Until the loop ends, every round takes one thread. -/
theorem ended_or_length_processed (start : String) (waiting : base.resumeQueue.map (·.1) = [start])
    (unprocessed : base.processed = []) (rounds : ℕ) :
    ((loopStep resumes)^[rounds] base).resumeQueue = [] ∨
      ((loopStep resumes)^[rounds] base).processed.length = rounds := by
  induction rounds with
  | zero => exact .inr (by simp [unprocessed])
  | succ rounds ih =>
      obtain ⟨_, continues⟩ := iterate_spec resumes start waiting unprocessed rounds
      rw [Function.iterate_succ_apply']
      obtain ended | counted := ih
      · refine .inl ?_
        rw [loopStep, ended]
        exact ended
      · by_cases ended : ((loopStep resumes)^[rounds] base).resumeQueue = []
        · refine .inl ?_
          rw [loopStep, ended]
          exact ended
        · obtain ⟨stepped, _⟩ := loopStep_spec continues ended
          have taken := Worklist.length_taken_of_step stepped
          exact .inr (taken.symm.trans (congrArg (· + 1) counted))

/-- The loop ends, and no thread is taken twice. -/
def ProcessesOnce (resumes : String → ℕ → Bool) (base : State) : Prop :=
  ∃ rounds, ((loopStep resumes)^[rounds] base).resumeQueue = [] ∧
    ((loopStep resumes)^[rounds] base).processed.Nodup

theorem resumeQueue_ne_nil_of_cycle (start : String)
    (waiting : base.resumeQueue.map (·.1) = [start]) (unprocessed : base.processed = [])
    (cycle : Relation.TransGen (Link resumes base) start start) (rounds : ℕ) :
    ((loopStep resumes)^[rounds] base).resumeQueue ≠ [] := by
  intro ended
  have reaches := (iterate_spec resumes start waiting unprocessed rounds).1
  exact Worklist.waiting_ne_nil_of_cycle cycle reaches (by simp [State.config, ended])

theorem processesOnce_iff_of_start (start : String) (waiting : base.resumeQueue.map (·.1) = [start])
    (unprocessed : base.processed = []) :
    ProcessesOnce resumes base ↔ ¬ Relation.TransGen (Link resumes base) start start := by
  constructor
  · rintro ⟨rounds, ended, _⟩ cycle
    exact resumeQueue_ne_nil_of_cycle start waiting unprocessed cycle rounds ended
  · intro acyclic
    let rounds := base.edges.keys.length + 2
    have reaches := (iterate_spec resumes start waiting unprocessed rounds).1
    have bounded : ∀ parent child, OpenEdge base parent child → child ∈ base.edges.keys := by
      intro parent child edge
      exact AList.lookup_isSome.mp (Option.isSome_iff_exists.mpr ⟨_, edge⟩)
    have atMost := Worklist.length_taken_le (OpenEdge.unique base) acyclic reaches bounded
    have unrepeated := Worklist.unrepeated_of_reaches (OpenEdge.unique base) acyclic reaches
    obtain ended | counted := ended_or_length_processed resumes start waiting unprocessed rounds
    · exact ⟨rounds, ended, (List.nodup_append.mp unrepeated.nodup).1⟩
    · rw [State.config, counted] at atMost
      omega

/-- Resuming an agent takes every thread once and ends exactly when the agent is not below
itself. -/
theorem processesOnce_iff (resumes : String → ℕ → Bool) (edges : ThreadSpawnEdges)
    (live : List String) (threadId : String) (source : Option String) (rootDepth : ℕ) :
    (∀ base ∈ resumeAgentFromRollout resumes edges live threadId source rootDepth,
      ProcessesOnce resumes base) ↔
      ∀ base ∈ resumeAgentFromRollout resumes edges live threadId source rootDepth,
        ¬ Relation.TransGen (Link resumes base) threadId threadId := by
  refine forall₂_congr fun base started => ?_
  cases outcome : resumes threadId 0
  · simp [resumeAgentFromRollout, resumeSingleAgentFromRollout, outcome] at started
  · simp only [resumeAgentFromRollout, resumeSingleAgentFromRollout, outcome, if_true] at started
    cases started
    exact processesOnce_iff_of_start threadId rfl rfl

/-- An agent resumes the agent that spawned it: the new edge closes a cycle. -/
theorem resume_of_parent_never_ends :
    ∃ base, resumeAgentFromRollout (fun _ _ => true)
        (upsertThreadSpawnEdge ∅ "parent" "child" .open_) ["child"] "parent" (some "child") 0 =
          some base ∧
      (∀ rounds, ((loopStep fun _ _ => true)^[rounds] base).resumeQueue ≠ []) ∧
      ¬ ((loopStep fun _ _ => true)^[3] base).processed.Nodup := by
  refine ⟨_, rfl, resumeQueue_ne_nil_of_cycle "parent" rfl rfl ?_, by decide⟩
  refine .tail (.single (b := "child") ⟨?_, ?_⟩) ⟨?_, ?_⟩ <;> rfl

end Ends

end CodexPilot.Agent
