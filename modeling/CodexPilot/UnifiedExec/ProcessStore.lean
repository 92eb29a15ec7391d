import CodexPilot.Library.Transitions
import CodexPilot.RustStd.Iter
import Mathlib.Data.Finset.Option

/-!
# Process ids of unified exec

A call reserves a process id in one section under the lock of the store and uses it in a later one,
after it has spawned the process.  Ids are freed when a process is found to have exited, when one is
pruned, when a call gives up and when all processes are terminated.  Each call in flight holds an id
of its own exactly as long as no step frees an id that another call still holds.
-/

namespace CodexPilot.UnifiedExec

open RustStd Transitions

/-! ## The store -/

/-- A process in the store; processes are told apart by a number. -/
structure ProcessEntry where
  process : ℕ
  lastUsed : ℕ
  deriving DecidableEq

/-- The processes by their ids, and all ids that are taken. -/
structure ProcessStore where
  processes : List (ℤ × ProcessEntry)
  reservedProcessIds : Finset ℤ

def maxUnifiedExecProcesses : ℕ := 64

/-- The number of most recently used processes that are never pruned. -/
def protectedProcesses : ℕ := 8

namespace ProcessStore

def empty : ProcessStore := ⟨[], ∅⟩

def processIds (store : ProcessStore) : List ℤ := store.processes.map Prod.fst

def get (store : ProcessStore) (processId : ℤ) : Option ProcessEntry :=
  (store.processes.find? (·.1 = processId)).map Prod.snd

/-- `remove` of the store. -/
def remove (store : ProcessStore) (processId : ℤ) : ProcessStore where
  processes := store.processes.filter (·.1 ≠ processId)
  reservedProcessIds := store.reservedProcessIds.erase processId

/-- `HashMap::insert`. -/
def insert (store : ProcessStore) (processId : ℤ) (entry : ProcessEntry) : ProcessStore :=
  { store with processes := store.processes.filter (·.1 ≠ processId) ++ [(processId, entry)] }

end ProcessStore

/-- What pruning looks at: the id of a process, when it was last used and whether it has exited. -/
structure ProcessMeta where
  processId : ℤ
  lastUsed : ℕ
  exited : Bool

/-- The most recently used ones. -/
def protectedIds (metas : List ProcessMeta) : List ℤ :=
  ((sortByKey (fun entry => OrderDual.toDual entry.lastUsed) metas).take protectedProcesses).map
    (·.processId)

/-- The least recently used process that is not protected, an exited one if there is any. -/
def processIdToPruneFromMeta (metas : List ProcessMeta) : Option ℤ :=
  let unprotected := (sortByKey (·.lastUsed) metas).filter
    fun entry => !(protectedIds metas).contains entry.processId
  ((unprotected.find? (·.exited)).or unprotected.head?).map (·.processId)

/-- The process to prune when the store is full.  The order in which a `HashMap` lists its entries
is not fixed; it matters between processes that were last used at the same time. -/
def processIdToPrune (exited : ℕ → Bool) (store : ProcessStore) (order : List (ℤ × ProcessEntry)) :
    Option ℤ :=
  if store.processes.length < maxUnifiedExecProcesses then none
  else
    processIdToPruneFromMeta
      (order.map fun (processId, entry) => ⟨processId, entry.lastUsed, exited entry.process⟩)

/-- `prune_processes_if_needed`. -/
def pruneProcessesIfNeeded (exited : ℕ → Bool) (store : ProcessStore)
    (order : List (ℤ × ProcessEntry)) : ProcessStore :=
  match processIdToPrune exited store order with
  | some processId => store.remove processId
  | none => store

/-- A candidate for a new id: the next one in tests, else a random one. -/
def isCandidate (deterministic : Bool) (store : ProcessStore) (processId : ℤ) : Bool :=
  if deterministic then processId = store.reservedProcessIds.fold max 999 id + 1
  else 1000 ≤ processId && processId < 100000

/-! ## Calls -/

/-- How far an `exec_command` call has come. -/
inductive ExecCall where
  | idle
  | spawning (processId : ℤ)
  | shortLived (processId : ℤ)
  | stored (processId : ℤ)
  deriving DecidableEq

/-- The id that a call holds. -/
def ExecCall.heldId : ExecCall → Option ℤ
  | .idle => none
  | .spawning processId | .shortLived processId | .stored processId => some processId

/-- The store, the calls, and who has exited. -/
structure System where
  store : ProcessStore
  calls : ℕ → ExecCall
  exited : ℕ → Bool

def System.initial : System := ⟨.empty, fun _ => .idle, fun _ => false⟩

/-- A step of a call, of another user of the store, or of a process. -/
inductive Event where
  | allocate (call : ℕ) (processId : ℤ)
  | storeProcess (call : ℕ) (process startedAt : ℕ) (order : List (ℤ × ProcessEntry))
  | startedExited (call : ℕ)
  | release (call : ℕ)
  | refresh (call : ℕ)
  | abandon (call : ℕ)
  | releaseProcessId (processId : ℤ)
  | refreshProcessState (processId : ℤ)
  | prepareProcessHandles (processId : ℤ) (now : ℕ)
  | terminateAllProcesses
  | exit (process : ℕ)

/-- Remove a process that has exited. -/
def refreshed (exited : ℕ → Bool) (store : ProcessStore) (processId : ℤ) : ProcessStore :=
  if (store.get processId).any fun entry => exited entry.process then store.remove processId
  else store

namespace System

variable (system : System)

def setCall (call : ℕ) (state : ExecCall) : System :=
  { system with calls := Function.update system.calls call state }

def setStore (store : ProcessStore) : System := { system with store := store }

@[simp]
theorem calls_setCall_self (call : ℕ) (state : ExecCall) :
    (system.setCall call state).calls call = state :=
  Function.update_self ..

theorem calls_setCall_of_ne {call other : ℕ} (apart : other ≠ call) (state : ExecCall) :
    (system.setCall call state).calls other = system.calls other :=
  Function.update_of_ne apart ..

end System

/-- The steps: sections under the lock, and what happens outside of it. -/
def step (deterministic : Bool) (system : System) : Event → Option System
  | .allocate call processId =>
      if system.calls call = .idle ∧ isCandidate deterministic system.store processId = true ∧
          processId ∉ system.store.reservedProcessIds then
        some ((system.setStore { system.store with
          reservedProcessIds := insert processId system.store.reservedProcessIds }).setCall call
            (.spawning processId))
      else none
  | .storeProcess call process startedAt order =>
      match system.calls call with
      | .spawning processId =>
          if order.Perm system.store.processes then
            let store := pruneProcessesIfNeeded system.exited system.store order
            some ((system.setStore (store.insert processId ⟨process, startedAt⟩)).setCall call
              (.stored processId))
          else none
      | _ => none
  | .startedExited call =>
      match system.calls call with
      | .spawning processId => some (system.setCall call (.shortLived processId))
      | _ => none
  | .release call =>
      match (system.calls call).heldId with
      | some processId => some
        ((system.setStore (system.store.remove processId)).setCall call .idle)
      | none => none
  | .refresh call =>
      match system.calls call with
      | .stored processId =>
          some ((system.setStore (refreshed system.exited system.store processId)).setCall call
            .idle)
      | _ => none
  | .abandon call => some (system.setCall call .idle)
  | .releaseProcessId processId => some (system.setStore (system.store.remove processId))
  | .refreshProcessState processId =>
      some (system.setStore (refreshed system.exited system.store processId))
  | .prepareProcessHandles processId now =>
      some (system.setStore { system.store with
        processes := system.store.processes.map fun (id, entry) =>
          if id = processId then (id, { entry with lastUsed := now }) else (id, entry) })
  | .terminateAllProcesses => some (system.setStore .empty)
  | .exit process => some { system with exited := Function.update system.exited process true }

/-! ## Freed ids -/

/-- The call that takes a step, when a call does. -/
def Event.actor : Event → Option ℕ
  | .allocate call _ | .storeProcess call _ _ _ | .startedExited call | .release call
  | .refresh call | .abandon call => some call
  | _ => none

/-- The id that a refresh frees. -/
def refreshFrees (system : System) (processId : ℤ) : Option ℤ :=
  if (system.store.get processId).any fun entry => system.exited entry.process then some processId
  else none

/-- The ids that a step makes available again. -/
def freedIds (system : System) : Event → Finset ℤ
  | .storeProcess _ _ _ order => (processIdToPrune system.exited system.store order).toFinset
  | .release call => (system.calls call).heldId.toFinset
  | .refresh call => ((system.calls call).heldId.bind (refreshFrees system)).toFinset
  | .releaseProcessId processId => {processId}
  | .refreshProcessState processId => (refreshFrees system processId).toFinset
  | .terminateAllProcesses => system.store.reservedProcessIds
  | .allocate _ _ | .startedExited _ | .abandon _ | .prepareProcessHandles _ _ | .exit _ => ∅

/-- No call in flight holds an id that another party frees in this step. -/
def Undisturbed (system : System) (event : Event) : Prop :=
  ∀ processId ∈ freedIds system event, ∀ call, event.actor ≠ some call →
    (system.calls call).heldId ≠ some processId

/-! ## The store under its operations -/

namespace ProcessStore

/-- The ids are the keys of a map that is never too large, and all of them are taken. -/
structure WellFormed (store : ProcessStore) : Prop where
  bounded : store.processes.length ≤ maxUnifiedExecProcesses
  nodup : store.processIds.Nodup
  reserved : ∀ processId ∈ store.processIds, processId ∈ store.reservedProcessIds

variable {store : ProcessStore} {processId : ℤ}

theorem mem_processIds_remove {other : ℤ} :
    other ∈ (store.remove processId).processIds ↔
      other ∈ store.processIds ∧ other ≠ processId := by
  simp only [processIds, remove, List.mem_map, List.mem_filter, decide_eq_true_eq]
  constructor
  · rintro ⟨entry, ⟨member, other⟩, rfl⟩
    exact ⟨⟨entry, member, rfl⟩, other⟩
  · rintro ⟨⟨entry, member, rfl⟩, other⟩
    exact ⟨entry, ⟨member, other⟩, rfl⟩

theorem processIds_remove_subset : (store.remove processId).processIds ⊆ store.processIds :=
  fun _ member => (mem_processIds_remove.mp member).1

theorem WellFormed.remove (wellFormed : store.WellFormed) (processId : ℤ) :
    (store.remove processId).WellFormed where
  bounded := (List.length_filter_le _ _).trans wellFormed.bounded
  nodup := wellFormed.nodup.sublist (List.filter_sublist.map _)
  reserved := by
    intro other member
    obtain ⟨present, other⟩ := mem_processIds_remove.mp member
    exact Finset.mem_erase.mpr ⟨other, wellFormed.reserved _ present⟩

/-- A free id is added at the end, and nothing is replaced. -/
theorem processIds_insert (absent : processId ∉ store.processIds) (entry : ProcessEntry) :
    (store.insert processId entry).processIds = store.processIds ++ [processId] := by
  have kept : store.processes.filter (·.1 ≠ processId) = store.processes := by
    refine List.filter_eq_self.mpr fun present member => ?_
    simp only [decide_eq_true_eq]
    rintro rfl
    exact absent (List.mem_map_of_mem member)
  simp only [processIds, insert, kept, List.map_append, List.map_cons, List.map_nil]

theorem WellFormed.insert (wellFormed : store.WellFormed)
    (room : store.processes.length < maxUnifiedExecProcesses)
    (absent : processId ∉ store.processIds) (taken : processId ∈ store.reservedProcessIds)
    (entry : ProcessEntry) : (store.insert processId entry).WellFormed where
  bounded := by
    have shorter := List.length_filter_le (·.1 ≠ processId) store.processes
    simp only [ProcessStore.insert, List.length_append, List.length_singleton]
    omega
  nodup := by
    rw [processIds_insert absent]
    exact List.nodup_append.mpr ⟨wellFormed.nodup, List.nodup_singleton _, by aesop⟩
  reserved := by
    intro other member
    rw [processIds_insert absent] at member
    obtain present | added := List.mem_append.mp member
    · exact wellFormed.reserved other present
    · rwa [List.mem_singleton.mp added]

end ProcessStore

/-! ## Pruning -/

theorem length_protectedIds_le (metas : List ProcessMeta) :
    (protectedIds metas).length ≤ protectedProcesses := by
  simp [protectedIds]

/-- Among more processes than are protected there is one to prune. -/
theorem exists_processIdToPruneFromMeta {metas : List ProcessMeta}
    (nodup : (metas.map (·.processId)).Nodup) (many : protectedProcesses < metas.length) :
    ∃ processId ∈ metas.map (·.processId),
      processIdToPruneFromMeta metas = some processId := by
  set unprotected := (sortByKey (·.lastUsed) metas).filter
    fun entry => !(protectedIds metas).contains entry.processId with listed
  have nonempty : unprotected ≠ [] := by
    intro none
    have covered : metas.map (·.processId) ⊆ protectedIds metas := by
      intro processId member
      obtain ⟨entry, present, rfl⟩ := List.mem_map.mp member
      by_contra unlisted
      have found : entry ∈ unprotected := by simp [listed, present, unlisted]
      simp [none] at found
    have fewer := (List.subperm_of_subset nodup covered).length_le
    have few := length_protectedIds_le metas
    rw [List.length_map] at fewer
    omega
  obtain ⟨victim, chosen⟩ : ∃ victim,
      (unprotected.find? (·.exited)).or unprotected.head? = some victim := by
    refine Option.isSome_iff_exists.mp ?_
    simp [List.isSome_head?, nonempty]
  have member : victim ∈ unprotected := by
    obtain found | ⟨_, first⟩ := Option.or_eq_some_iff.mp chosen
    · exact List.mem_of_find?_eq_some found
    · exact List.mem_of_mem_head? first
  have present : victim ∈ metas := mem_sortByKey.mp (List.mem_filter.mp member).1
  refine ⟨victim.processId, List.mem_map_of_mem present, ?_⟩
  simp only [processIdToPruneFromMeta, ← listed, chosen, Option.map_some]

section Prune

variable {exited : ℕ → Bool} {store : ProcessStore} {order : List (ℤ × ProcessEntry)}

/-- A full store has a process to prune. -/
theorem exists_processIdToPrune (wellFormed : store.WellFormed)
    (listed : order.Perm store.processes)
    (full : maxUnifiedExecProcesses ≤ store.processes.length) :
    ∃ processId ∈ store.processIds, processIdToPrune exited store order = some processId := by
  set metas : List ProcessMeta :=
    order.map fun (processId, entry) => ⟨processId, entry.lastUsed, exited entry.process⟩ with read
  have sameIds : (metas.map (·.processId)).Perm store.processIds := by
    rw [read, List.map_map]
    exact listed.map Prod.fst
  have many : protectedProcesses < metas.length := by
    rw [read, List.length_map, listed.length_eq]
    exact lt_of_lt_of_le (by decide) full
  obtain ⟨processId, member, chosen⟩ :=
    exists_processIdToPruneFromMeta (sameIds.nodup_iff.mpr wellFormed.nodup) many
  refine ⟨processId, sameIds.mem_iff.mp member, ?_⟩
  simp only [processIdToPrune, if_neg (not_lt.mpr full), ← read, chosen]

theorem mem_processIds_of_processIdToPrune (wellFormed : store.WellFormed)
    (listed : order.Perm store.processes) {processId : ℤ}
    (chosen : processIdToPrune exited store order = some processId) :
    processId ∈ store.processIds := by
  obtain room | full := lt_or_ge store.processes.length maxUnifiedExecProcesses
  · simp [processIdToPrune, room] at chosen
  · obtain ⟨victim, present, pruned⟩ := exists_processIdToPrune wellFormed listed full
    cases chosen.symm.trans pruned
    exact present

theorem wellFormed_pruneProcessesIfNeeded (wellFormed : store.WellFormed) :
    (pruneProcessesIfNeeded exited store order).WellFormed := by
  unfold pruneProcessesIfNeeded
  split
  · exact wellFormed.remove _
  · exact wellFormed

theorem processIds_pruneProcessesIfNeeded_subset :
    (pruneProcessesIfNeeded exited store order).processIds ⊆ store.processIds := by
  unfold pruneProcessesIfNeeded
  split
  · exact ProcessStore.processIds_remove_subset
  · exact List.Subset.refl _

/-- After pruning there is room for one more. -/
theorem length_pruneProcessesIfNeeded_lt (wellFormed : store.WellFormed)
    (listed : order.Perm store.processes) :
    (pruneProcessesIfNeeded exited store order).processes.length < maxUnifiedExecProcesses := by
  obtain room | full := lt_or_ge store.processes.length maxUnifiedExecProcesses
  · unfold pruneProcessesIfNeeded processIdToPrune
    simpa only [if_pos room] using room
  · obtain ⟨processId, present, chosen⟩ : ∃ processId ∈ store.processIds,
        processIdToPrune exited store order = some processId :=
      exists_processIdToPrune wellFormed listed full
    simp only [pruneProcessesIfNeeded, chosen]
    obtain ⟨entry, member, rfl⟩ := List.mem_map.mp present
    have shorter : (store.remove entry.1).processes.length < store.processes.length :=
      List.length_filter_lt_length_iff_exists.mpr ⟨entry, member, by simp⟩
    exact lt_of_lt_of_le shorter wellFormed.bounded

theorem mem_reserved_pruneProcessesIfNeeded {processId : ℤ} :
    processId ∈ (pruneProcessesIfNeeded exited store order).reservedProcessIds ↔
      processId ∈ store.reservedProcessIds ∧
        processId ∉ (processIdToPrune exited store order).toFinset := by
  unfold pruneProcessesIfNeeded
  cases processIdToPrune exited store order with
  | none => simp
  | some pruned => simp [ProcessStore.remove, and_comm]

end Prune

/-! ## Exclusive process ids -/

/-- The ids of the store and of the calls in flight do not collide. -/
structure Exclusive (system : System) : Prop where
  wellFormed : system.store.WellFormed
  held : ∀ call processId, (system.calls call).heldId = some processId →
    processId ∈ system.store.reservedProcessIds
  distinct : ∀ call other processId, (system.calls call).heldId = some processId →
    (system.calls other).heldId = some processId → call = other
  unused : ∀ call processId, system.calls call = .spawning processId →
    processId ∉ system.store.processIds

theorem exclusive_initial : Exclusive System.initial where
  wellFormed := ⟨by simp [System.initial, ProcessStore.empty], List.nodup_nil, nofun⟩
  held := nofun
  distinct := nofun
  unused := nofun

section Parts

variable {system : System} {call : ℕ} {processId : ℤ}

/-- A call may take an id that is taken in the store and held by no other call. -/
theorem Exclusive.setCall (exclusive : Exclusive system) {state : ExecCall}
    (taken : ∀ processId, state.heldId = some processId →
      processId ∈ system.store.reservedProcessIds)
    (own : ∀ processId, state.heldId = some processId → ∀ other, other ≠ call →
      (system.calls other).heldId ≠ some processId)
    (unused : ∀ processId, state = .spawning processId → processId ∉ system.store.processIds) :
    Exclusive (system.setCall call state) := by
  have atCall := system.calls_setCall_self call state
  have elsewhere : ∀ other, other ≠ call →
      (system.setCall call state).calls other = system.calls other :=
    fun other apart => system.calls_setCall_of_ne apart state
  refine ⟨exclusive.wellFormed, ?_, ?_, ?_⟩
  · intro other processId holds
    obtain rfl | apart := eq_or_ne other call
    · exact taken processId (atCall ▸ holds)
    · exact exclusive.held other processId (elsewhere other apart ▸ holds)
  · intro first second processId holds holds'
    obtain rfl | apart := eq_or_ne first call
    · by_contra apart
      exact own processId (atCall ▸ holds) second (Ne.symm apart)
        (elsewhere second (Ne.symm apart) ▸ holds')
    · obtain rfl | apart' := eq_or_ne second call
      · exact absurd (elsewhere first apart ▸ holds) (own processId (atCall ▸ holds') first apart)
      · exact exclusive.distinct first second processId (elsewhere first apart ▸ holds)
          (elsewhere second apart' ▸ holds')
  · intro other processId spawning
    obtain rfl | apart := eq_or_ne other call
    · exact unused processId (atCall ▸ spawning)
    · exact exclusive.unused other processId (elsewhere other apart ▸ spawning)

/-- A call may go on with the id that it holds, or let go of it. -/
theorem Exclusive.advance (exclusive : Exclusive system) {state : ExecCall}
    (same : ∀ processId, state.heldId = some processId →
      (system.calls call).heldId = some processId)
    (started : ∀ processId, state ≠ .spawning processId) :
    Exclusive (system.setCall call state) := by
  refine exclusive.setCall (fun processId holds => exclusive.held call processId (same _ holds)) ?_
    fun processId spawning => absurd spawning (started processId)
  intro processId holds other apart holds'
  exact apart (exclusive.distinct other call processId holds' (same processId holds))

theorem Exclusive.setCall_idle (exclusive : Exclusive system) :
    Exclusive (system.setCall call .idle) :=
  exclusive.advance nofun nofun

/-- Ids that no call holds may be dropped from the store. -/
theorem Exclusive.setStore (exclusive : Exclusive system) {store : ProcessStore}
    (wellFormed : store.WellFormed) (fewer : store.processIds ⊆ system.store.processIds)
    (held : ∀ call processId, (system.calls call).heldId = some processId →
      processId ∈ store.reservedProcessIds) : Exclusive (system.setStore store) where
  wellFormed := wellFormed
  held := held
  distinct := exclusive.distinct
  unused call processId spawning present :=
    exclusive.unused call processId spawning (fewer present)

theorem Exclusive.remove (exclusive : Exclusive system)
    (free : ∀ call, (system.calls call).heldId ≠ some processId) :
    Exclusive (system.setStore (system.store.remove processId)) := by
  refine exclusive.setStore (exclusive.wellFormed.remove processId)
    ProcessStore.processIds_remove_subset fun call other holds => ?_
  refine Finset.mem_erase.mpr ⟨?_, exclusive.held call other holds⟩
  rintro rfl
  exact free call holds

theorem Exclusive.refreshed (exclusive : Exclusive system)
    (free : ∀ freed ∈ refreshFrees system processId, ∀ call,
      (system.calls call).heldId ≠ some freed) :
    Exclusive (system.setStore (refreshed system.exited system.store processId)) := by
  unfold UnifiedExec.refreshed
  split
  next exited => exact exclusive.remove (free processId (by simp [refreshFrees, exited]))
  next => exact exclusive

/-- A new id was not taken before. -/
theorem Exclusive.allocate (exclusive : Exclusive system)
    (fresh : processId ∉ system.store.reservedProcessIds) :
    Exclusive ((system.setStore { system.store with
      reservedProcessIds := insert processId system.store.reservedProcessIds }).setCall call
        (.spawning processId)) := by
  have reserved : Exclusive (system.setStore { system.store with
      reservedProcessIds := insert processId system.store.reservedProcessIds }) := by
    refine exclusive.setStore ⟨exclusive.wellFormed.bounded, exclusive.wellFormed.nodup, ?_⟩
      (List.Subset.refl _) ?_
    · exact fun other present =>
        Finset.mem_insert_of_mem (exclusive.wellFormed.reserved other present)
    · exact fun other held holds => Finset.mem_insert_of_mem (exclusive.held other held holds)
  refine reserved.setCall ?_ ?_ ?_
  · rintro _ ⟨⟩
    exact Finset.mem_insert_self _ _
  · rintro _ ⟨⟩ other _ holds
    exact fresh (exclusive.held other processId holds)
  · rintro _ ⟨⟩ present
    exact fresh (exclusive.wellFormed.reserved processId present)

/-- A process is stored under the id of its own call. -/
theorem Exclusive.insert (exclusive : Exclusive system)
    (stored : system.calls call = .stored processId)
    (room : system.store.processes.length < maxUnifiedExecProcesses)
    (absent : processId ∉ system.store.processIds) (entry : ProcessEntry) :
    Exclusive (system.setStore (system.store.insert processId entry)) where
  wellFormed := exclusive.wellFormed.insert room absent
    (exclusive.held call processId (by rw [stored]; rfl)) entry
  held := exclusive.held
  distinct := exclusive.distinct
  unused := by
    intro other spawned spawning present
    replace present : spawned ∈ (system.store.insert processId entry).processIds := present
    rw [ProcessStore.processIds_insert absent] at present
    obtain old | added := List.mem_append.mp present
    · exact exclusive.unused other spawned spawning old
    · cases List.mem_singleton.mp added
      have same := exclusive.distinct call other processId (by rw [stored]; rfl)
        (congrArg ExecCall.heldId spawning)
      subst same
      exact ExecCall.noConfusion (stored.symm.trans spawning)

end Parts

/-! ## Steps -/

/-- What each step does to the store and to the call that takes it. -/
inductive Steps (system : System) : Event → System → Prop
  | allocate {call : ℕ} {processId : ℤ} (fresh : processId ∉ system.store.reservedProcessIds) :
      Steps system (.allocate call processId) ((system.setStore { system.store with
        reservedProcessIds := insert processId system.store.reservedProcessIds }).setCall call
          (.spawning processId))
  | storeProcess {call process startedAt : ℕ} {order : List (ℤ × ProcessEntry)} {processId : ℤ}
      (spawning : system.calls call = .spawning processId)
      (listed : order.Perm system.store.processes) :
      Steps system (.storeProcess call process startedAt order)
        ((system.setStore ((pruneProcessesIfNeeded system.exited system.store order).insert
          processId
          ⟨process, startedAt⟩)).setCall call (.stored processId))
  | startedExited {call : ℕ} {processId : ℤ} (spawning : system.calls call = .spawning processId) :
      Steps system (.startedExited call) (system.setCall call (.shortLived processId))
  | release {call : ℕ} {processId : ℤ} (held : (system.calls call).heldId = some processId) :
      Steps system (.release call)
        ((system.setStore (system.store.remove processId)).setCall call .idle)
  | refresh {call : ℕ} {processId : ℤ} (stored : system.calls call = .stored processId) :
      Steps system (.refresh call)
        ((system.setStore (refreshed system.exited system.store processId)).setCall call .idle)
  | abandon {call : ℕ} : Steps system (.abandon call) (system.setCall call .idle)
  | releaseProcessId {processId : ℤ} :
      Steps system (.releaseProcessId processId) (system.setStore (system.store.remove processId))
  | refreshProcessState {processId : ℤ} : Steps system (.refreshProcessState processId)
      (system.setStore (refreshed system.exited system.store processId))
  | prepareProcessHandles {processId : ℤ} {now : ℕ} {store : ProcessStore}
      (sameLength : store.processes.length = system.store.processes.length)
      (sameIds : store.processIds = system.store.processIds)
      (sameReserved : store.reservedProcessIds = system.store.reservedProcessIds) :
      Steps system (.prepareProcessHandles processId now) (system.setStore store)
  | terminateAllProcesses : Steps system .terminateAllProcesses (system.setStore .empty)
  | exit {process : ℕ} {exited : ℕ → Bool} :
      Steps system (.exit process) { system with exited := exited }

section Step

variable {deterministic : Bool} {system next : System} {event : Event}

theorem steps_of_step (stepped : step deterministic system event = some next) :
    Steps system event next := by
  cases event with
  | allocate call processId =>
      obtain ⟨⟨_, _, fresh⟩, ⟨⟩⟩ := Option.ite_none_right_eq_some.mp stepped
      exact .allocate fresh
  | storeProcess call process startedAt order =>
      simp only [step] at stepped
      split at stepped
      · next spawning =>
          obtain ⟨listed, ⟨⟩⟩ := Option.ite_none_right_eq_some.mp stepped
          exact .storeProcess spawning listed
      · cases stepped
  | startedExited call =>
      simp only [step] at stepped
      split at stepped <;> cases stepped
      exact .startedExited ‹_›
  | release call =>
      simp only [step] at stepped
      split at stepped <;> cases stepped
      exact .release ‹_›
  | refresh call =>
      simp only [step] at stepped
      split at stepped <;> cases stepped
      exact .refresh ‹_›
  | abandon call => cases stepped; exact .abandon
  | releaseProcessId processId => cases stepped; exact .releaseProcessId
  | refreshProcessState processId => cases stepped; exact .refreshProcessState
  | prepareProcessHandles processId now =>
      cases stepped
      refine .prepareProcessHandles (List.length_map _) ?_ rfl
      simp only [ProcessStore.processIds, List.map_map]
      refine List.map_congr_left fun entry _ => ?_
      simp only [Function.comp_apply]
      split <;> rfl
  | terminateAllProcesses => cases stepped; exact .terminateAllProcesses
  | exit process => cases stepped; exact .exit

/-- A step changes the call that takes it and no other. -/
theorem calls_eq_of_steps (stepped : Steps system event next) {call : ℕ}
    (other : event.actor ≠ some call) : next.calls call = system.calls call := by
  have apart : ∀ actor, event.actor = some actor → call ≠ actor := by
    rintro actor acts rfl
    exact other acts
  cases stepped with
  | allocate _ | storeProcess _ _ | startedExited _ | release _ | refresh _ | abandon =>
      exact System.calls_setCall_of_ne _ (apart _ rfl) _
  | _ => rfl

theorem notMem_refreshed {processId freed : ℤ}
    (frees : refreshFrees system processId = some freed) :
    freed ∉ (refreshed system.exited system.store processId).reservedProcessIds := by
  obtain ⟨exited, ⟨⟩⟩ := Option.ite_none_right_eq_some.mp frees
  simp [refreshed, exited, ProcessStore.remove]

/-- What a step frees is not taken afterwards. -/
theorem notMem_reserved_of_mem_freedIds (stepped : Steps system event next)
    {processId : ℤ} (freed : processId ∈ freedIds system event) :
    processId ∉ next.store.reservedProcessIds := by
  cases stepped with
  | storeProcess _ _ => exact fun taken => (mem_reserved_pruneProcessesIfNeeded.mp taken).2 freed
  | release held =>
      simp only [freedIds, held, Option.mem_toFinset, Option.mem_some] at freed
      subst freed
      exact Finset.notMem_erase _ _
  | refresh stored =>
      refine notMem_refreshed ?_
      simpa [freedIds, stored, ExecCall.heldId] using freed
  | releaseProcessId =>
      rw [Finset.mem_singleton.mp freed]
      exact Finset.notMem_erase _ _
  | refreshProcessState => exact notMem_refreshed (Option.mem_toFinset.mp freed)
  | terminateAllProcesses => exact Finset.notMem_empty _
  | allocate _ | startedExited _ | abandon | prepareProcessHandles _ _ _ | exit =>
      exact absurd freed (Finset.notMem_empty _)

/-- After its own call has let go of an id, no call holds an id that is freed. -/
theorem Undisturbed.free_of_idle {call : ℕ} (undisturbed : Undisturbed system event)
    (acts : event.actor = some call) {processId : ℤ} (freed : processId ∈ freedIds system event)
    (other : ℕ) : ((system.setCall call .idle).calls other).heldId ≠ some processId := by
  obtain rfl | apart := eq_or_ne other call
  · simp [ExecCall.heldId]
  · rw [system.calls_setCall_of_ne apart]
    exact undisturbed processId freed other (by simpa [acts] using Ne.symm apart)

theorem Undisturbed.free {processId : ℤ} (undisturbed : Undisturbed system event)
    (external : event.actor = none) (freed : processId ∈ freedIds system event) (call : ℕ) :
    (system.calls call).heldId ≠ some processId :=
  undisturbed processId freed call (by simp [external])

theorem Exclusive.storeProcess {call process startedAt : ℕ} {order : List (ℤ × ProcessEntry)}
    {processId : ℤ} (exclusive : Exclusive system)
    (undisturbed : Undisturbed system (.storeProcess call process startedAt order))
    (spawning : system.calls call = .spawning processId)
    (listed : order.Perm system.store.processes) :
    Exclusive ((system.setStore ((pruneProcessesIfNeeded system.exited system.store order).insert
      processId ⟨process, startedAt⟩)).setCall call (.stored processId)) := by
  have absent := exclusive.unused call processId spawning
  have advanced : Exclusive (system.setCall call (.stored processId)) := by
    refine exclusive.advance ?_ nofun
    rintro _ ⟨⟩
    rw [spawning]
    rfl
  have pruned : Exclusive ((system.setCall call (.stored processId)).setStore
      (pruneProcessesIfNeeded system.exited system.store order)) := by
    refine advanced.setStore (wellFormed_pruneProcessesIfNeeded exclusive.wellFormed)
      processIds_pruneProcessesIfNeeded_subset fun other held holds => ?_
    refine mem_reserved_pruneProcessesIfNeeded.mpr ⟨advanced.held other held holds, fun freed => ?_⟩
    obtain rfl | apart := eq_or_ne other call
    · -- Only a process of the store is pruned, and the new one is not in it yet.
      rw [System.calls_setCall_self] at holds
      cases holds
      exact absent (mem_processIds_of_processIdToPrune exclusive.wellFormed listed
        (Option.mem_toFinset.mp freed))
    · rw [System.calls_setCall_of_ne _ apart] at holds
      refine undisturbed held freed other ?_ holds
      simpa [Event.actor] using Ne.symm apart
  exact pruned.insert (System.calls_setCall_self ..)
    (length_pruneProcessesIfNeeded_lt exclusive.wellFormed listed)
    (fun present => absent (processIds_pruneProcessesIfNeeded_subset present)) _

theorem exclusive_of_steps (exclusive : Exclusive system) (stepped : Steps system event next)
    (undisturbed : Undisturbed system event) : Exclusive next := by
  cases stepped with
  | allocate fresh => exact exclusive.allocate fresh
  | storeProcess spawning listed => exact exclusive.storeProcess undisturbed spawning listed
  | startedExited spawning =>
      refine exclusive.advance ?_ nofun
      rintro _ ⟨⟩
      rw [spawning]
      rfl
  | release held =>
      refine exclusive.setCall_idle.remove fun other => ?_
      exact undisturbed.free_of_idle rfl (by simp [freedIds, held]) other
  | refresh stored =>
      refine exclusive.setCall_idle.refreshed fun freed frees other => ?_
      refine undisturbed.free_of_idle rfl ?_ other
      replace frees : refreshFrees system _ = some freed := frees
      simpa [freedIds, stored, ExecCall.heldId] using frees
  | abandon => exact exclusive.setCall_idle
  | releaseProcessId => exact exclusive.remove (undisturbed.free rfl (Finset.mem_singleton_self _))
  | refreshProcessState =>
      exact exclusive.refreshed fun freed frees =>
        undisturbed.free rfl (Option.mem_toFinset.mpr frees)
  | prepareProcessHandles sameLength sameIds sameReserved =>
      refine exclusive.setStore ⟨?_, ?_, ?_⟩ (sameIds ▸ List.Subset.refl _) ?_
      · rw [sameLength]
        exact exclusive.wellFormed.bounded
      · rw [sameIds]
        exact exclusive.wellFormed.nodup
      · rw [sameIds, sameReserved]
        exact exclusive.wellFormed.reserved
      · rw [sameReserved]
        exact exclusive.held
  | terminateAllProcesses =>
      refine exclusive.setStore exclusive_initial.wellFormed (List.nil_subset _) ?_
      intro call processId holds
      exact absurd holds (undisturbed.free rfl (exclusive.held call processId holds) call)
  | exit => exact ⟨exclusive.wellFormed, exclusive.held, exclusive.distinct, exclusive.unused⟩

/-- A step keeps the ids apart exactly when it frees no id of another call in flight. -/
theorem exclusive_step_iff (exclusive : Exclusive system)
    (stepped : step deterministic system event = some next) :
    Exclusive next ↔ Undisturbed system event := by
  have steps := steps_of_step stepped
  refine ⟨fun after processId freed call other holds => ?_, exclusive_of_steps exclusive steps⟩
  have taken := after.held call processId (calls_eq_of_steps steps other ▸ holds)
  exact notMem_reserved_of_mem_freedIds steps freed taken

end Step

/-! ## Runs -/

/-- No id is in use twice: the store is within its bound, the ids of its processes are taken, calls
in flight hold different ids, and storing a process keeps every process that was not pruned. -/
structure NeverReused (deterministic : Bool) (system : System) : Prop where
  bounded : system.store.processes.length ≤ maxUnifiedExecProcesses
  reserved : ∀ processId ∈ system.store.processIds, processId ∈ system.store.reservedProcessIds
  distinct : ∀ call other processId, (system.calls call).heldId = some processId →
    (system.calls other).heldId = some processId → call = other
  kept : ∀ call process startedAt order next,
    step deterministic system (.storeProcess call process startedAt order) = some next →
      ∀ entry ∈ (pruneProcessesIfNeeded system.exited system.store order).processes,
        entry ∈ next.store.processes

theorem Exclusive.neverReused {system : System} (exclusive : Exclusive system)
    (deterministic : Bool) : NeverReused deterministic system where
  bounded := exclusive.wellFormed.bounded
  reserved := exclusive.wellFormed.reserved
  distinct := exclusive.distinct
  kept := by
    intro call process startedAt order next stepped entry present
    cases steps_of_step stepped with
    | storeProcess spawning _ =>
        refine List.mem_append_left _ (List.mem_filter.mpr ⟨present, ?_⟩)
        simp only [decide_eq_true_eq]
        rintro rfl
        have stored : entry.1 ∈
            (pruneProcessesIfNeeded system.exited system.store order).processIds :=
          List.mem_map_of_mem present
        exact exclusive.unused call entry.1 spawning
          (processIds_pruneProcessesIfNeeded_subset stored)

section Run

variable {deterministic : Bool} {events : List Event} {final : System}

/-- No step of a run frees an id of another call in flight exactly when the ids are apart in every
state on the way. -/
theorem along_undisturbed_iff :
    Along (step deterministic) Undisturbed System.initial events ↔
      ∀ before, before <+: events → ∀ reached,
        run (step deterministic) System.initial before = some reached → Exclusive reached :=
  along_iff_invariant (fun _ _ _ => exclusive_step_iff) exclusive_initial

/-- Ids are not reused in any run in which no step frees an id of another call in flight. -/
theorem neverReused_of_run
    (along : Along (step deterministic) Undisturbed System.initial events)
    (ran : run (step deterministic) System.initial events = some final) :
    NeverReused deterministic final := by
  have exclusive := along_undisturbed_iff.mp along events (List.prefix_refl events) final ran
  exact exclusive.neverReused deterministic

end Run

/-- Two calls run side by side, and the process of the first one exits before it looks again. -/
def sideBySide : List Event :=
  [.allocate 0 1000, .allocate 1 1001, .storeProcess 0 7 0 [], .exit 7, .refresh 0,
    .storeProcess 1 8 1 []]

theorem neverReused_of_run_sideBySide :
    ∃ final, run (step false) System.initial sideBySide = some final ∧
      Along (step false) Undisturbed System.initial sideBySide ∧ NeverReused false final := by
  have along : Along (step false) Undisturbed System.initial sideBySide := by
    refine along_cons rfl nofun (along_cons rfl nofun (along_cons rfl nofun (along_cons rfl nofun
      (along_cons rfl ?_ (along_cons rfl nofun trivial)))))
    intro processId freed call other holds
    have first : processId = 1000 := Finset.mem_singleton.mp freed
    match call with
    | 0 => exact other rfl
    | 1 =>
        have second : 1001 = processId := Option.some.inj holds
        omega
    | _ + 2 => cases holds
  exact ⟨_, rfl, along, neverReused_of_run along rfl⟩

/-- All processes are terminated while a call is spawning its process; its id goes to a second call,
whose process then takes the place of the first one. -/
theorem not_neverReused_of_terminateAllProcesses :
    ¬∀ events final, run (step false) System.initial events = some final →
      NeverReused false final := by
  intro never
  have reused := never
    [.allocate 0 1000, .terminateAllProcesses, .allocate 1 1000, .storeProcess 0 7 0 []] _ rfl
  have kept := reused.kept 1 8 1 [(1000, ⟨7, 0⟩)] _ rfl (1000, ⟨7, 0⟩) (List.mem_singleton_self _)
  revert kept
  decide

end CodexPilot.UnifiedExec
