import CodexPilot.Library.Tables
import CodexPilot.Library.Transitions
import CodexPilot.RustStd.Text

/-!
# The agent registry

An agent path is `/root`, or a chain of agent names below it.  Spawning an agent reserves a slot, a
path and a nickname first; the reservation is committed once the agent runs, and dropped otherwise.
The slots are counted by an atomic counter, the paths and the agents stand in one table behind a
lock.  Each atomic operation and each section under the lock is one step.  A path that is reserved
stands in the table without an agent until an agent or a release takes its place.
-/

namespace CodexPilot.Agent

open RustStd Tables

namespace AgentPath

def rootSegment : Text := "root".toList

end AgentPath

/-- `validate_agent_name`. -/
def validateAgentName (agentName : Text) : Except String Unit :=
  if agentName = [] then .error "agent_name must not be empty"
  else if agentName = AgentPath.rootSegment then .error "agent_name `root` is reserved"
  else if agentName = ['.'] ∨ agentName = ['.', '.'] then
    .error ("agent_name `" ++ String.ofList agentName ++ "` is reserved")
  else if '/' ∈ agentName then .error "agent_name must not contain `/`"
  else if agentName.all fun c => c.isLower || c.isDigit || c = '_' then .ok ()
  else .error "agent_name must use only lowercase letters, digits, and underscores"

/-- `validate_absolute_path`. -/
def validateAbsolutePath (path : Text) : Except String Unit :=
  match path.stripPrefix ['/'] with
  | none => .error "absolute agent paths must start with `/root`"
  | some stripped =>
      match stripped.splitOn '/' with
      | [] => .error "absolute agent path must not be empty"
      | root :: segments =>
          if root ≠ AgentPath.rootSegment then
            .error "absolute agent paths must start with `/root`"
          else if stripped.endsWith ['/'] then .error "absolute agent path must not end with `/`"
          else segments.forM validateAgentName

/-- A path that has been validated. -/
structure AgentPath where
  text : Text
  valid : validateAbsolutePath text = .ok ()

namespace AgentPath

@[ext]
theorem ext {path other : AgentPath} (same : path.text = other.text) : path = other := by
  cases path
  cases same
  rfl

instance : DecidableEq AgentPath := fun path other =>
  decidable_of_iff (path.text = other.text) ⟨ext, congrArg text⟩

def root : AgentPath := ⟨"/root".toList, by decide⟩

def isRoot (path : AgentPath) : Bool := path.text = root.text

def fromString (path : Text) : Except String AgentPath :=
  match valid : validateAbsolutePath path with
  | .error message => .error message
  | .ok () => .ok ⟨path, valid⟩

def join (path : AgentPath) (agentName : Text) : Except String AgentPath :=
  match validateAgentName agentName with
  | .error message => .error message
  | .ok () => fromString (path.text ++ ['/'] ++ agentName)

theorem head?_text (path : AgentPath) : path.text.head? = some '/' := by
  have valid := path.valid
  unfold validateAbsolutePath at valid
  cases stripped : path.text.stripPrefix ['/'] with
  | none => simp [stripped] at valid
  | some rest => rw [Text.stripPrefix_eq_some_iff.mp stripped]; rfl

theorem text_of_fromString {text : Text} {path : AgentPath} (parsed : fromString text = .ok path) :
    path.text = text := by
  unfold fromString at parsed
  split at parsed
  · cases parsed
  · cases parsed
    rfl

/-- A path below another one is not the root. -/
theorem isRoot_of_join {parent path : AgentPath} {agentName : Text}
    (joined : parent.join agentName = .ok path) : path.isRoot = false := by
  unfold join at joined
  split at joined
  · cases joined
  · obtain ⟨rest, text⟩ := List.head?_eq_some_iff.mp parent.head?_text
    refine decide_eq_false fun same => ?_
    rw [text_of_fromString joined, text] at same
    -- The root has no second slash.
    have below : rest ++ ['/'] ++ agentName = "root".toList := List.tail_eq_of_cons_eq same
    have slash : '/' ∈ "root".toList := by
      rw [← below]
      simp
    revert slash
    decide

end AgentPath

/-! ## Agents -/

/-- What is known of an agent. -/
structure AgentMetadata where
  agentId : Option Text
  agentPath : Option AgentPath
  agentNickname : Option Text
  agentRole : Option Text
  lastTaskMessage : Option Text

namespace AgentMetadata

/-- The entry of a path that is reserved. -/
def placeholder (path : AgentPath) : AgentMetadata :=
  { agentId := none, agentPath := some path, agentNickname := none, agentRole := none,
    lastTaskMessage := none }

def isRoot (metadata : AgentMetadata) : Bool := metadata.agentPath.any (·.isRoot)

end AgentMetadata

/-- The key of an agent without a path. -/
def threadKey (threadId : Text) : Text := "thread:".toList ++ threadId

def formatAgentNickname (name : Text) (nicknameResetCount : ℕ) : Text :=
  if nicknameResetCount = 0 then name
  else
    let value := nicknameResetCount + 1
    let suffix :=
      if 11 ≤ value % 100 ∧ value % 100 ≤ 13 then "th"
      else if value % 10 = 1 then "st"
      else if value % 10 = 2 then "nd"
      else if value % 10 = 3 then "rd"
      else "th"
    name ++ " the ".toList ++ (toString value).toList ++ suffix.toList

/-! ## The registry -/

/-- The counter, and the agents and nicknames behind the lock. -/
structure AgentRegistry where
  agentTree : Table Text AgentMetadata
  usedAgentNicknames : List Text
  nicknameResetCount : ℕ
  totalCount : ℕ

def usizeMax : ℕ := 18446744073709551615

/-- `fetch_sub` on a `usize`, which wraps below zero. -/
def fetchSub (count : ℕ) : ℕ := if count = 0 then usizeMax else count - 1

namespace AgentRegistry

def empty : AgentRegistry :=
  { agentTree := ∅, usedAgentNicknames := [], nicknameResetCount := 0, totalCount := 0 }

def registerRootThread (registry : AgentRegistry) (threadId : Text) : AgentRegistry :=
  let root := { AgentMetadata.placeholder .root with agentId := some threadId }
  if (registry.agentTree.lookup AgentPath.root.text).isSome then registry
  else { registry with agentTree := registry.agentTree.insert AgentPath.root.text root }

/-- `register_spawned_thread`. -/
def registerSpawnedThread (registry : AgentRegistry) (metadata : AgentMetadata) : AgentRegistry :=
  match metadata.agentId with
  | none => registry
  | some threadId =>
      let key := metadata.agentPath.elim (threadKey threadId) AgentPath.text
      { registry with
        usedAgentNicknames := metadata.agentNickname.toList ++ registry.usedAgentNicknames
        agentTree := registry.agentTree.insert key metadata }

/-- The nickname that is reserved; `choice` picks among those that are available. -/
def reserveAgentNickname (registry : AgentRegistry) (names : List Text) (preferred : Option Text)
    (choice : ℕ) : Option (Text × AgentRegistry) :=
  let use (registry : AgentRegistry) (nickname : Text) : Text × AgentRegistry :=
    (nickname, { registry with usedAgentNicknames := nickname :: registry.usedAgentNicknames })
  match preferred with
  | some preferred => some (use registry preferred)
  | none =>
      let available := (names.map fun name =>
        formatAgentNickname name registry.nicknameResetCount).filter
          (!registry.usedAgentNicknames.contains ·)
      match available[choice % available.length]?, names[choice % names.length]? with
      | some nickname, _ => some (use registry nickname)
      | none, some name =>
          let reset := registry.nicknameResetCount + 1
          let cleared := { registry with usedAgentNicknames := [], nicknameResetCount := reset }
          some (use cleared (formatAgentNickname name reset))
      | none, none => none

/-- `none` when the path exists. -/
def reserveAgentPath (registry : AgentRegistry) (path : AgentPath) : Option AgentRegistry :=
  if (registry.agentTree.lookup path.text).isSome then none
  else some { registry with agentTree := registry.agentTree.insert path.text (.placeholder path) }

def releaseReservedAgentPath (registry : AgentRegistry) (path : AgentPath) : AgentRegistry :=
  if (registry.agentTree.lookup path.text).any (·.agentId.isNone) then
    { registry with agentTree := registry.agentTree.erase path.text }
  else registry

section Frame

variable {registry after : AgentRegistry}

@[simp]
theorem totalCount_registerRootThread (threadId : Text) :
    (registry.registerRootThread threadId).totalCount = registry.totalCount := by
  unfold registerRootThread
  dsimp only
  split <;> rfl

@[simp]
theorem totalCount_registerSpawnedThread (metadata : AgentMetadata) :
    (registry.registerSpawnedThread metadata).totalCount = registry.totalCount := by
  unfold registerSpawnedThread
  split <;> rfl

@[simp]
theorem totalCount_releaseReservedAgentPath (path : AgentPath) :
    (registry.releaseReservedAgentPath path).totalCount = registry.totalCount := by
  unfold releaseReservedAgentPath
  split <;> rfl

theorem totalCount_of_reserveAgentPath {path : AgentPath}
    (reserved : registry.reserveAgentPath path = some after) :
    after.totalCount = registry.totalCount := by
  obtain ⟨_, ⟨⟩⟩ := Option.ite_none_left_eq_some.mp reserved
  rfl

/-- A nickname changes neither the agents nor the counter. -/
theorem of_reserveAgentNickname {names : List Text} {preferred : Option Text} {choice : ℕ}
    {nickname : Text}
    (reserved : registry.reserveAgentNickname names preferred choice = some (nickname, after)) :
    after.agentTree = registry.agentTree ∧ after.totalCount = registry.totalCount := by
  unfold reserveAgentNickname at reserved
  dsimp only at reserved
  split at reserved
  · cases reserved
    exact ⟨rfl, rfl⟩
  · split at reserved <;> cases reserved <;> exact ⟨rfl, rfl⟩

end Frame

end AgentRegistry

/-! ## Reservations in flight -/

/-- What a spawn holds until it commits. -/
structure SpawnReservation where
  reservedAgentNickname : Option Text
  reservedAgentPath : Option AgentPath

/-- The registry, the loops of `try_increment_spawned` with the count they read last, the
reservations that are alive, and how many drops and releases still have to decrement the counter. -/
structure System where
  registry : AgentRegistry
  increments : Table ℕ (ℕ × ℕ)
  reservations : Table ℕ SpawnReservation
  dropping : ℕ
  releasing : ℕ

/-- Nothing has been spawned. -/
def System.initial : System :=
  { registry := .empty, increments := ∅, reservations := ∅, dropping := 0, releasing := 0 }

/-- The calls that hold a reservation or try to get one are told apart by numbers. -/
inductive Event where
  | load (call maxThreads : ℕ)
  | compareExchange (call : ℕ) (spurious : Bool)
  | fetchAdd (call : ℕ)
  | reserveAgentPath (call : ℕ) (parent : AgentPath) (agentName : Text)
  | reserveAgentNickname (call : ℕ) (names : List Text) (preferred : Option Text) (choice : ℕ)
  | commit (call : ℕ) (metadata : AgentMetadata)
  | drop (call : ℕ)
  | dropCount
  | releaseSpawnedThread (threadId : Text) (key : Option Text)
  | releaseCount
  | registerRootThread (threadId : Text)

/-- The thread is registered. -/
def System.isRegistered (system : System) (threadId : Text) : Bool :=
  system.registry.agentTree.entries.any fun entry => entry.2.agentId = some threadId

def System.isFresh (system : System) (call : ℕ) : Bool :=
  (system.increments.lookup call).isNone && (system.reservations.lookup call).isNone

/-- A new reservation holds nothing but its slot. -/
def System.reserve (system : System) (call : ℕ) : System :=
  { system with
    registry := { system.registry with totalCount := system.registry.totalCount + 1 }
    increments := system.increments.erase call
    reservations := system.reservations.insert call ⟨none, none⟩ }

/-- Take a step; `none` when it is not enabled. -/
def step (system : System) : Event → Option System
  | .load call maxThreads =>
      if !system.isFresh call then none
      else if maxThreads ≤ system.registry.totalCount then some system
      else some { system with
        increments := system.increments.insert call (system.registry.totalCount, maxThreads) }
  | .compareExchange call spurious => do
      let (current, maxThreads) ← system.increments.lookup call
      if system.registry.totalCount = current && !spurious then some (system.reserve call)
      else if maxThreads ≤ system.registry.totalCount then
        some { system with increments := system.increments.erase call }
      else some { system with
        increments := system.increments.insert call (system.registry.totalCount, maxThreads) }
  | .fetchAdd call => if system.isFresh call then some (system.reserve call) else none
  | .reserveAgentPath call parent agentName => do
      let reservation ← system.reservations.lookup call
      match reservation.reservedAgentPath, parent.join agentName with
      | none, .ok path =>
          match system.registry.reserveAgentPath path with
          | none => some system
          | some registry => some { system with
              registry
              reservations := system.reservations.insert call
                { reservation with reservedAgentPath := some path } }
      | _, _ => none
  | .reserveAgentNickname call names preferred choice => do
      let reservation ← system.reservations.lookup call
      match system.registry.reserveAgentNickname names preferred choice with
      | none => some system
      | some (nickname, registry) => some { system with
          registry
          reservations := system.reservations.insert call
            { reservation with reservedAgentNickname := some nickname } }
  | .commit call metadata => do
      let reservation ← system.reservations.lookup call
      let threadId ← metadata.agentId
      if metadata.agentPath = reservation.reservedAgentPath && !system.isRegistered threadId then
        some { system with
          registry := system.registry.registerSpawnedThread metadata
          reservations := system.reservations.erase call }
      else none
  | .drop call => do
      let reservation ← system.reservations.lookup call
      some { system with
        registry := reservation.reservedAgentPath.elim system.registry
          system.registry.releaseReservedAgentPath
        reservations := system.reservations.erase call
        dropping := system.dropping + 1 }
  | .dropCount =>
      if system.dropping = 0 then none
      else some { system with
        registry := { system.registry with totalCount := fetchSub system.registry.totalCount }
        dropping := system.dropping - 1 }
  | .releaseSpawnedThread threadId none =>
      if system.isRegistered threadId then none else some system
  | .releaseSpawnedThread threadId (some key) => do
      let metadata ← system.registry.agentTree.lookup key
      if metadata.agentId = some threadId then
        some { system with
          registry := { system.registry with agentTree := system.registry.agentTree.erase key }
          releasing := if metadata.isRoot then system.releasing else system.releasing + 1 }
      else none
  | .releaseCount =>
      if system.releasing = 0 then none
      else some { system with
        registry := { system.registry with totalCount := fetchSub system.registry.totalCount }
        releasing := system.releasing - 1 }
  | .registerRootThread threadId =>
      some { system with registry := system.registry.registerRootThread threadId }

/-! ## Reservations and the table of agents -/

/-- The key under which metadata are stored. -/
def keyOf (metadata : AgentMetadata) : Option Text :=
  match metadata.agentPath with
  | some path => some path.text
  | none => metadata.agentId.map threadKey

theorem threadKey_ne_text {threadId : Text} (path : AgentPath) :
    threadKey threadId ≠ path.text := by
  intro same
  have slash := path.head?_text
  rw [← same] at slash
  cases slash

theorem keyOf_of_identified {metadata : AgentMetadata} {threadId : Text}
    (identified : metadata.agentId = some threadId) :
    keyOf metadata = some (metadata.agentPath.elim (threadKey threadId) AgentPath.text) := by
  unfold keyOf
  cases metadata.agentPath with
  | none => simp [identified]
  | some path => rfl

/-- The reservation of a call holds a path. -/
def Reserves (reservations : Table ℕ SpawnReservation) (call : ℕ) (path : AgentPath) : Prop :=
  ∃ reservation, reservations.lookup call = some reservation ∧
    reservation.reservedAgentPath = some path

/-- Reserved paths and the entries without an agent belong to each other. -/
structure Consistent (tree : Table Text AgentMetadata) (reservations : Table ℕ SpawnReservation) :
    Prop where
  keyed : ∀ key metadata, tree.lookup key = some metadata → keyOf metadata = some key
  held : ∀ call path, Reserves reservations call path →
    tree.lookup path.text = some (.placeholder path)
  exclusive : ∀ call other path, Reserves reservations call path →
    Reserves reservations other path →
    call = other
  nonRoot : ∀ call path, Reserves reservations call path → path.isRoot = false
  kept : ∀ key metadata, tree.lookup key = some metadata → metadata.agentId = none →
    ∃ call path, Reserves reservations call path ∧ key = path.text

section Reserves

variable {reservations : Table ℕ SpawnReservation} {call other : ℕ} {path : AgentPath}
  {reservation : SpawnReservation}

theorem reserves_insert :
    Reserves (reservations.insert call reservation) other path ↔
      (other = call ∧ reservation.reservedAgentPath = some path) ∨
        (other ≠ call ∧ Reserves reservations other path) := by
  unfold Reserves
  obtain rfl | apart := eq_or_ne other call
  · simp [AList.lookup_insert]
  · simp [AList.lookup_insert_ne apart, apart]

theorem reserves_erase :
    Reserves (reservations.erase call) other path ↔ other ≠ call ∧
      Reserves reservations other path := by
  unfold Reserves
  obtain rfl | apart := eq_or_ne other call
  · simp [AList.lookup_erase]
  · simp [AList.lookup_erase_ne apart, apart]

/-- Writing a reservation with the same path changes nothing. -/
theorem reserves_insert_of_same
    (same : ∀ path, Reserves reservations call path ↔ reservation.reservedAgentPath = some path) :
    Reserves (reservations.insert call reservation) other path ↔
      Reserves reservations other path := by
  rw [reserves_insert]
  obtain rfl | apart := eq_or_ne other call
  · simp [same]
  · simp [apart]

end Reserves

namespace Consistent

variable {tree : Table Text AgentMetadata} {reservations after : Table ℕ SpawnReservation}
  {call : ℕ} {path : AgentPath} {key : Text} {metadata : AgentMetadata}
  {reservation : SpawnReservation}

theorem empty : Consistent ∅ ∅ where
  keyed := nofun
  held := nofun
  exclusive := nofun
  nonRoot := nofun
  kept := nofun

/-- Only the paths of the reservations matter. -/
theorem congr (consistent : Consistent tree reservations)
    (same : ∀ call path, Reserves after call path ↔ Reserves reservations call path) :
    Consistent tree after where
  keyed := consistent.keyed
  held := fun call path reserves => consistent.held call path ((same call path).mp reserves)
  exclusive := fun call other path reserves reserves' =>
    consistent.exclusive call other path ((same call path).mp reserves)
      ((same other path).mp reserves')
  nonRoot := fun call path reserves => consistent.nonRoot call path ((same call path).mp reserves)
  kept := by
    intro key metadata found unregistered
    obtain ⟨call, path, reserves, isKey⟩ := consistent.kept key metadata found unregistered
    exact ⟨call, path, (same call path).mpr reserves, isKey⟩

theorem reserve (consistent : Consistent tree reservations)
    (fresh : reservations.lookup call = none) :
    Consistent tree (reservations.insert call ⟨none, none⟩) := by
  refine consistent.congr fun other path => reserves_insert_of_same fun path => ?_
  simp [Reserves, fresh]

theorem reserveNickname (consistent : Consistent tree reservations)
    (found : reservations.lookup call = some reservation) (nickname : Option Text) :
    Consistent tree
      (reservations.insert call { reservation with reservedAgentNickname := nickname }) := by
  refine consistent.congr fun other path => reserves_insert_of_same fun path => ?_
  simp [Reserves, found]

theorem reservePath (consistent : Consistent tree reservations)
    (found : reservations.lookup call = some reservation)
    (without : reservation.reservedAgentPath = none) (vacant : tree.lookup path.text = none)
    (below : path.isRoot = false) :
    Consistent (tree.insert path.text (.placeholder path))
      (reservations.insert call { reservation with reservedAgentPath := some path }) := by
  have none : ∀ other, ¬ Reserves reservations call other := by
    rintro other ⟨_, found', reserved⟩
    cases found.symm.trans found'
    cases without.symm.trans reserved
  have reserves : ∀ other path', Reserves (reservations.insert call
      { reservation with reservedAgentPath := some path }) other path' ↔
        (other = call ∧ path = path') ∨ Reserves reservations other path' := by
    intro other path'
    rw [reserves_insert, Option.some.injEq]
    refine or_congr_right ⟨And.right, fun reserves => ⟨?_, reserves⟩⟩
    rintro rfl
    exact none path' reserves
  -- No reservation held the path before.
  have free : ∀ other, ¬ Reserves reservations other path := by
    intro other reserves
    cases vacant.symm.trans (consistent.held other path reserves)
  refine ⟨?_, ?_, ?_, ?_, ?_⟩
  · intro key metadata stored
    obtain rfl | apart := eq_or_ne key path.text
    · rw [AList.lookup_insert] at stored
      cases stored
      rfl
    · rw [AList.lookup_insert_ne apart] at stored
      exact consistent.keyed key metadata stored
  · intro other path' reserved
    obtain ⟨rfl, rfl⟩ | earlier := (reserves other path').mp reserved
    · exact AList.lookup_insert _
    · have apart : path'.text ≠ path.text := by
        intro same
        exact free other (AgentPath.ext same ▸ earlier)
      rw [AList.lookup_insert_ne apart]
      exact consistent.held other path' earlier
  · intro first second path' reserved reserved'
    obtain ⟨rfl, rfl⟩ | earlier := (reserves first path').mp reserved
    · obtain ⟨rfl, _⟩ | earlier := (reserves second path).mp reserved'
      · rfl
      · exact absurd earlier (free second)
    · obtain ⟨rfl, rfl⟩ | earlier' := (reserves second path').mp reserved'
      · exact absurd earlier (free first)
      · exact consistent.exclusive first second path' earlier earlier'
  · intro other path' reserved
    obtain ⟨_, rfl⟩ | earlier := (reserves other path').mp reserved
    · exact below
    · exact consistent.nonRoot other path' earlier
  · intro key metadata stored unregistered
    obtain rfl | apart := eq_or_ne key path.text
    · exact ⟨call, path, (reserves call path).mpr (.inl ⟨rfl, rfl⟩), rfl⟩
    · rw [AList.lookup_insert_ne apart] at stored
      obtain ⟨other, path', earlier, isKey⟩ := consistent.kept key metadata stored unregistered
      exact ⟨other, path', (reserves other path').mpr (.inr earlier), isKey⟩

/-- The entry of one key becomes an agent or goes, and with it the reservations that hold it. -/
theorem change {changed : Table Text AgentMetadata} (consistent : Consistent tree reservations)
    (others : ∀ other, other ≠ key → changed.lookup other = tree.lookup other)
    (own : ∀ metadata, changed.lookup key = some metadata →
      keyOf metadata = some key ∧ metadata.agentId ≠ none) (fewer : ∀ call path,
      Reserves after call path ↔ Reserves reservations call path ∧ path.text ≠ key) :
    Consistent changed after where
  keyed := by
    intro other metadata stored
    obtain rfl | apart := eq_or_ne other key
    · exact (own metadata stored).1
    · exact consistent.keyed other metadata (others other apart ▸ stored)
  held := by
    intro call path reserved
    obtain ⟨earlier, apart⟩ := (fewer call path).mp reserved
    rw [others path.text apart]
    exact consistent.held call path earlier
  exclusive := fun call other path reserved reserved' =>
    consistent.exclusive call other path ((fewer call path).mp reserved).1
      ((fewer other path).mp reserved').1
  nonRoot := fun call path reserved => consistent.nonRoot call path
    ((fewer call path).mp reserved).1
  kept := by
    intro other metadata stored unregistered
    obtain rfl | apart := eq_or_ne other key
    · exact absurd unregistered (own metadata stored).2
    · rw [others other apart] at stored
      obtain ⟨call, path, earlier, rfl⟩ := consistent.kept other metadata stored unregistered
      exact ⟨call, path, (fewer call path).mpr ⟨earlier, apart⟩, rfl⟩

/-- The reservations but those of a path are the reservations but that of the call that holds it. -/
theorem reserves_erase_iff (consistent : Consistent tree reservations)
    (ours : Reserves reservations call path) (other : ℕ) (path' : AgentPath) :
    Reserves (reservations.erase call) other path' ↔
      Reserves reservations other path' ∧ path'.text ≠ path.text := by
  rw [reserves_erase]
  refine ⟨fun ⟨apart, earlier⟩ => ⟨earlier, fun same => ?_⟩, fun ⟨earlier, apart⟩ => ⟨?_, earlier⟩⟩
  · cases AgentPath.ext same
    exact apart (consistent.exclusive other call path earlier ours)
  · rintro rfl
    obtain ⟨reservation, found, holds⟩ := ours
    obtain ⟨reservation', found', holds'⟩ := earlier
    cases found.symm.trans found'
    cases holds.symm.trans holds'
    exact apart rfl

end Consistent

end CodexPilot.Agent
