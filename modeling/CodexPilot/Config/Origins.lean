import CodexPilot.Config.Layers

/-!
# What the origins say of the effective config

Origins are recorded layer by layer and never removed, while a layer may replace a whole array, or a
table by something else.  They describe the effective config exactly when no layer replaces what is
on the way to a scalar of a lower layer, unless it or a layer above it has a scalar at the same path
again.
-/

namespace CodexPilot.Config

open RustStd Overlays

variable {α μ : Type*}

/-- No key contains a dot. -/
def TomlValue.Dotless : TomlValue α → Prop
  | .scalar _ => True
  | .array length items => ∀ index : Fin length, (items index).Dotless
  | .table keys entries => ∀ key : { key // key ∈ keys }, '.' ∉ key.1 ∧ (entries key).Dotless

/-- A layer's config, with its metadata at every scalar. -/
def ConfigLayerEntry.traced (layer : ConfigLayerEntry α) : TomlValue (α × ConfigLayerMetadata) :=
  layer.config.map fun value => (value, layer.metadata)

namespace ConfigLayerStack

/-- The enabled layers, from the lowest precedence to the highest. -/
def enabled (stack : ConfigLayerStack α) : List (ConfigLayerEntry α) :=
  stack.getLayers .lowestPrecedenceFirst false

/-- No key of an enabled layer contains a dot. -/
def Dotless (stack : ConfigLayerStack α) : Prop := ∀ layer ∈ stack.enabled, layer.config.Dotless

/-- The effective config, in which every scalar carries the metadata of the layer it is from. -/
def traced (stack : ConfigLayerStack α) : TomlValue (α × ConfigLayerMetadata) :=
  stack.enabled.foldl (fun merged layer => merged.mergeTomlValues layer.traced)
    (.table Table.empty.keys Table.empty.entries)

/-- The origins name the paths of the scalars of the effective config, and for each the layer that
its scalar is from. -/
structure OriginsDescribe (stack : ConfigLayerStack α) : Prop where
  names : ∀ name, stack.origins name ≠ none ↔
    ∃ path, path ≠ [] ∧ stack.effectiveConfig.leaf? path ≠ none ∧ dotted path = name
  suppliers : ∀ path value metadata, path ≠ [] → stack.traced.leaf? path = some (value, metadata) →
    stack.origins (dotted path) = some metadata

/-- Above the last enabled layer with a scalar at a path, no enabled layer replaces what is on the
way to it. -/
def KeepsScalars (stack : ConfigLayerStack α) : Prop :=
  ∀ path before layer after, path ≠ [] → stack.enabled = before ++ layer :: after →
    layer.config.leaf? path ≠ none → (∀ later ∈ after, later.config.leaf? path = none) →
      ∀ later ∈ after, ¬later.config.Hides layer.config path

end ConfigLayerStack

/-! ## Names of paths -/

section Names

variable {value : TomlValue α} {path : List Text} {name : Text}

theorem dot_notMem_indexName (index : ℕ) : '.' ∉ TomlValue.indexName index := by
  intro dot
  have digit := Nat.isDigit_of_mem_toDigits (by decide) (by decide) dot
  exact absurd digit (by decide)

theorem dot_notMem_of_leaf (dotless : value.Dotless) (found : value.leaf? path ≠ none) :
    ∀ piece ∈ path, '.' ∉ piece := by
  induction path generalizing value with
  | nil => simp
  | cons name path ih =>
      obtain ⟨scalar, found⟩ := Option.ne_none_iff_exists'.mp found
      rw [TomlValue.leaf_cons] at found
      obtain ⟨child, there, found⟩ := Option.bind_eq_some_iff.mp found
      have deeper : child.leaf? path ≠ none := by simp [found]
      rw [List.forall_mem_cons]
      cases value with
      | scalar value => cases there
      | array length items =>
          obtain ⟨index, rfl, rfl⟩ := TomlValue.child_array_eq_some_iff.mp there
          exact ⟨dot_notMem_indexName index, ih (dotless index) deeper⟩
      | table keys entries =>
          obtain ⟨present, rfl⟩ := Table.get_eq_some_iff.mp there
          obtain ⟨clean, dotless⟩ := dotless ⟨name, present⟩
          exact ⟨clean, ih dotless deeper⟩

theorem dotted_injective {other : List Text} (clean : ∀ piece ∈ path, '.' ∉ piece)
    (otherClean : ∀ piece ∈ other, '.' ∉ piece) (nonempty : path ≠ []) (otherNonempty : other ≠ [])
    (same : dotted path = dotted other) : path = other := by
  have split := congrArg (List.splitOn '.') same
  unfold dotted Text.join at split
  rwa [List.splitOn_intercalate '.' clean nonempty, List.splitOn_intercalate '.' otherClean
    otherNonempty] at split

/-- The value has a scalar whose path, below the given one, has the name. -/
def Names (value : TomlValue α) (path : List Text) (name : Text) : Prop :=
  ∃ rest, value.leaf? rest ≠ none ∧ path ++ rest ≠ [] ∧ dotted (path ++ rest) = name

theorem names_scalar {scalar : α} :
    Names (.scalar scalar) path name ↔ path ≠ [] ∧ dotted path = name := by
  constructor
  · rintro ⟨rest, found, named⟩
    cases rest with
    | nil => simpa using named
    | cons first rest => exact absurd rfl found
  · intro named
    exact ⟨[], nofun, by simpa using named⟩

theorem names_iff (bare : value.leaf? [] = none) :
    Names value path name ↔
      ∃ piece child, value.child piece = some child ∧ Names child (path ++ [piece]) name := by
  constructor
  · rintro ⟨rest, found, nonempty, named⟩
    cases rest with
    | nil => exact absurd bare found
    | cons piece rest =>
        obtain ⟨scalar, found⟩ := Option.ne_none_iff_exists'.mp found
        rw [TomlValue.leaf_cons] at found
        obtain ⟨child, there, found⟩ := Option.bind_eq_some_iff.mp found
        exact ⟨piece, child, there, rest, by simp [found], by simp, by simpa using named⟩
  · rintro ⟨piece, child, there, rest, found, -, named⟩
    refine ⟨piece :: rest, ?_, by simp, by simpa using named⟩
    rwa [TomlValue.leaf_cons, there]

theorem names_array {length : ℕ} {items : Fin length → TomlValue α} :
    Names (.array length items) path name ↔
      ∃ index, Names (items index) (path ++ [TomlValue.indexName index]) name := by
  rw [names_iff rfl]
  constructor
  · rintro ⟨piece, child, there, named⟩
    obtain ⟨index, rfl, rfl⟩ := TomlValue.child_array_eq_some_iff.mp there
    exact ⟨index, named⟩
  · rintro ⟨index, named⟩
    exact ⟨_, _, TomlValue.child_array index, named⟩

theorem names_table {keys : Finset Text} {entries : { key // key ∈ keys } → TomlValue α} :
    Names (.table keys entries) path name ↔ ∃ key, Names (entries key) (path ++ [key.1]) name := by
  rw [names_iff rfl]
  constructor
  · rintro ⟨piece, child, there, named⟩
    obtain ⟨present, rfl⟩ := Table.get_eq_some_iff.mp there
    exact ⟨⟨piece, present⟩, named⟩
  · rintro ⟨key, named⟩
    exact ⟨key.1, _, Table.get_eq_some_iff.mpr ⟨key.2, rfl⟩, named⟩

/-- A loop that records the same under every name records it under a name exactly when some item
does. -/
theorem foldl_record {κ : Type*} {metadata : μ} {named : κ → Prop}
    {record : (Text → Option μ) → κ → Text → Option μ}
    (records : ∀ origins item, named item → record origins item name = some metadata)
    (keeps : ∀ origins item, ¬named item → record origins item name = origins name) (items : List κ)
    (origins : Text → Option μ) :
    ((∃ item ∈ items, named item) → items.foldl record origins name = some metadata) ∧
      ((∀ item ∈ items, ¬named item) → items.foldl record origins name = origins name) := by
  induction items generalizing origins with
  | nil => simp
  | cons item items ih =>
      obtain ⟨later, silent⟩ := ih (record origins item)
      rw [List.exists_mem_cons_iff, List.forall_mem_cons, List.foldl_cons]
      refine ⟨fun some => ?_, fun ⟨own, rest⟩ => (silent rest).trans (keeps origins item own)⟩
      by_cases rest : ∃ item ∈ items, named item
      · exact later rest
      · have own := some.resolve_right rest
        exact (silent fun other member is => rest ⟨other, member, is⟩).trans
          (records origins item own)

/-- `record_origins` records the metadata under the names of the scalars, and nothing else. -/
theorem recordOrigins_spec (metadata : μ) (value : TomlValue α) (path : List Text)
    (origins : Text → Option μ) (name : Text) :
    (Names value path name → recordOrigins metadata value path origins name = some metadata) ∧
      (¬Names value path name → recordOrigins metadata value path origins name = origins name) := by
  induction value generalizing path origins with
  | scalar scalar =>
      rw [names_scalar, recordOrigins]
      split
      case isTrue bare => exact ⟨fun named => absurd bare named.1, fun _ => rfl⟩
      case isFalse nonempty =>
        constructor
        · rintro ⟨-, rfl⟩
          exact Function.update_self _ _ _
        · intro other
          exact Function.update_of_ne (fun same => other ⟨nonempty, same.symm⟩) _ _
  | array length items ih =>
      rw [names_array, recordOrigins]
      obtain ⟨recorded, kept⟩ := foldl_record
        (fun origins index => (ih index _ origins).1)
        (fun origins index => (ih index _ origins).2) (List.finRange length) origins
      refine ⟨fun ⟨index, named⟩ => recorded ⟨index, List.mem_finRange index, named⟩,
        fun other => ?_⟩
      exact kept fun index _ named => other ⟨index, named⟩
  | table keys entries ih =>
      rw [names_table, recordOrigins]
      obtain ⟨recorded, kept⟩ := foldl_record
        (fun origins key => (ih _ _ origins).1)
        (fun origins key => (ih _ _ origins).2)
        (Table.sortedKeys keys) origins
      exact ⟨fun ⟨key, named⟩ => recorded ⟨key, Table.mem_sortedKeys key, named⟩,
        fun other => kept fun key _ named => other ⟨key, named⟩⟩

end Names

section Layers

variable {layers : List (ConfigLayerEntry α)} {path : List Text}

/-- The origin of a path is the last layer with a scalar there. -/
theorem foldl_recordOrigins (dotless : ∀ layer ∈ layers, layer.config.Dotless)
    (nonempty : path ≠ []) (clean : ∀ piece ∈ path, '.' ∉ piece) :
    layers.foldl (fun origins layer => recordOrigins layer.metadata layer.config [] origins)
        (fun _ => none) (dotted path) =
      (TomlValue.overlay.recorded ConfigLayerEntry.traced layers path).map Prod.snd := by
  induction layers using List.reverseRecOn with
  | nil => rfl
  | append_singleton layers last ih =>
      obtain ⟨lower, own⟩ := List.forall_mem_append.mp dotless
      obtain ⟨recorded, kept⟩ := recordOrigins_spec last.metadata last.config []
        (layers.foldl (fun origins layer => recordOrigins layer.metadata layer.config [] origins)
          fun _ => none) (dotted path)
      have shown : TomlValue.overlay.shown last.traced path =
          (last.config.leaf? path).map fun value => (value, last.metadata) := TomlValue.leaf_map _
      rw [List.foldl_append, List.foldl_cons, List.foldl_nil, Overlay.recorded_concat, shown]
      cases found : last.config.leaf? path with
      | some value => exact recorded ⟨path, by simp [found], nonempty, rfl⟩
      | none =>
          refine (kept ?_).trans (ih lower)
          rintro ⟨rest, there, nonempty', named⟩
          have same := dotted_injective (dot_notMem_of_leaf (own last (by simp)) there)
            clean nonempty'
            nonempty named
          exact there (same ▸ found)

/-- A name that is the path of no scalar has no origin. -/
theorem exists_of_origin {name : Text}
    (found : layers.foldl (fun origins layer => recordOrigins layer.metadata layer.config
        [] origins) (fun _ => none) name ≠ none) :
    ∃ layer ∈ layers, ∃ path, path ≠ [] ∧ layer.config.leaf? path ≠ none ∧ dotted path = name := by
  induction layers using List.reverseRecOn with
  | nil => exact absurd rfl found
  | append_singleton layers last ih =>
      rw [List.foldl_append, List.foldl_cons, List.foldl_nil] at found
      by_cases named : Names last.config [] name
      · obtain ⟨path, there, nonempty, named⟩ := named
        exact ⟨last, by simp, path, nonempty, there, named⟩
      · rw [(recordOrigins_spec last.metadata last.config [] _ name).2 named] at found
        obtain ⟨layer, member, rest⟩ := ih found
        exact ⟨layer, List.mem_append_left _ member, rest⟩

theorem leaf_traced (layer : ConfigLayerEntry α) :
    layer.traced.leaf? path = (layer.config.leaf? path).map fun value => (value, layer.metadata) :=
  TomlValue.leaf_map _

/-- What is recorded with its metadata is recorded without. -/
theorem recorded_traced :
    TomlValue.overlay.recorded ConfigLayerEntry.config layers path =
      (TomlValue.overlay.recorded ConfigLayerEntry.traced layers path).map Prod.fst := by
  induction layers using List.reverseRecOn with
  | nil => rfl
  | append_singleton layers last ih =>
      have traced : TomlValue.overlay.shown last.traced path =
          (last.config.leaf? path).map fun value => (value, last.metadata) := leaf_traced last
      have plain : TomlValue.overlay.shown last.config path = last.config.leaf? path := rfl
      rw [Overlay.recorded_concat, Overlay.recorded_concat, traced, plain, ih]
      cases last.config.leaf? path <;> rfl

end Layers

namespace ConfigLayerStack

variable {stack : ConfigLayerStack α} {path : List Text}

theorem leaf_empty (path : List Text) :
    (TomlValue.table Table.empty.keys Table.empty.entries : TomlValue α).leaf? path = none := by
  cases path with
  | nil | cons name path => rfl

theorem keepsScalars_iff : stack.KeepsScalars ↔
    ∀ path, path ≠ [] → TomlValue.overlay.Kept ConfigLayerEntry.config stack.enabled path := by
  refine forall_congr' fun path => ⟨fun kept nonempty before layer after => ?_,
    fun kept before layer after => ?_⟩
  · exact kept before layer after nonempty
  · exact fun nonempty => kept nonempty before layer after

/-- The origin of the path of a scalar of an enabled layer. -/
theorem origins_dotted (dotless : stack.Dotless) (nonempty : path ≠ [])
    (clean : ∀ piece ∈ path, '.' ∉ piece) :
    stack.origins (dotted path) =
      (TomlValue.overlay.recorded ConfigLayerEntry.traced stack.enabled path).map Prod.snd :=
  foldl_recordOrigins dotless nonempty clean

theorem clean_of_recorded (dotless : stack.Dotless)
    (recorded : TomlValue.overlay.recorded ConfigLayerEntry.config stack.enabled path ≠ none) :
    ∀ piece ∈ path, '.' ∉ piece := by
  obtain ⟨before, layer, after, value, split, found, -⟩ :=
    TomlValue.overlay.exists_last ConfigLayerEntry.config recorded
  have member : layer ∈ stack.enabled := by simp [split]
  exact dot_notMem_of_leaf (dotless layer member)
    (by simp [show layer.config.leaf? path = _ from found])

/-- A path has an origin exactly when an enabled layer has a scalar there. -/
theorem origins_ne_none_iff (dotless : stack.Dotless) (nonempty : path ≠ [])
    (clean : ∀ piece ∈ path, '.' ∉ piece) :
    stack.origins (dotted path) ≠ none ↔
      TomlValue.overlay.recorded ConfigLayerEntry.config stack.enabled path ≠ none := by
  rw [origins_dotted dotless nonempty clean, recorded_traced]
  simp only [ne_eq, Option.map_eq_none_iff]

/-- A scalar of the effective config is one of an enabled layer. -/
theorem recorded_of_leaf (found : stack.effectiveConfig.leaf? path ≠ none) :
    TomlValue.overlay.recorded ConfigLayerEntry.config stack.enabled path ≠ none := by
  obtain ⟨value, found⟩ := Option.ne_none_iff_exists'.mp found
  have recorded : TomlValue.overlay.recorded ConfigLayerEntry.config stack.enabled path =
      some value :=
    TomlValue.overlay.recorded_of_shown ConfigLayerEntry.config (leaf_empty path) found
  rw [recorded]
  exact nofun

theorem suppliers (dotless : stack.Dotless) {value : α} {metadata : ConfigLayerMetadata}
    (nonempty : path ≠ []) (found : stack.traced.leaf? path = some (value, metadata)) :
    stack.origins (dotted path) = some metadata := by
  have recorded := TomlValue.overlay.recorded_of_shown ConfigLayerEntry.traced
    (leaf_empty path) found
  have clean : ∀ piece ∈ path, '.' ∉ piece :=
    clean_of_recorded dotless (by rw [recorded_traced, recorded]; exact nofun)
  rw [origins_dotted dotless nonempty clean, recorded]
  rfl

/-- The origins describe the effective config exactly when no layer hides the highest scalar at a
path. -/
theorem originsDescribe_iff (dotless : stack.Dotless) :
    stack.OriginsDescribe ↔ stack.KeepsScalars := by
  rw [keepsScalars_iff]
  constructor
  · intro describe path nonempty
    obtain ⟨kept, -⟩ | ⟨-, recorded, lost⟩ :=
      TomlValue.overlay.shown_stack_cases ConfigLayerEntry.config stack.enabled (leaf_empty path)
    · exact kept
    · have clean := clean_of_recorded dotless recorded
      have origin := (origins_ne_none_iff dotless nonempty clean).mpr recorded
      obtain ⟨other, otherNonempty, found, same⟩ := (describe.names (dotted path)).mp origin
      have otherClean := clean_of_recorded dotless (recorded_of_leaf found)
      obtain rfl := dotted_injective otherClean clean otherNonempty nonempty same
      exact absurd lost found
  · intro kept
    refine ⟨fun name => ⟨fun origin => ?_, ?_⟩, fun path value metadata => suppliers dotless⟩
    · obtain ⟨layer, member, path, nonempty, found, rfl⟩ := exists_of_origin origin
      have clean := dot_notMem_of_leaf (dotless layer member) found
      have shown := (TomlValue.overlay.shown_eq_recorded_iff ConfigLayerEntry.config
        (leaf_empty path)).mpr (kept path nonempty)
      have recorded := (origins_ne_none_iff dotless nonempty clean).mp origin
      exact ⟨path, nonempty, fun lost => recorded (shown.symm.trans lost), rfl⟩
    · rintro ⟨path, nonempty, found, rfl⟩
      have recorded := recorded_of_leaf found
      exact (origins_ne_none_iff dotless nonempty (clean_of_recorded dotless recorded)).mpr recorded

end ConfigLayerStack

/-- An enabled layer that sets `notify` alone. -/
def notifyLayer (name : ConfigLayerSource) (programs : List Text) : ConfigLayerEntry Text where
  name
  config :=
    .table {"notify".toList} fun _ =>
      .array programs.length fun index => .scalar (programs.get index)
  version := []
  disabledReason := none

/-- `notify` is set by the user and again by the session flags. -/
def notifyStack (user flags : List Text) : ConfigLayerStack Text where
  layers := [notifyLayer (.user .root) user, notifyLayer .sessionFlags flags]

theorem enabled_notifyStack (user flags : List Text) :
    (notifyStack user flags).enabled =
      [notifyLayer (.user .root) user, notifyLayer .sessionFlags flags] := rfl

theorem dotless_notifyStack (user flags : List Text) : (notifyStack user flags).Dotless := by
  have dotless : ∀ name programs, (notifyLayer name programs).config.Dotless := by
    rintro name programs ⟨key, member⟩
    obtain rfl := Finset.mem_singleton.mp member
    exact ⟨by decide +revert, fun _ => trivial⟩
  intro layer member
  rw [enabled_notifyStack, List.mem_pair] at member
  obtain rfl | rfl := member
  · exact dotless _ _
  · exact dotless _ _

/-- The origins describe a stack whose layers set the same paths. -/
theorem originsDescribe_of_same_length :
    (notifyStack ["say".toList] ["log".toList]).OriginsDescribe := by
  refine (ConfigLayerStack.originsDescribe_iff (dotless_notifyStack _ _)).mpr ?_
  intro path before layer after nonempty split found silent later member
  rw [enabled_notifyStack] at split
  obtain _ | ⟨first, _ | ⟨second, before⟩⟩ := before
  · obtain ⟨rfl, rfl⟩ := List.cons.inj split
    have same : (notifyLayer .sessionFlags ["log".toList]).config =
        (notifyLayer (.user .root) ["say".toList]).config.map fun _ => "log".toList := by
      refine congrArg (TomlValue.table _) (funext fun _ => ?_)
      refine congrArg (TomlValue.array 1) (funext fun index => ?_)
      obtain ⟨position, inside⟩ := index
      obtain rfl : position = 0 := Nat.lt_one_iff.mp inside
      rfl
    have silent := silent _ (List.mem_singleton_self _)
    rw [same, TomlValue.leaf_map, Option.map_eq_none_iff] at silent
    exact absurd silent found
  · obtain ⟨-, rest⟩ := List.cons.inj split
    obtain ⟨-, rfl⟩ := List.cons.inj rest
    cases member
  · obtain ⟨-, rest⟩ := List.cons.inj split
    obtain ⟨-, rest⟩ := List.cons.inj rest
    cases before <;> cases rest

/-- The session flags replace two entries by one: the entry that is lost keeps its origin. -/
theorem stale_origin_of_shorter :
    (notifyStack ["say".toList, "done".toList] ["log".toList]).Dotless ∧
      (notifyStack ["say".toList, "done".toList] ["log".toList]).origins "notify.1".toList =
        some ⟨.user .root, []⟩ ∧
      (notifyStack ["say".toList, "done".toList] ["log".toList]).effectiveConfig.leaf?
        ["notify".toList, "1".toList] = none ∧
      ¬(notifyStack ["say".toList, "done".toList] ["log".toList]).OriginsDescribe := by
  have dotless := dotless_notifyStack ["say".toList, "done".toList] ["log".toList]
  have origin : (notifyStack ["say".toList, "done".toList] ["log".toList]).origins
      "notify.1".toList =
      some ⟨.user .root, []⟩ := by
    decide +kernel
  have lost : (notifyStack ["say".toList, "done".toList] ["log".toList]).effectiveConfig.leaf?
      ["notify".toList, "1".toList] = none := by
    decide +kernel
  refine ⟨dotless, origin, lost, fun describe => ?_⟩
  obtain ⟨path, nonempty, found, same⟩ :=
    (describe.names "notify.1".toList).mp (by rw [origin]; exact nofun)
  have clean := ConfigLayerStack.clean_of_recorded dotless (ConfigLayerStack.recorded_of_leaf found)
  have there : path = ["notify".toList, "1".toList] :=
    dotted_injective clean (by decide) nonempty (by decide) (same.trans (by decide))
  exact found (there ▸ lost)

end CodexPilot.Config
