import CodexPilot.AbsolutePath
import CodexPilot.Config.Toml

/-!
# Config layers

A stack holds its layers from the lowest precedence to the highest.  The effective config merges the
enabled layers; the origins record, for every path of a scalar of an enabled layer, the metadata of
the layer.
-/

namespace CodexPilot.Config

open RustStd

/-- `ConfigLayerSource`. -/
inductive ConfigLayerSource
  | mdm (domain key : Text)
  | system (file : AbsolutePathBuf)
  | user (file : AbsolutePathBuf)
  | project (dotCodexFolder : AbsolutePathBuf)
  | sessionFlags
  | legacyManagedConfigTomlFromFile (file : AbsolutePathBuf)
  | legacyManagedConfigTomlFromMdm
  deriving DecidableEq

/-- `ConfigLayerMetadata`. -/
structure ConfigLayerMetadata where
  name : ConfigLayerSource
  version : Text
  deriving DecidableEq

/-- `ConfigLayerEntry`. -/
structure ConfigLayerEntry (α : Type*) where
  name : ConfigLayerSource
  config : TomlValue α
  version : Text
  disabledReason : Option Text

namespace ConfigLayerEntry

variable {α : Type*}

/-- `is_disabled`. -/
def isDisabled (layer : ConfigLayerEntry α) : Bool := layer.disabledReason.isSome

/-- `metadata`. -/
def metadata (layer : ConfigLayerEntry α) : ConfigLayerMetadata where
  name := layer.name
  version := layer.version

end ConfigLayerEntry

/-- `ConfigLayerStackOrdering`. -/
inductive ConfigLayerStackOrdering
  | lowestPrecedenceFirst
  | highestPrecedenceFirst
  deriving DecidableEq

/-- `ConfigLayerStack`: later layers override earlier ones. -/
structure ConfigLayerStack (α : Type*) where
  layers : List (ConfigLayerEntry α)

/-- The name of a path: `path.join(".")`. -/
def dotted (path : List Text) : Text := Text.join ['.'] path

variable {α μ : Type*}

/-- `record_origins`: every scalar records where it comes from. -/
def recordOrigins (metadata : μ) :
    TomlValue α → List Text → (Text → Option μ) → Text → Option μ
  | .table keys entries, path, origins =>
      (Table.sortedKeys keys).foldl
        (fun origins key => recordOrigins metadata (entries key) (path ++ [key.1]) origins) origins
  | .array length items, path, origins =>
      (List.finRange length).foldl
        (fun origins index =>
          recordOrigins metadata (items index) (path ++ [TomlValue.indexName index]) origins)
        origins
  | .scalar _, path, origins =>
      if path = [] then origins else Function.update origins (dotted path) (some metadata)

namespace ConfigLayerStack

/-- `get_layers`. -/
def getLayers (stack : ConfigLayerStack α) (ordering : ConfigLayerStackOrdering)
    (includeDisabled : Bool) : List (ConfigLayerEntry α) :=
  let layers := stack.layers.filter fun layer => includeDisabled || !layer.isDisabled
  match ordering with
  | .lowestPrecedenceFirst => layers
  | .highestPrecedenceFirst => layers.reverse

/-- `effective_config`. -/
def effectiveConfig (stack : ConfigLayerStack α) : TomlValue α :=
  (stack.getLayers .lowestPrecedenceFirst false).foldl
    (fun merged layer => merged.mergeTomlValues layer.config)
    (.table Table.empty.keys Table.empty.entries)

/-- `origins`. -/
def origins (stack : ConfigLayerStack α) : Text → Option ConfigLayerMetadata :=
  (stack.getLayers .lowestPrecedenceFirst false).foldl
    (fun origins layer => recordOrigins layer.metadata layer.config [] origins) fun _ => none

end ConfigLayerStack

end CodexPilot.Config
