/-
Module: LightClient.Settings
Purpose: The settings of the whole client: one table with a key for each part.
Main exports: Settings, Settings.merge, Settings.validate, ClientSettings
-/
import LightClient.Settings.Modules

namespace LightClient

/-- Settings as they are written, one value for each key. -/
structure Settings where
  fields : List (String × Settings.Value)

namespace Settings

/-- No settings at all; every part has its defaults. -/
def empty : Settings :=
  ⟨[]⟩

def insert (s : Settings) (key : String) (value : Value) : Settings :=
  ⟨s.fields.filter (fun f => f.1 != key) ++ [(key, value)]⟩

/-- Sets every key of a table; what is no table is refused. -/
def merge (s : Settings) (value : Value) : Except SettingsFault Settings :=
  match value with
  | .table fields => .ok (fields.foldl (fun s f => s.insert f.1 f.2) s)
  | _ => .error .notTable

/-- Settings read from a value, which has to be a table. -/
def ofValue (value : Value) : Except SettingsFault Settings :=
  match value with
  | .table _ => empty.merge value
  | _ => .error .undecodable

/-- Reads the settings of one part. -/
def read {α : Type} (s : Settings) (key : String) (ofValue? : Value → Option α) (default : α) :
    Except SettingsFault α :=
  match s.fields.lookup key with
  | none => .ok default
  | some v =>
    match ofValue? v with
    | some a => .ok a
    | none => .error .undecodable

def registry (s : Settings) : Except SettingsFault RegistrySettings :=
  s.read "memPeerRegistry" RegistrySettings.ofValue? RegistrySettings.default

def pool (s : Settings) : Except SettingsFault PoolSettings :=
  s.read "coreServerPool" PoolSettings.ofValue? PoolSettings.default

def store (s : Settings) : Except SettingsFault StoreSettings :=
  s.read "memItemStore" StoreSettings.ofValue? StoreSettings.default

def retrieval (s : Settings) : Except SettingsFault RetrievalSettings :=
  s.read "coreOdr" RetrievalSettings.ofValue? RetrievalSettings.default

def validateRegistry (s : Settings) : Except SettingsFault Unit :=
  s.registry >>= RegistrySettings.validate

def validatePool (s : Settings) : Except SettingsFault Unit :=
  s.pool >>= PoolSettings.validate

def validateStore (s : Settings) : Except SettingsFault Unit :=
  s.store >>= StoreSettings.validate

def validateRetrieval (s : Settings) : Except SettingsFault Unit :=
  s.retrieval >>= RetrievalSettings.validate

/-- Checks all settings; the first part that is refused decides. -/
def validate (s : Settings) : Except SettingsFault Unit := do
  s.validateRegistry
  s.validatePool
  s.validateStore
  s.validateRetrieval

def defaults : Settings :=
  ⟨[("memPeerRegistry", RegistrySettings.default.toValue),
    ("coreServerPool", PoolSettings.default.toValue),
    ("memItemStore", StoreSettings.default.toValue),
    ("coreOdr", RetrievalSettings.default.toValue)]⟩

/-- Sets every key of the default settings. -/
def mergeDefaults (s : Settings) : Settings :=
  defaults.fields.foldl (fun s f => s.insert f.1 f.2) s

end Settings

/-- The settings of all parts of a client. -/
structure ClientSettings where
  registry : RegistrySettings
  pool : PoolSettings
  store : StoreSettings
  retrieval : RetrievalSettings

/-- Reads the settings of all parts, if none of them is refused. -/
def Settings.client (s : Settings) : Except SettingsFault ClientSettings := do
  s.validate
  let registry ← s.registry
  let pool ← s.pool
  let store ← s.store
  let retrieval ← s.retrieval
  .ok ⟨registry, pool, store, retrieval⟩

end LightClient
