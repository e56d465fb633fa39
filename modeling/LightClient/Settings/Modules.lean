/-
Module: LightClient.Settings.Modules
Purpose: The settings of each part of the client, their defaults, and which of them are refused.
Main exports: RegistrySettings, PoolSettings, StoreSettings, RetrievalSettings, SettingsFault
-/
import LightClient.Decimal.Shortest
import LightClient.Settings.Value

namespace LightClient

open Settings (Value)

/-- Why settings are refused. -/
inductive SettingsFault where
  | undecodable
  | notTable
  | weight (name : String) (value : Float)
  | latencyReference
  | maxInvalidProofs
  | minScore (value : Float)
  | backOffOrder
  | maxConsecutiveFailures
  | capacity
  | requestTimeout
  | maxInFlight
  | sectionSize

namespace SettingsFault

def message : SettingsFault → String
  | undecodable => "decode"
  | notTable => "module config must serialize to a json object"
  | weight name value =>
    "memPeerRegistry." ++ name ++ " must be in (0, 1], got " ++ Decimal.positional value
  | latencyReference => "memPeerRegistry.latencyReferenceMs must be positive"
  | maxInvalidProofs => "memPeerRegistry.maxInvalidProofs must be positive"
  | minScore value =>
    "memPeerRegistry.minScore must be in [0, 1), got " ++ Decimal.positional value
  | backOffOrder =>
    "coreServerPool.firstBackOffIntervalMs must not exceed lastBackOffIntervalMs"
  | maxConsecutiveFailures => "coreServerPool.maxConsecutiveFailures must be positive"
  | capacity => "memItemStore.capacity must be positive"
  | requestTimeout => "coreOdr.requestTimeoutMs must be positive"
  | maxInFlight => "coreOdr.maxInFlightPerPeer must be positive"
  | sectionSize => "coreOdr section sizes must be positive"

end SettingsFault

/-- How peers are scored and when they are evicted. -/
structure RegistrySettings where
  /-- The weight of a new latency in the moving average. -/
  latencyWeight : Float
  /-- The weight of a new success or failure in the moving error rate. -/
  errorWeight : Float
  /-- The latency at which a peer without errors scores one half. -/
  latencyReferenceMs : UInt32
  /-- Peers with a lower score are evicted. -/
  minScore : Float
  /-- The outcomes it takes before a peer is evicted for its score. -/
  minSamples : UInt32
  /-- The invalid proofs it takes before a peer is evicted for them. -/
  maxInvalidProofs : UInt32

namespace RegistrySettings

/-- The settings in a file that says nothing about them. -/
def default : RegistrySettings :=
  ⟨0.2, 0.2, 1000, 0.1, 4, 3⟩

/-- The names of the settings in their order. -/
def names : List String :=
  ["latencyWeight", "errorWeight", "latencyReferenceMs", "minScore", "minSamples",
   "maxInvalidProofs"]

/-- Reads the settings; missing ones have their defaults. -/
def ofValue? (v : Value) : Option RegistrySettings := do
  let parts ← v.parts? names
  let latencyWeight ← Value.part? parts "latencyWeight" Value.real? default.latencyWeight
  let errorWeight ← Value.part? parts "errorWeight" Value.real? default.errorWeight
  let latencyReferenceMs ←
    Value.part? parts "latencyReferenceMs" Value.word32? default.latencyReferenceMs
  let minScore ← Value.part? parts "minScore" Value.real? default.minScore
  let minSamples ← Value.part? parts "minSamples" Value.word32? default.minSamples
  let maxInvalidProofs ←
    Value.part? parts "maxInvalidProofs" Value.word32? default.maxInvalidProofs
  some ⟨latencyWeight, errorWeight, latencyReferenceMs, minScore, minSamples, maxInvalidProofs⟩

def toValue (s : RegistrySettings) : Value :=
  .table [("latencyWeight", .real s.latencyWeight), ("errorWeight", .real s.errorWeight),
    ("latencyReferenceMs", .whole s.latencyReferenceMs.toNat), ("minScore", .real s.minScore),
    ("minSamples", .whole s.minSamples.toNat),
    ("maxInvalidProofs", .whole s.maxInvalidProofs.toNat)]

/-- A weight is above zero and at most one. -/
def isWeight (w : Float) : Bool :=
  0.0 < w && w <= 1.0

def validate (s : RegistrySettings) : Except SettingsFault Unit :=
  if !isWeight s.latencyWeight then .error (.weight "latencyWeight" s.latencyWeight)
  else if !isWeight s.errorWeight then .error (.weight "errorWeight" s.errorWeight)
  else if s.latencyReferenceMs = 0 then .error .latencyReference
  else if s.maxInvalidProofs = 0 then .error .maxInvalidProofs
  else if !(0.0 <= s.minScore && s.minScore < 1.0) then .error (.minScore s.minScore)
  else .ok ()

end RegistrySettings

/-- How addresses of peers are retried. -/
structure PoolSettings where
  /-- The first interval an address is left alone for. -/
  firstBackOffMs : UInt32
  /-- The longest interval. -/
  lastBackOffMs : UInt32
  /-- How many intervals there are before the last one repeats. -/
  backOffIntervals : UInt64
  /-- The failures in a row after which an address is forgotten. -/
  maxConsecutiveFailures : UInt32
  deriving Repr, DecidableEq

namespace PoolSettings

def default : PoolSettings :=
  ⟨5000, 600000, 8, 12⟩

def names : List String :=
  ["firstBackOffIntervalMs", "lastBackOffIntervalMs", "numBackOffIntervals",
   "maxConsecutiveFailures"]

def ofValue? (v : Value) : Option PoolSettings := do
  let parts ← v.parts? names
  let first ← Value.part? parts "firstBackOffIntervalMs" Value.word32? default.firstBackOffMs
  let last ← Value.part? parts "lastBackOffIntervalMs" Value.word32? default.lastBackOffMs
  let count ← Value.part? parts "numBackOffIntervals" Value.word64? default.backOffIntervals
  let failures ←
    Value.part? parts "maxConsecutiveFailures" Value.word32? default.maxConsecutiveFailures
  some ⟨first, last, count, failures⟩

def toValue (s : PoolSettings) : Value :=
  .table [("firstBackOffIntervalMs", .whole s.firstBackOffMs.toNat),
    ("lastBackOffIntervalMs", .whole s.lastBackOffMs.toNat),
    ("numBackOffIntervals", .whole s.backOffIntervals.toNat),
    ("maxConsecutiveFailures", .whole s.maxConsecutiveFailures.toNat)]

def validate (s : PoolSettings) : Except SettingsFault Unit :=
  if s.lastBackOffMs < s.firstBackOffMs then .error .backOffOrder
  else if s.maxConsecutiveFailures = 0 then .error .maxConsecutiveFailures
  else .ok ()

end PoolSettings

/-- How many proven items are kept. -/
structure StoreSettings where
  capacity : UInt64
  deriving Repr, DecidableEq

namespace StoreSettings

def default : StoreSettings :=
  ⟨4096⟩

def names : List String :=
  ["capacity"]

def ofValue? (v : Value) : Option StoreSettings := do
  let parts ← v.parts? names
  let capacity ← Value.part? parts "capacity" Value.word64? default.capacity
  some ⟨capacity⟩

def toValue (s : StoreSettings) : Value :=
  .table [("capacity", .whole s.capacity.toNat)]

def validate (s : StoreSettings) : Except SettingsFault Unit :=
  if s.capacity = 0 then .error .capacity else .ok ()

end StoreSettings

/-- How requests are sent, and what the sections of the helper tries are. -/
structure RetrievalSettings where
  /-- The time a peer gets to answer, before the factor of the kind. -/
  requestTimeoutMs : UInt32
  /-- How many requests a peer may have at a time. -/
  maxInFlight : UInt64
  /-- How long a request that has run out of peers waits for a new one. -/
  peerWaitGraceMs : UInt32
  /-- Blocks in a section of the canonical hash trie. -/
  canonicalHashSection : UInt64
  /-- Blocks in a section of the bloom trie. -/
  bloomSection : UInt64
  deriving Repr, DecidableEq

namespace RetrievalSettings

def default : RetrievalSettings :=
  ⟨3000, 4, 1000, 32768, 32768⟩

def names : List String :=
  ["requestTimeoutMs", "maxInFlightPerPeer", "peerWaitGraceMs", "chtSectionSize",
   "bloomTrieSectionSize"]

def ofValue? (v : Value) : Option RetrievalSettings := do
  let parts ← v.parts? names
  let timeout ← Value.part? parts "requestTimeoutMs" Value.word32? default.requestTimeoutMs
  let inFlight ← Value.part? parts "maxInFlightPerPeer" Value.word64? default.maxInFlight
  let grace ← Value.part? parts "peerWaitGraceMs" Value.word32? default.peerWaitGraceMs
  let canonicalHash ←
    Value.part? parts "chtSectionSize" Value.word64? default.canonicalHashSection
  let bloom ← Value.part? parts "bloomTrieSectionSize" Value.word64? default.bloomSection
  some ⟨timeout, inFlight, grace, canonicalHash, bloom⟩

def toValue (s : RetrievalSettings) : Value :=
  .table [("requestTimeoutMs", .whole s.requestTimeoutMs.toNat),
    ("maxInFlightPerPeer", .whole s.maxInFlight.toNat),
    ("peerWaitGraceMs", .whole s.peerWaitGraceMs.toNat),
    ("chtSectionSize", .whole s.canonicalHashSection.toNat),
    ("bloomTrieSectionSize", .whole s.bloomSection.toNat)]

def validate (s : RetrievalSettings) : Except SettingsFault Unit :=
  if s.requestTimeoutMs = 0 then .error .requestTimeout
  else if s.maxInFlight = 0 then .error .maxInFlight
  else if s.canonicalHashSection = 0 ∨ s.bloomSection = 0 then .error .sectionSize
  else .ok ()

end RetrievalSettings

end LightClient
