/-
Module: LightClient.Registry.Record
Purpose: What is remembered about a connected peer, its score, and how outcomes change it.
Main exports: Latency, Outcome, PeerRecord, PeerRecord.score, PeerRecord.after, Standing
-/
import LightClient.Decimal.FloatOrder
import LightClient.Peer
import LightClient.Settings.Modules

namespace LightClient

/-- The nanoseconds that are more than any two readings of a clock are apart: a clock counts its
seconds in 63 bits. -/
def Latency.limit : Nat :=
  9223372036854775808 * 1000000000

/-- How long a reply took, between two readings of a clock. A duration can hold twice as much, so
that the average of latencies is a duration too. -/
structure Latency where
  nanos : Nat
  inRange : nanos < Latency.limit
  deriving Repr, DecidableEq

/-- The latency of so many nanoseconds, or the longest one if that is too long. -/
def Latency.ofNanos (n : Nat) : Latency :=
  ⟨min n (limit - 1), Nat.lt_of_le_of_lt (Nat.min_le_right _ _) (by decide)⟩

/-- How a request to a peer ended. -/
inductive Outcome where
  /-- The reply was proven. -/
  | success (latency : Latency)
  | timeout
  | invalidProof
  | cannotServe
  /-- The request could not be handed over. -/
  | failed
  /-- The request was given up for reasons that are not the peer's. -/
  | abandoned
  deriving Repr, DecidableEq

namespace Outcome

def name : Outcome → String
  | success _ => "success"
  | timeout => "timeout"
  | invalidProof => "invalid_proof"
  | cannotServe => "cannot_serve"
  | failed => "failed"
  | abandoned => "abandoned"

end Outcome

/-- A connected peer. -/
structure PeerRecord where
  info : PeerInfo
  /-- The place in the order of registration. -/
  seq : Nat
  /-- The moving average of the latency in milliseconds, once there is a sample. -/
  latencyMs : Option Float
  /-- The moving average of failures. -/
  errorRate : Float
  samples : Nat
  invalidProofs : Nat
  inFlight : Nat

namespace PeerRecord

/-- A peer that has just been registered. -/
def fresh (info : PeerInfo) (seq : Nat) : PeerRecord :=
  ⟨info, seq, none, 0.0, 0, 0, 0⟩

/-- The score of a peer: one without errors and latency; the reference latency halves it. -/
def score (s : RegistrySettings) (r : PeerRecord) : Float :=
  let reference := s.latencyReferenceMs.toFloat
  let latency := r.latencyMs.getD 0.0
  (1.0 - r.errorRate) * reference / (reference + latency)

/-- The average latency in nanoseconds. -/
def latency (r : PeerRecord) : Nat :=
  Decimal.nanosOfSeconds (r.latencyMs.getD 0.0 / 1000.0)

/-- The score of a peer, divided among its requests and one more. -/
def loadedScore (s : RegistrySettings) (r : PeerRecord) : Float :=
  r.score s / (1.0 + Float.ofNat r.inFlight)

/-- The request is over, whatever its outcome. -/
def release (r : PeerRecord) : PeerRecord :=
  { r with inFlight := r.inFlight - 1 }

/-- Takes a latency into the average. -/
def addLatency (s : RegistrySettings) (latency : Latency) (r : PeerRecord) : PeerRecord :=
  let sample := Decimal.secondsOfNanos latency.nanos * 1000.0
  let average := match r.latencyMs with
    | none => sample
    | some l => l * (1.0 - s.latencyWeight) + sample * s.latencyWeight
  { r with latencyMs := some average, errorRate := r.errorRate * (1.0 - s.errorWeight) }

/-- Takes a failure into the error rate. -/
def addError (s : RegistrySettings) (r : PeerRecord) : PeerRecord :=
  { r with errorRate := r.errorRate * (1.0 - s.errorWeight) + s.errorWeight }

def after (s : RegistrySettings) (r : PeerRecord) (o : Outcome) : PeerRecord :=
  let r := r.release
  match o with
  | .abandoned => r
  | .success latency =>
    let r := r.addLatency s latency
    { r with samples := r.samples + 1 }
  | .invalidProof =>
    let r := r.addError s
    { r with samples := r.samples + 1, invalidProofs := r.invalidProofs + 1 }
  | _ =>
    let r := r.addError s
    { r with samples := r.samples + 1 }

/-- A peer is evicted for too many invalid proofs, or for a low score once it has enough samples. -/
def isEvictable (s : RegistrySettings) (r : PeerRecord) : Bool :=
  s.maxInvalidProofs.toNat ≤ r.invalidProofs ||
    (s.minSamples.toNat ≤ r.samples && r.score s < s.minScore)

/-- One record ranks before another: by loaded score downwards, then by latency upwards, then by
registration. -/
def ranksBefore (s : RegistrySettings) (a b : PeerRecord) : Bool :=
  let x := Decimal.orderKey (a.loadedScore s)
  let y := Decimal.orderKey (b.loadedScore s)
  if x ≠ y then y < x
  else if a.latency ≠ b.latency then a.latency < b.latency
  else a.seq < b.seq

end PeerRecord

/-- A view of a peer at one point in time. -/
structure Standing where
  info : PeerInfo
  score : Float
  latency : Nat
  inFlight : Nat

def PeerRecord.standing (s : RegistrySettings) (r : PeerRecord) : Standing :=
  ⟨r.info, r.score s, r.latency, r.inFlight⟩

end LightClient
