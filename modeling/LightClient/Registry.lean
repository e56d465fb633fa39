/-
Module: LightClient.Registry
Purpose: The connected peers, what their outcomes make of them, and what others are told about it.
Main exports: Registry, Registry.Event, Registry.register, Registry.unregister, Registry.announce,
  Registry.tryBegin, Registry.record, Registry.ranked, Registry.best
-/
import LightClient.Registry.Record
import LightClient.Table

namespace LightClient

/-- The connected peers. -/
structure Registry where
  settings : RegistrySettings
  peers : Table PeerId PeerRecord
  nextSeq : Nat

namespace Registry

/-- Why a peer left. -/
inductive Removal where
  | disconnected
  | evicted
  deriving Repr, DecidableEq

/-- What others are told after a change. -/
inductive Event where
  | registered (info : PeerInfo)
  | updated (peer : PeerId)
  | removed (info : PeerInfo) (reason : Removal)
  deriving DecidableEq

def Event.peer : Event → PeerId
  | registered info => info.id
  | updated peer => peer
  | removed info _ => info.id

def empty (s : RegistrySettings) : Registry :=
  ⟨s, [], 0⟩

def find? (r : Registry) (peer : PeerId) : Option PeerRecord :=
  r.peers.get? peer

def size (r : Registry) : Nat :=
  r.peers.length

/-- Registers a peer. A peer that is known keeps everything but its announcement. -/
def register (r : Registry) (info : PeerInfo) : Registry × List Event :=
  match r.find? info.id with
  | some record =>
    ({ r with peers := r.peers.insert info.id { record with info := info } }, [.registered info])
  | none =>
    ({ r with
        peers := r.peers.insert info.id (PeerRecord.fresh info r.nextSeq)
        nextSeq := r.nextSeq + 1 }, [.registered info])

/-- Takes out a peer that disconnected. -/
def unregister (r : Registry) (peer : PeerId) : Registry × List Event :=
  match r.find? peer with
  | some record =>
    ({ r with peers := r.peers.erase peer }, [.removed record.info .disconnected])
  | none => (r, [])

/-- Takes up the new head of a peer. -/
def announce (r : Registry) (peer : PeerId) (head : Head) : Registry × List Event :=
  match r.find? peer with
  | some record =>
    ({ r with
        peers := r.peers.insert peer { record with info := { record.info with head := head } } },
      [.updated peer])
  | none => (r, [])

/-- Reserves a place for one more request if the peer has fewer than `limit`. -/
def tryBegin (r : Registry) (peer : PeerId) (limit : Nat) : Option Registry :=
  match r.find? peer with
  | some record =>
    if record.inFlight < limit then
      some { r with
        peers := r.peers.insert peer { record with inFlight := record.inFlight + 1 } }
    else none
  | none => none

/-- Takes up the outcome of a request; a peer that has become evictable leaves. -/
def record (r : Registry) (peer : PeerId) (o : Outcome) : Registry × List Event :=
  match r.find? peer with
  | some old =>
    let new := old.after r.settings o
    if o ≠ .abandoned ∧ new.isEvictable r.settings then
      ({ r with peers := r.peers.erase peer }, [.removed new.info .evicted])
    else
      ({ r with peers := r.peers.insert peer new }, [.updated peer])
  | none => (r, [])

/-- The records that pass the filter, best first. -/
def ranked (r : Registry) (accept : PeerInfo → Bool) : List PeerRecord :=
  (r.peers.values.filter fun p => accept p.info).mergeSort
    fun a b => !PeerRecord.ranksBefore r.settings b a

def standing? (r : Registry) (peer : PeerId) : Option Standing :=
  (r.find? peer).map (PeerRecord.standing r.settings)

/-- The views of the best `limit` peers that pass the filter; without a limit, of all of them. -/
def best (r : Registry) (accept : PeerInfo → Bool) (limit : Option Nat) : List Standing :=
  let all := (r.ranked accept).map (PeerRecord.standing r.settings)
  match limit with
  | some n => all.take n
  | none => all

end Registry

end LightClient
