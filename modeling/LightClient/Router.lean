/-
Module: LightClient.Router
Purpose: The requests that wait for a reply, and what has become of each.
Main exports: Reply, Receipt, Ticket, Router, Router.register, Router.receive, Router.forget,
  Router.peerRemoved, Router.discard
-/
import LightClient.Peer
import LightClient.Table

namespace LightClient

/-- What a peer sends back. -/
inductive Reply where
  | data (payload : Bytes)
  | cannotServe
  deriving Repr, DecidableEq

/-- What the one who waits for a reply sees. -/
inductive Receipt where
  | pending
  | reply (reply : Reply)
  | peerGone (peer : PeerId)
  /-- Nothing will come any more. -/
  | closed
  deriving Repr, DecidableEq

/-- A result ends the waiting, and a receipt that is not pending stays as it is. -/
def Receipt.settle (result : Receipt) : Receipt → Receipt
  | pending => result
  | settled => settled

/-- What the one who waits for a reply holds: the number that the reply has to bear, and the
channel through which it comes. Numbers start again after the last word; channels never do. -/
structure Ticket where
  id : RequestId
  channel : Nat
  deriving Repr, DecidableEq

/-- A request that waits: who has to answer it, with what, and where the answer goes. -/
structure Slot where
  peer : PeerId
  kind : RequestKind
  channel : Nat
  deriving Repr, DecidableEq

/-- The requests that wait for a reply. -/
structure Router where
  slots : Table RequestId Slot
  /-- What has come through each channel. -/
  receipts : Table Nat Receipt
  /-- The number of requests that ever waited. -/
  registrations : Nat

namespace Router

def empty : Router :=
  ⟨[], [], 0⟩

/-- Ends the waiting of a request with a result. -/
def settle (r : Router) (id : RequestId) (result : Receipt) : Router :=
  match r.slots.get? id with
  | some slot =>
    { r with
      slots := r.slots.erase id
      receipts := r.receipts.modify slot.channel result.settle }
  | none => r

/-- Stops waiting; a reply that comes later is dropped. -/
def forget (r : Router) (id : RequestId) : Router :=
  r.settle id .closed

/-- Begins to wait for a reply under the next number. A request that still waits under this number
gets nothing any more. -/
def register (r : Router) (peer : PeerId) (kind : RequestKind) : Ticket × Router :=
  let channel := r.registrations
  let id : RequestId := ⟨UInt64.ofNat channel⟩
  let r := r.forget id
  (⟨id, channel⟩,
    ⟨r.slots.insert id ⟨peer, kind, channel⟩, r.receipts.insert channel .pending, channel + 1⟩)

/-- Takes in a reply. It counts only for a request that waits for this peer and this kind. -/
def receive (r : Router) (peer : PeerId) (id : RequestId) (kind : RequestKind) (reply : Reply) :
    Router :=
  match r.slots.get? id with
  | some slot => if slot.peer = peer ∧ slot.kind = kind then r.settle id (.reply reply) else r
  | none => r

def waitingFor (r : Router) (peer : PeerId) : List RequestId :=
  (r.slots.filter fun s => s.2.peer = peer).map Prod.fst

/-- Fails every request that waits for a peer that has left. -/
def peerRemoved (r : Router) (peer : PeerId) : Router :=
  (r.waitingFor peer).foldl (fun r id => r.settle id (.peerGone peer)) r

/-- What has become of a request. -/
def receipt (r : Router) (t : Ticket) : Receipt :=
  (r.receipts.get? t.channel).getD .closed

/-- Nobody asks for the receipt any more. -/
def discard (r : Router) (t : Ticket) : Router :=
  { r with receipts := r.receipts.erase t.channel }

end Router

end LightClient
