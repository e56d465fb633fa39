/-
Module: LightClient.Peer
Purpose: Names of peers, of their addresses and of the requests sent to them; what a peer announces.
Main exports: PeerId, PeerAddr, RequestId, Head, PeerInfo
-/
import LightClient.Digest
import LightClient.Request.Kind
import LightClient.Text.Base64Url

namespace LightClient

/-- The identity of a connected peer, opaque bytes chosen by the transport. -/
structure PeerId where
  bytes : Bytes
  deriving Repr, DecidableEq, Inhabited

namespace PeerId

/-- A peer is written in URL-safe base 64. -/
def text (p : PeerId) : String :=
  Base64Url.encode p.bytes

def ofText? (s : String) : Option PeerId :=
  (Base64Url.decode? s).map PeerId.mk

def label (p : PeerId) : String :=
  "PeerId(" ++ p.text ++ ")"

end PeerId

/-- An address that can be dialed. -/
structure PeerAddr where
  text : String
  deriving Repr, DecidableEq, Inhabited

namespace PeerAddr

/-- The form of an address in logs. -/
def label (a : PeerAddr) : String :=
  "PeerAddr(" ++ a.text ++ ")"

end PeerAddr

/-- The number that ties a reply to the request it answers. -/
structure RequestId where
  number : UInt64
  deriving Repr, DecidableEq, Inhabited

namespace RequestId

/-- A request is written as its number after a hash sign. -/
def text (r : RequestId) : String :=
  "#" ++ toString r.number.toNat

def label (r : RequestId) : String :=
  "RequestId(" ++ toString r.number.toNat ++ ")"

end RequestId

/-- The end of the chain that a peer announced. -/
structure Head where
  number : UInt64
  hash : Digest
  deriving DecidableEq, Inhabited

/-- What is known about a connected peer from its own announcements. -/
structure PeerInfo where
  id : PeerId
  addr : Option PeerAddr
  version : UInt32
  serves : List RequestKind
  head : Head
  deriving DecidableEq, Inhabited

end LightClient
