/-
Module: LightClient.Simulation.Transport
Purpose: A network without wires: what peers in memory do with the requests sent to them.
Main exports: Behavior, Server, Script, Transport, Delivery, Transport.send
-/
import LightClient.FullNode.Answer
import LightClient.Router

namespace LightClient

/-- How a peer treats requests. -/
inductive Behavior where
  /-- Answers from its chain, and declines what the chain does not have. -/
  | honest
  /-- Answers with bytes that are no message. -/
  | corrupt
  /-- Takes requests and never answers. -/
  | silent
  /-- Declines every request. -/
  | declining
  /-- Answers like an honest peer, but only after so many milliseconds. -/
  | delayed (ms : Nat)
  /-- Does not take requests. -/
  | refusing
  deriving Repr, DecidableEq

/-- A peer that answers from a chain. -/
structure Server where
  chain : SampleChain
  behavior : Behavior

/-- What a scripted peer says in a reply. -/
inductive Line where
  | fixed (reply : Reply)
  /-- What an honest peer with this chain would say. -/
  | honest (chain : SampleChain)

/-- A reply of a scripted peer, who may lie about who and what the reply is for. -/
structure Cue where
  line : Line
  /-- The time before the reply is made; without any, it is made while the request is still being
  sent. -/
  delayMs : Nat
  asPeer : Option PeerId
  asKind : Option RequestKind
  /-- What is added to the number of the request. -/
  idOffset : UInt64

/-- What a scripted peer does with every request. -/
inductive Script where
  /-- Sending to the peer never comes to an end. -/
  | hang
  | cues (cues : List Cue)

/-- A reply on its way. -/
structure Delivery where
  peer : PeerId
  id : RequestId
  kind : RequestKind
  reply : Reply
  /-- How long the reply travels, in milliseconds. One that does not travel is made while the
  request is still being sent. -/
  travelMs : Option Nat

/-- What comes of sending a request. -/
inductive Sending where
  | hangs
  | refused
  /-- The request is taken, and the replies set out in this order. -/
  | taken (replies : List Delivery)

/-- The peers that can be reached. -/
structure Transport where
  servers : Table PeerId Server
  scripts : Table PeerId Script
  /-- The peers of the requests that servers have taken, the last one first. -/
  taken : List PeerId

/-- What an honest peer with this chain says. -/
def SampleChain.reply (c : SampleChain) (kind : RequestKind) (data : Bytes) : Reply :=
  match c.answer kind data with
  | some payload => .data payload
  | none => .cannotServe

namespace Server

/-- What a peer replies and when; none if it does not take the request. -/
def reply? (s : Server) (kind : RequestKind) (data : Bytes) : Option (List (Reply × Nat)) :=
  match s.behavior with
  | .honest => some [(s.chain.reply kind data, 0)]
  | .delayed ms => some [(s.chain.reply kind data, ms)]
  | .corrupt => some [(.data [0x0a, 0xff], 0)]
  | .silent => some []
  | .declining => some [(.cannotServe, 0)]
  | .refusing => none

end Server

namespace Cue

def delivery (c : Cue) (peer : PeerId) (id : RequestId) (kind : RequestKind) (data : Bytes) :
    Delivery :=
  let reply := match c.line with
    | .fixed reply => reply
    | .honest chain => chain.reply kind data
  let travelMs := if c.delayMs = 0 then none else some c.delayMs
  ⟨c.asPeer.getD peer, ⟨id.number + c.idOffset⟩, c.asKind.getD kind, reply, travelMs⟩

end Cue

namespace Transport

/-- Nobody can be reached. -/
def empty : Transport :=
  ⟨[], [], []⟩

/-- Makes a peer answer from a chain. -/
def serve (t : Transport) (peer : PeerId) (s : Server) : Transport :=
  { t with servers := t.servers.insert peer s }

/-- Makes a peer follow a script, whatever it does otherwise. -/
def direct (t : Transport) (peer : PeerId) (s : Script) : Transport :=
  { t with scripts := t.scripts.insert peer s }

/-- Changes how a peer that answers from a chain treats requests. -/
def setBehavior (t : Transport) (peer : PeerId) (b : Behavior) : Transport :=
  { t with servers := t.servers.modify peer fun s => { s with behavior := b } }

/-- A peer can no longer be reached. -/
def remove (t : Transport) (peer : PeerId) : Transport :=
  { t with servers := t.servers.erase peer, scripts := t.scripts.erase peer }

/-- Sends a request. A script comes before a chain, and its replies without a delay are made at
once; all others travel, if only for no time. -/
def send (t : Transport) (id : RequestId) (peer : PeerId) (kind : RequestKind) (data : Bytes) :
    Sending × Transport :=
  match t.scripts.get? peer with
  | some .hang => (.hangs, t)
  | some (.cues cues) =>
    (.taken (cues.map fun c => c.delivery peer id kind data), t)
  | none =>
    match (t.servers.get? peer).bind fun s => s.reply? kind data with
    | some replies =>
      (.taken (replies.map fun r => ⟨peer, id, kind, r.1, some r.2⟩),
        { t with taken := peer :: t.taken })
    | none => (.refused, t)

/-- The number of requests that a peer's server has taken. -/
def takenBy (t : Transport) (peer : PeerId) : Nat :=
  t.taken.count peer

end Transport

end LightClient
