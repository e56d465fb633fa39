/-
Module: LightClient.Retrieval.Pursuit
Purpose: The pursuit of one request from peer to peer, and how far it is.
Main exports: Assignment, Pursuit, Pursuit.Stage, Pursuit.wants, Pursuit.assignment?,
  Pursuit.ticket?
-/
import LightClient.Registry.Record
import LightClient.Retrieval.Caller
import LightClient.Router

namespace LightClient

/-- A place among the requests of a peer that a pursuit holds. -/
structure Assignment where
  peer : PeerId
  /-- The registration of the peer under which the place was taken. -/
  registration : Nat
  deriving Repr, DecidableEq

namespace Pursuit

/-- What a pursuit does once the outcome of an attempt is on record. -/
inductive Next where
  | retry
  | finish (result : Retrieved)
  | stop

/-- How far a pursuit is. The generation counts the changes of the registry; a pursuit notes it
before it looks at the peers, so that a change after the look still wakes it. -/
inductive Stage where
  /-- About to note the generation and to look for a peer. -/
  | choosing
  /-- About to rank the peers. -/
  | ranking (seen : Nat)
  /-- Tries to get a place with one peer after the other. -/
  | offering (seen : Nat) (rest : List PeerId)
  /-- All peers were busy; waits for a change. -/
  | parked (seen : Nat)
  /-- No peer was eligible; about to note the generation again. -/
  | missing
  /-- About to look again for an eligible peer. -/
  | rechecking (seen : Nat)
  /-- Waits for a change, but not for longer than the grace period. -/
  | lingering (seen : Nat)
  /-- Holds a place with a peer. -/
  | assigned (held : Assignment)
  /-- The router waits for the reply. -/
  | registered (held : Assignment) (ticket : Ticket)
  /-- About to hand the request to the transport. -/
  | dispatching (held : Assignment) (ticket : Ticket)
  /-- The transport is taking the request. -/
  | sending (held : Assignment) (ticket : Ticket)
  /-- The transport has taken the request; waits for the reply. -/
  | awaiting (held : Assignment) (ticket : Ticket)
  /-- About to give the place back with an outcome. -/
  | releasing (held : Assignment) (outcome : Outcome) (next : Next)
  /-- About to land the flight. -/
  | landing (result : Retrieved)
  /-- Hands the result to one caller after the other. -/
  | handing (result : Retrieved) (waiters : List (Nat × Nat))

end Pursuit

structure Pursuit where
  key : RequestKey
  request : Request
  /-- The peers that were assigned, the last one first. -/
  tried : List PeerId
  attempts : Nat
  /-- Nobody waits any more. -/
  aborted : Bool
  stage : Pursuit.Stage

namespace Pursuit

def fresh (r : Request) : Pursuit :=
  ⟨r.key, r, [], 0, false, .choosing⟩

/-- A peer is eligible if it can serve the request and has not been tried. -/
def wants (p : Pursuit) (info : PeerInfo) : Bool :=
  info.canServe p.request && !p.tried.contains info.id

def assign (p : Pursuit) (held : Assignment) : Pursuit :=
  { p with
    tried := held.peer :: p.tried
    attempts := p.attempts + 1
    stage := .assigned held }

/-- What is left to say when there is nobody to ask. -/
def exhausted (p : Pursuit) : RetrievalError :=
  if p.attempts = 0 then .noPeerAvailable else .allPeersFailed p.attempts

/-- The place that a pursuit holds. -/
def assignment? (p : Pursuit) : Option Assignment :=
  match p.stage with
  | .assigned held => some held
  | .registered held _ => some held
  | .dispatching held _ => some held
  | .sending held _ => some held
  | .awaiting held _ => some held
  | .releasing held _ _ => some held
  | _ => none

/-- The ticket with which a pursuit expects a reply. -/
def ticket? (p : Pursuit) : Option Ticket :=
  match p.stage with
  | .registered _ t => some t
  | .dispatching _ t => some t
  | .sending _ t => some t
  | .awaiting _ t => some t
  | _ => none

end Pursuit

end LightClient
