/-
Module: LightClient.Retrieval.Client
Purpose: The whole state of the retrieval core, and how its parts tell each other of changes.
Main exports: Client, Client.create?, Client.Effect, Client.Notice, Client.change, Client.notify,
  Client.report
-/
import LightClient.ItemStore
import LightClient.Retrieval.Flight
import LightClient.Retrieval.Pursuit
import LightClient.Router
import LightClient.ServerPool
import LightClient.Settings

namespace LightClient

namespace Client

/-- Those who are told of changes of the registry. -/
inductive Listener where
  /-- Fails the requests that wait for a peer that has left. -/
  | router
  /-- Wakes the pursuits that wait for a change. -/
  | generation
  /-- Keeps track of connected addresses. -/
  | pool
  deriving Repr, DecidableEq

/-- A change of the registry, and who has not been told of it yet. -/
structure Notice where
  event : Registry.Event
  untold : List Listener
  deriving DecidableEq

def Notice.fresh (e : Registry.Event) : Notice :=
  ⟨e, [.router, .generation, .pool]⟩

/-- What can be seen of a step from outside. -/
inductive Effect where
  /-- The root of a section is looked up. -/
  | lookedUp (trie : HelperTrie) (sectionIndex : UInt64)
  /-- A request is handed to the transport. -/
  | sent (id : RequestId) (peer : PeerId) (kind : RequestKind) (data : Bytes)
  /-- An outcome is reported to the registry. -/
  | reported (peer : PeerId) (outcome : Outcome)
  /-- The registry has changed and has so many peers now. -/
  | changed (event : Registry.Event) (size : Nat)
  deriving DecidableEq

end Client

/-- The state of the retrieval core. -/
structure Client [ItemCache] [DelaySeries] where
  settings : RetrievalSettings
  registry : Registry
  notices : List Client.Notice
  /-- The number of changes of the registry that have been told. -/
  generation : Nat
  pool : ServerPool
  router : Router
  store : ItemStore
  flights : Flights
  nextFlight : Nat
  /-- The pursuit of each flight, by its number. -/
  pursuits : Table Nat Pursuit
  callers : Table Nat Caller
  nextCaller : Nat

namespace Client

variable [ItemCache] [DelaySeries]

/-- Nobody has called yet, and no peer is connected. -/
def empty (s : ClientSettings) : Client :=
  { settings := s.retrieval
    registry := Registry.empty s.registry
    notices := []
    generation := 0
    pool := ServerPool.empty s.pool
    router := Router.empty
    store := ItemStore.empty s.store.capacity.toNat
    flights := []
    nextFlight := 1
    pursuits := []
    callers := []
    nextCaller := 0 }

/-- A client that nobody has called yet, if there is room for its store. -/
def create? (s : ClientSettings) : Option Client :=
  (ItemStore.create? s.store.capacity.toNat).map fun _ => empty s

/-- The state with a new stage of a pursuit. -/
def move (c : Client) (flight : Nat) (stage : Pursuit.Stage) : Client :=
  { c with pursuits := c.pursuits.modify flight fun p => { p with stage := stage } }

/-- The state without a pursuit. -/
def retire (c : Client) (flight : Nat) : Client :=
  { c with pursuits := c.pursuits.erase flight }

/-- The state with a new stage of a caller. -/
def place (c : Client) (caller : Nat) (stage : Caller.Stage) : Client :=
  { c with callers := c.callers.modify caller fun x => { x with stage := stage } }

/-- Takes up a change of the registry. Nobody has been told of it yet. -/
def change (c : Client) (x : Registry × List Registry.Event) : Client × List Effect :=
  ({ c with registry := x.1, notices := c.notices ++ x.2.map Notice.fresh },
    x.2.map fun e => .changed e x.1.size)

/-- Tells one listener of a change. -/
def tell (c : Client) (now : Nat) (e : Registry.Event) : Listener → Client
  | .router =>
    match e with
    | .removed info _ => { c with router := c.router.peerRemoved info.id }
    | _ => c
  | .generation => { c with generation := c.generation + 1 }
  | .pool => { c with pool := c.pool.hear now e }

/-- Tells the next listener of one of the notices. -/
def notify (c : Client) (now : Nat) (index : Nat) : Option Client :=
  match c.notices[index]? with
  | none => none
  | some ⟨_, []⟩ => some { c with notices := c.notices.eraseIdx index }
  | some ⟨e, listener :: rest⟩ =>
    some ({ c with notices := c.notices.set index ⟨e, rest⟩ }.tell now e listener)

/-- Reports the outcome of a request to the registry, which gives the place back. -/
def report (c : Client) (peer : PeerId) (o : Outcome) : Client × List Effect :=
  let (c, effects) := c.change (c.registry.record peer o)
  (c, .reported peer o :: effects)

/-- The peers that are eligible for a pursuit, best first. -/
def eligible (c : Client) (p : Pursuit) : List PeerId :=
  (c.registry.ranked p.wants).map fun r => r.info.id

/-- A caller gives up its place at a flight. If it was the last one, the pursuit is aborted. -/
def leave (c : Client) (seat : Caller.Seat) : Client :=
  let (flights, last) := c.flights.leave seat.key seat.flight seat.waiter
  let c := { c with flights := flights }
  if last then
    { c with pursuits := c.pursuits.modify seat.flight fun p => { p with aborted := true } }
  else c

/-- A result can still come to a place: the flight is under way and has the place, or it has
landed and the place is among those that are yet to be served. -/
def isServed (c : Client) (seat : Caller.Seat) : Bool :=
  (c.flights.current? seat.key seat.flight).any (fun f => f.waiters.contains seat.waiter) ||
    (c.pursuits.get? seat.flight).any fun p =>
      match p.stage with
      | .handing _ waiters => waiters.any fun w => w.1 = seat.waiter
      | _ => false

end Client

end LightClient
