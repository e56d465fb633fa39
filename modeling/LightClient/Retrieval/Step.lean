/-
Module: LightClient.Retrieval.Step
Purpose: The steps of the retrieval core. Every step is one that no other can interrupt; callers,
  pursuits, peers and the clock take them in any order.
Main exports: Client.Action, Client.step?
-/
import LightClient.Retrieval.Binding
import LightClient.Retrieval.Client
import LightClient.Verify

namespace LightClient

namespace Client

/-- What can happen next. -/
inductive Action where
  /-- Somebody asks for data. -/
  | call (query : Query)
  /-- A caller no longer wants the data. -/
  | cancel (caller : Nat)
  /-- A caller goes away. -/
  | drop (caller : Nat)
  /-- A call ties its query to a root. -/
  | bind (caller : Nat)
  /-- A lookup of a section's root is answered. -/
  | resolve (caller : Nat) (answer : SectionRoots.Answer)
  /-- A call looks for its answer in the store and among the flights. -/
  | enter (caller : Nat)
  /-- A call returns what its flight brought. -/
  | take (caller : Nat)
  /-- A call returns because its caller no longer wants the data. -/
  | quit (caller : Nat)
  /-- A pursuit does what it does by itself. -/
  | pursue (flight : Nat)
  /-- The transport has taken a request. -/
  | accept (flight : Nat)
  /-- The transport has refused a request. -/
  | refuse (flight : Nat)
  /-- A pursuit takes up a reply that took so long. -/
  | collect (flight : Nat) (latency : Latency)
  /-- The time for a reply is over. -/
  | expire (flight : Nat)
  /-- The grace period of a pursuit is over. -/
  | despair (flight : Nat)
  /-- An aborted pursuit stops. -/
  | stop (flight : Nat)
  /-- An aborted pursuit that waits for a busy peer comes to a cancellation. -/
  | withdraw (flight : Nat)
  /-- A pursuit hands the result to one of the callers that wait for it. -/
  | serve (flight : Nat) (waiter : Nat)
  /-- A peer announces itself. -/
  | register (info : PeerInfo)
  /-- A peer disconnects. -/
  | unregister (peer : PeerId)
  /-- A peer announces a new head. -/
  | announce (peer : PeerId) (head : Head)
  /-- The next listener is told of a change. -/
  | notify (now : Nat) (index : Nat)
  /-- A reply comes in. -/
  | receive (peer : PeerId) (id : RequestId) (kind : RequestKind) (reply : Reply)

variable [ItemCache] [DelaySeries]

/-! ### Callers -/

/-- A call begins. What can be answered at once is. -/
def bind (c : Client) (n : Nat) (x : Caller) : Client × List Effect :=
  if x.canceled then (c.place n (.returned (.error .canceled)), [])
  else
    match x.query.atOnce with
    | some item => (c.place n (.returned (.ok item)), [])
    | none =>
      match x.query.binding c.settings with
      | .error e => (c.place n (.returned (.error e)), [])
      | .ok (.complete r) => (c.place n (.bound r), [])
      | .ok (.perSection trie index key minHead) =>
        (c.place n (.resolving trie index key minHead), [.lookedUp trie index])

/-- The request of a call is known: an answer in the store is returned, a flight under way is
joined, and otherwise a flight begins. A flight under way keeps the store from being looked at. -/
def enter (c : Client) (n : Nat) (r : Request) : Client :=
  let key := r.key
  match c.flights.get? key with
  | some f =>
    { c with flights := c.flights.insert key (f.join n) }.place n
      (.waiting ⟨key, f.id, f.nextWaiter⟩)
  | none =>
    match c.store.get key with
    | (some item, store) => { c with store := store }.place n (.returned (.ok item))
    | (none, store) =>
      let id := c.nextFlight
      { c with
        store := store
        flights := c.flights.insert key (Flight.begin id n)
        nextFlight := id + 1
        pursuits := c.pursuits.insert id (Pursuit.fresh r) }.place n (.waiting ⟨key, id, 0⟩)

/-- A call takes what its flight brought. A place to which nothing can come any more brings an
error. -/
def take? (c : Client) (n : Nat) : Caller.Stage → Option Client
  | .handed _ result => some (c.place n (.returned result))
  | .waiting seat =>
    if c.isServed seat then none else some (c.place n (.returned (.error .noOutcome)))
  | _ => none

/-- A caller stops, and gives up its place if it has one. -/
def depart (c : Client) (n : Nat) (x : Caller) (stage : Caller.Stage) : Client :=
  match x.seat? with
  | some seat => (c.leave seat).place n stage
  | none => c.place n stage

/-- What a caller does. -/
def callerStep? (c : Client) (n : Nat) (x : Caller) : Action → Option (Client × List Effect)
  | .cancel _ =>
    some ({ c with callers := c.callers.insert n { x with canceled := true } }, [])
  | .drop _ => if x.isOver then none else some (c.depart n x .dropped, [])
  | .bind _ =>
    match x.stage with
    | .asking => some (c.bind n x)
    | _ => none
  | .resolve _ answer =>
    match x.stage with
    | .resolving trie index key minHead =>
      match SectionRoots.accept trie index answer with
      | .ok root => some (c.place n (.bound (.helperTrieProof trie index root key minHead)), [])
      | .error e => some (c.place n (.returned (.error e)), [])
    | _ => none
  | .enter _ =>
    match x.stage with
    | .bound r =>
      if x.canceled then some (c.place n (.returned (.error .canceled)), [])
      else some (c.enter n r, [])
    | _ => none
  | .take _ => (c.take? n x.stage).map fun c => (c, [])
  | .quit _ =>
    match x.canceled, x.stage with
    | true, .resolving .. => some (c.depart n x (.returned (.error .canceled)), [])
    | true, .waiting _ => some (c.depart n x (.returned (.error .canceled)), [])
    | true, .handed .. => some (c.depart n x (.returned (.error .canceled)), [])
    | _, _ => none
  | _ => none

/-! ### Pursuits -/

/-- Tries to get a place with the next peer. -/
def offer (c : Client) (n : Nat) (p : Pursuit) (seen : Nat) (peer : PeerId)
    (rest : List PeerId) : Client :=
  match c.registry.tryBegin peer c.settings.maxInFlight.toNat with
  | some registry =>
    let held : Assignment := ⟨peer, ((registry.find? peer).map PeerRecord.seq).getD 0⟩
    { c with
      registry := registry
      pursuits := c.pursuits.insert n (p.assign held) }
  | none => c.move n (.offering seen rest)

/-- The place is given back, and the pursuit goes on as it has to. -/
def proceed (c : Client) (n : Nat) : Pursuit.Next → Client
  | .retry => c.move n .choosing
  | .finish result => c.move n (.landing result)
  | .stop => c.retire n

/-- A flight lands: an item goes into the store, and nobody can join the flight any more. A flight
that is no longer the one of its key lands without a trace. -/
def land (c : Client) (n : Nat) (key : RequestKey) (result : Retrieved) : Client :=
  match c.flights.current? key n with
  | some f =>
    let store := match result with
      | .ok item => c.store.put key item
      | .error _ => c.store
    { c with store := store, flights := c.flights.erase key }.move n (.handing result f.waiters)
  | none => c.retire n

/-- One caller is handed the result, if it still waits for it. -/
def hand (c : Client) (seat : Caller.Seat) (caller : Nat) (result : Retrieved) : Client :=
  match (c.callers.get? caller).map Caller.stage with
  | some (.waiting s) => if s = seat then c.place caller (.handed seat result) else c
  | _ => c

/-- The router forgets a request, and the pursuit goes on to release its place. -/
def conclude (c : Client) (n : Nat) (held : Assignment) (t : Ticket) (outcome : Outcome)
    (next : Pursuit.Next) : Client :=
  { c with router := (c.router.forget t.id).discard t }.move n (.releasing held outcome next)

/-- What a pursuit does by itself; nothing if it waits for something. -/
def pursue? (c : Client) (n : Nat) (p : Pursuit) : Option (Client × List Effect) :=
  match p.stage with
  | .choosing => some (c.move n (.ranking c.generation), [])
  | .ranking seen =>
    match c.eligible p with
    | [] => some (c.move n .missing, [])
    | peers => some (c.move n (.offering seen peers), [])
  | .offering seen [] => some (c.move n (.parked seen), [])
  | .offering seen (peer :: rest) => some (c.offer n p seen peer rest, [])
  | .parked seen => if seen = c.generation then none else some (c.move n .choosing, [])
  | .missing => some (c.move n (.rechecking c.generation), [])
  | .rechecking seen =>
    match c.eligible p with
    | [] => some (c.move n (.lingering seen), [])
    | _ => some (c.move n .choosing, [])
  | .lingering seen => if seen = c.generation then none else some (c.move n .missing, [])
  | .assigned held =>
    let (t, router) := c.router.register held.peer p.request.kind
    some ({ c with router := router }.move n (.registered held t), [])
  | .registered held t =>
    match c.registry.find? held.peer with
    | some _ => some (c.move n (.dispatching held t), [])
    | none => some (c.conclude n held t .abandoned .retry, [])
  | .dispatching held t =>
    some (c.move n (.sending held t), [.sent t.id held.peer p.request.kind p.request.encode])
  | .releasing held outcome next =>
    let (c, effects) := c.report held.peer outcome
    some (c.proceed n next, effects)
  | .landing result => some (c.land n p.key result, [])
  | .handing _ [] => some (c.retire n, [])
  | .handing _ (_ :: _) => none
  | .sending .. => none
  | .awaiting .. => none

/-- Takes up what has become of a request. -/
def collect? (c : Client) (n : Nat) (p : Pursuit) (held : Assignment) (t : Ticket)
    (latency : Latency) : Option Client :=
  match c.router.receipt t with
  | .pending => none
  | .reply (.data payload) =>
    match verify p.request held.peer payload with
    | .ok item => some (c.conclude n held t (.success latency) (.finish (.ok item)))
    | .error e =>
      if e.isPeerLocal then some (c.conclude n held t .invalidProof .retry)
      else some (c.conclude n held t .abandoned (.finish (.error e)))
  | .reply .cannotServe => some (c.conclude n held t .cannotServe .retry)
  | .peerGone _ => some (c.conclude n held t .abandoned .retry)
  | .closed => some (c.conclude n held t .abandoned .retry)

/-- An aborted pursuit stops where it waits. A place that it holds is given back. -/
def stop? (c : Client) (n : Nat) (p : Pursuit) : Option Client :=
  if p.aborted then
    match p.stage with
    | .choosing => some (c.retire n)
    | .parked _ => some (c.retire n)
    | .lingering _ => some (c.retire n)
    | .sending held t => some (c.conclude n held t .abandoned .stop)
    | .awaiting held t => some (c.conclude n held t .abandoned .stop)
    | _ => none
  else none

/-- One of the callers that wait is handed the result. They are served in no particular order. -/
def serve? (c : Client) (n : Nat) (p : Pursuit) (waiter : Nat) : Option Client :=
  match p.stage with
  | .handing result waiters =>
    (Table.get? waiters waiter).map fun caller =>
      (c.hand ⟨p.key, n, waiter⟩ caller result).move n
        (.handing result (Table.erase waiters waiter))
  | _ => none

/-- What happens to a pursuit. -/
def pursuitStep? (c : Client) (n : Nat) (p : Pursuit) : Action → Option (Client × List Effect)
  | .pursue _ => c.pursue? n p
  | .accept _ =>
    match p.stage with
    | .sending held t => some (c.move n (.awaiting held t), [])
    | _ => none
  | .refuse _ =>
    match p.stage with
    | .sending held t => some (c.conclude n held t .failed .retry, [])
    | _ => none
  | .collect _ latency =>
    match p.stage with
    | .awaiting held t => (c.collect? n p held t latency).map fun c => (c, [])
    | _ => none
  | .expire _ =>
    match p.stage with
    | .awaiting held t => some (c.conclude n held t .timeout .retry, [])
    | _ => none
  | .despair _ =>
    match p.stage with
    | .lingering _ => some (c.move n (.landing (.error p.exhausted)), [])
    | _ => none
  | .stop _ => (c.stop? n p).map fun c => (c, [])
  | .withdraw _ =>
    match p.aborted, p.stage with
    | true, .parked _ => some (c.move n (.landing (.error .canceled)), [])
    | _, _ => none
  | .serve _ waiter => (c.serve? n p waiter).map fun c => (c, [])
  | _ => none

/-! ### All together -/

/-- The caller that takes a step. -/
def Action.caller? : Action → Option Nat
  | .cancel n => some n
  | .drop n => some n
  | .bind n => some n
  | .resolve n _ => some n
  | .enter n => some n
  | .take n => some n
  | .quit n => some n
  | _ => none

/-- The flight whose pursuit takes a step. -/
def Action.flight? : Action → Option Nat
  | .pursue n => some n
  | .accept n => some n
  | .refuse n => some n
  | .collect n _ => some n
  | .expire n => some n
  | .despair n => some n
  | .stop n => some n
  | .withdraw n => some n
  | .serve n _ => some n
  | _ => none

/-- The state after a step and what is seen of the step; none if the step cannot be taken. -/
def step? (c : Client) (a : Action) : Option (Client × List Effect) :=
  match a with
  | .call query =>
    some ({ c with
      callers := c.callers.insert c.nextCaller (Caller.fresh query)
      nextCaller := c.nextCaller + 1 }, [])
  | .register info => some (c.change (c.registry.register info))
  | .unregister peer => some (c.change (c.registry.unregister peer))
  | .announce peer head => some (c.change (c.registry.announce peer head))
  | .notify now index => (c.notify now index).map fun c => (c, [])
  | .receive peer id kind reply =>
    some ({ c with router := c.router.receive peer id kind reply }, [])
  | a =>
    match a.caller?, a.flight? with
    | some n, _ => (c.callers.get? n).bind fun x => c.callerStep? n x a
    | _, some n => (c.pursuits.get? n).bind fun p => c.pursuitStep? n p a
    | _, _ => none

end Client

end LightClient
