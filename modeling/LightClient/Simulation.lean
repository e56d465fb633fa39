/-
Module: LightClient.Simulation
Purpose: A client whose peers live in memory and whose clock jumps to the next moment at which
  anything happens. It only chooses the order of steps that the retrieval core can take; callers
  are served in the order in which they joined.
Main exports: Simulation, Simulation.act, Simulation.settle, Simulation.pass, Simulation.finish
-/
import LightClient.Retrieval.Step
import LightClient.Simulation.Agenda
import LightClient.Simulation.Libraries

namespace LightClient

/-- What a lookup of a section's root does. -/
inductive Lookup where
  /-- It never comes back. -/
  | stuck
  | answered (answer : SectionRoots.Answer)

/-- A client among peers in memory. -/
structure Simulation where
  client : Client
  transport : Transport
  lookup : HelperTrie → UInt64 → Lookup
  /-- How long successes of a peer take, in milliseconds. -/
  latencies : Table PeerId Nat
  agenda : Agenda
  /-- The call that everybody else goes before. -/
  last : Option Nat
  /-- What was seen so far. -/
  effects : List Client.Effect

namespace Simulation

/-- A simulation of a client without peers. -/
def begin (client : Client) (lookup : HelperTrie → UInt64 → Lookup) : Simulation :=
  { client := client
    transport := Transport.empty
    lookup := lookup
    latencies := []
    agenda := Agenda.empty
    last := none
    effects := [] }

/-- How long a success of a peer takes. -/
def latency (s : Simulation) (peer : PeerId) : Latency :=
  .ofNanos ((s.latencies.get? peer).getD 100 * 1000000)

/-! ### What each participant does next -/

/-- The next step of a call. -/
def callerAction? (s : Simulation) (n : Nat) : Option Client.Action :=
  (s.client.callers.get? n).bind fun x =>
    match x.stage with
    | .asking => some (.bind n)
    | .bound _ => some (.enter n)
    | .handed .. => some (.take n)
    | .waiting _ => if x.canceled then some (.quit n) else none
    | .resolving trie index _ _ =>
      if x.canceled then some (.quit n)
      else
        match s.lookup trie index with
        | .stuck => none
        | .answered answer => some (.resolve n answer)
    | .returned _ => none
    | .dropped => none

/-- The next step of a pursuit that waits or works by itself. -/
def pursuitAction? (s : Simulation) (n : Nat) : Option Client.Action :=
  (s.client.pursuits.get? n).bind fun p =>
    match p.stage with
    | .parked seen =>
      if p.aborted then some (.stop n)
      else if seen = s.client.generation then none
      else some (.pursue n)
    | .lingering seen =>
      if p.aborted then some (.stop n)
      else if s.agenda.isDue n then some (.despair n)
      else if seen = s.client.generation then none
      else some (.pursue n)
    | .sending .. => if p.aborted then some (.stop n) else none
    | .awaiting held t =>
      if p.aborted then some (.stop n)
      else if s.client.router.receipt t ≠ .pending then
        some (.collect n (s.latency held.peer))
      else if s.agenda.isDue n then some (.expire n)
      else none
    | .handing _ ((waiter, _) :: _) => some (.serve n waiter)
    | _ => some (.pursue n)

/-- A task can take a step. -/
def canRun (s : Simulation) : Task → Bool
  | .caller n => (s.callerAction? n).isSome
  | .pursuit n => (s.pursuitAction? n).isSome
  | .delivery _ => true

/-! ### Steps and what follows from them -/

/-- Tells everybody of all changes of the registry. -/
def tellAll (c : Client) : Nat → Client
  | 0 => c
  | fuel + 1 =>
    match c.notify 0 0 with
    | some c => tellAll c fuel
    | none => c

/-- The number of tellings that are left. -/
def untold (c : Client) : Nat :=
  c.notices.foldl (fun n x => n + x.untold.length + 1) 0

/-- The tasks that wait for a step of somebody else, pursuits before calls. -/
def sleepers (s : Simulation) : List Task :=
  s.client.pursuits.keys.map Task.pursuit ++ s.client.callers.keys.map Task.caller

/-- A task is ready, runs, or goes after everybody else. -/
def isAwake (s : Simulation) (running : Option Task) (t : Task) : Bool :=
  let known := s.agenda.ready ++ running.toList ++ (s.last.map Task.caller).toList
  match t with
  | .pursuit n => known.any (Task.isPursuit n)
  | .caller n => known.any (Task.isCaller n)
  | .delivery _ => true

/-- Wakes the tasks that can take a step. -/
def wakeAll (s : Simulation) (running : Option Task) : Simulation :=
  let woken := s.sleepers.filter fun t => !s.isAwake running t && s.canRun t
  { s with agenda := { s.agenda with ready := s.agenda.ready ++ woken } }

/-- Takes a step, tells everybody of what has changed, and wakes those who can go on. A step that
cannot be taken changes nothing. -/
def actWith (s : Simulation) (running : Option Task) (a : Client.Action) : Simulation :=
  match s.client.step? a with
  | some (c, effects) =>
    { s with client := tellAll c (untold c), effects := s.effects ++ effects }.wakeAll running
  | none => s

/-- Takes a step from outside. -/
def act (s : Simulation) (a : Client.Action) : Simulation :=
  s.actWith none a

/-- Changes the client from outside. -/
def alter (s : Simulation) (x : Client × List Client.Effect) : Simulation :=
  { s with client := tellAll x.1 (untold x.1), effects := s.effects ++ x.2 }.wakeAll none

/-- A reply arrives. -/
def deliver (s : Simulation) (running : Option Task) (d : Delivery) : Simulation :=
  s.actWith running (.receive d.peer d.id d.kind d.reply)

/-- A reply sets out: it arrives at once or begins to travel. -/
def dispatch (s : Simulation) (running : Option Task) (d : Delivery) : Simulation :=
  match d.travelMs with
  | none => s.deliver running d
  | some _ => { s with agenda := s.agenda.wake (.delivery d) }

/-- The transport does with a request what it does. -/
def transmit (s : Simulation) (flight : Nat) (p : Pursuit) (held : Assignment) (id : RequestId) :
    Simulation :=
  let running := some (Task.pursuit flight)
  let (sending, transport) :=
    s.transport.send id held.peer p.request.kind p.request.encode
  let s := { s with transport := transport }
  match sending with
  | .hangs => s
  | .refused => s.actWith running (.refuse flight)
  | .taken replies =>
    (replies.foldl (fun s d => s.dispatch running d) s).actWith running (.accept flight)

/-- Sets the alarm that goes with what a pursuit does. A pursuit that lingers keeps its time, and
one that does not wait has none. -/
def setAlarm (s : Simulation) (flight : Nat) : Simulation :=
  let cleared := s.agenda.clear flight
  let agenda := match s.client.pursuits.get? flight with
    | none => cleared
    | some p =>
      match p.stage with
      | .awaiting .. =>
        let timeout := s.client.settings.requestTimeoutMs.toNat * p.request.kind.timeoutFactor
        cleared.await (s.agenda.now + timeout) (.pursuit flight)
      | .lingering _ =>
        let grace := s.client.settings.peerWaitGraceMs.toNat
        cleared.await ((s.agenda.due? flight).getD (s.agenda.now + grace)) (.pursuit flight)
      | .missing => s.agenda
      | .rechecking _ => s.agenda
      | _ => cleared
  { s with agenda := agenda }

/-- A pursuit takes a step. Where it hands over a request, the transport takes its step too. -/
def advance (s : Simulation) (flight : Nat) (a : Client.Action) : Simulation :=
  let wasDispatching := (s.client.pursuits.get? flight).any fun p =>
    match p.stage with
    | .dispatching .. => true
    | _ => false
  let s := s.actWith (some (.pursuit flight)) a
  let s := match s.client.pursuits.get? flight with
    | some p =>
      match wasDispatching, p.stage with
      | true, .sending held t => s.transmit flight p held t.id
      | _, _ => s
    | none => s
  s.setAlarm flight

/-- A pursuit runs until it has to wait. -/
def runPursuit (flight : Nat) : Nat → Simulation → Simulation
  | 0, s => s
  | fuel + 1, s =>
    match s.pursuitAction? flight with
    | some a => runPursuit flight fuel (s.advance flight a)
    | none => s

/-- A call runs until it has to wait. -/
def runCaller (n : Nat) : Nat → Simulation → Simulation
  | 0, s => s
  | fuel + 1, s =>
    match s.callerAction? n with
    | some a => runCaller n fuel (s.actWith (some (.caller n)) a)
    | none => s

/-- A bound on the steps until everything waits: every pursuit tries every peer once, and every
outcome wakes every pursuit. -/
def budget (s : Simulation) : Nat :=
  let participants := s.client.registry.size + s.client.pursuits.length + s.client.callers.length
  let n := participants + s.agenda.ready.length + s.agenda.alarms.length + 16
  n * n * n * n

/-- A task runs until it has to wait. -/
def run (s : Simulation) (t : Task) : Simulation :=
  match t with
  | .caller n => runCaller n s.budget s
  | .pursuit n => runPursuit n s.budget s
  | .delivery d =>
    match d.travelMs.getD 0 with
    | 0 => s.deliver none d
    | ms =>
      let arriving := Task.delivery { d with travelMs := none }
      { s with agenda := s.agenda.await (s.agenda.now + ms) arriving }

/-- The next task that is ready, and the agenda without it. The last call goes when nothing else
is ready. -/
def nextTask? (s : Simulation) : Option (Task × Agenda) :=
  match s.agenda.ready with
  | t :: rest => some (t, { s.agenda with ready := rest })
  | [] =>
    match s.last with
    | some n => if (s.callerAction? n).isSome then some (.caller n, s.agenda) else none
    | none => none

/-- Everything runs until all have to wait. No time passes. -/
def settleWith : Nat → Simulation → Simulation
  | 0, s => s
  | fuel + 1, s =>
    match s.nextTask? with
    | some (t, agenda) => settleWith fuel ({ s with agenda := agenda }.run t)
    | none => s

/-- Everything runs until all have to wait. No time passes. -/
def settle (s : Simulation) : Simulation :=
  settleWith s.budget s

/-- Lets time pass until the goal is reached or nothing can happen any more, but not beyond a
limit. -/
def passWith (goal : Simulation → Bool) (limit : Option Nat) : Nat → Simulation → Simulation
  | 0, s => s
  | fuel + 1, s =>
    let s := s.settle
    if goal s then s
    else
      match s.agenda.next? with
      | none => s
      | some time =>
        if limit.any fun l => l < time then s
        else passWith goal limit fuel { s with agenda := s.agenda.ring time }

/-- Lets so many milliseconds pass. -/
def pass (s : Simulation) (ms : Nat) : Simulation :=
  let target := s.agenda.now + ms
  let s := passWith (fun _ => false) (some target) s.budget s
  { s with agenda := s.agenda.ring target }.settle

def isOver (n : Nat) (s : Simulation) : Bool :=
  (s.client.callers.get? n).any Caller.isOver

/-- Lets time pass until a call is over. -/
def finish (s : Simulation) (n : Nat) : Simulation :=
  passWith (isOver n) none s.budget s

def result? (s : Simulation) (n : Nat) : Option Retrieved :=
  (s.client.callers.get? n).bind Caller.result?

/-- Somebody asks for data. The number of the call comes with the new state. -/
def call (s : Simulation) (q : Query) : Nat × Simulation :=
  (s.client.nextCaller, s.act (.call q))

/-- Asks for data and waits for the result. A call that is canceled at once is over without having
done anything. -/
def ask (s : Simulation) (q : Query) (canceled : Bool) : Option Retrieved × Simulation :=
  let n := s.client.nextCaller
  let s := { s with last := some n }.act (.call q)
  let s := if canceled then s.act (.cancel n) else s
  let s := s.finish n
  (s.result? n, { s with last := none })

end Simulation

end LightClient
