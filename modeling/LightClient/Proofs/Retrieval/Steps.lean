/-
Module: LightClient.Proofs.Retrieval.Steps
Purpose: Everything that one step of the retrieval core can do, as relations with one rule for each
  way to take a step.
Main exports: Pursuit.Shift, Pursuit.Conclusion, Client.PursuitStep, Caller.Shift,
  Client.CallerStep, Client.Step, Client.step_of_step?
-/
import LightClient.Retrieval.Step

namespace LightClient

open Client (Action Effect)

variable [ItemCache] [DelaySeries]

/-! ### Pursuits -/

/-- A pursuit comes to a new stage, and nothing else changes. -/
inductive Pursuit.Shift (c : Client) (n : Nat) (p : Pursuit) :
    Action → Pursuit.Stage → List Effect → Prop where
  | look (stage : p.stage = .choosing) :
      Shift c n p (.pursue n) (.ranking c.generation) []
  | nobody {seen : Nat} (stage : p.stage = .ranking seen) (nobody : c.eligible p = []) :
      Shift c n p (.pursue n) .missing []
  | candidates {seen : Nat} (stage : p.stage = .ranking seen) (some : c.eligible p ≠ []) :
      Shift c n p (.pursue n) (.offering seen (c.eligible p)) []
  | park {seen : Nat} (stage : p.stage = .offering seen []) :
      Shift c n p (.pursue n) (.parked seen) []
  | busy {seen : Nat} {peer : PeerId} {rest : List PeerId}
      (stage : p.stage = .offering seen (peer :: rest))
      (busy : c.registry.tryBegin peer c.settings.maxInFlight.toNat = none) :
      Shift c n p (.pursue n) (.offering seen rest) []
  | unpark {seen : Nat} (stage : p.stage = .parked seen) (changed : seen ≠ c.generation) :
      Shift c n p (.pursue n) .choosing []
  | lookAgain (stage : p.stage = .missing) :
      Shift c n p (.pursue n) (.rechecking c.generation) []
  | linger {seen : Nat} (stage : p.stage = .rechecking seen) (nobody : c.eligible p = []) :
      Shift c n p (.pursue n) (.lingering seen) []
  | found {seen : Nat} (stage : p.stage = .rechecking seen) (some : c.eligible p ≠ []) :
      Shift c n p (.pursue n) .choosing []
  | stir {seen : Nat} (stage : p.stage = .lingering seen) (changed : seen ≠ c.generation) :
      Shift c n p (.pursue n) .missing []
  | present {held : Assignment} {t : Ticket} {record : PeerRecord}
      (stage : p.stage = .registered held t)
      (present : c.registry.find? held.peer = some record) :
      Shift c n p (.pursue n) (.dispatching held t) []
  | dispatch {held : Assignment} {t : Ticket} (stage : p.stage = .dispatching held t) :
      Shift c n p (.pursue n) (.sending held t)
        [.sent t.id held.peer p.request.kind p.request.encode]
  | accepted {held : Assignment} {t : Ticket} (stage : p.stage = .sending held t) :
      Shift c n p (.accept n) (.awaiting held t) []
  | despair {seen : Nat} (stage : p.stage = .lingering seen) :
      Shift c n p (.despair n) (.landing (.error p.exhausted)) []
  | withdraw {seen : Nat} (stage : p.stage = .parked seen) (aborted : p.aborted = true) :
      Shift c n p (.withdraw n) (.landing (.error .canceled)) []

/-- A pursuit stops to wait for a reply, with an outcome and a way to go on. -/
inductive Pursuit.Conclusion (c : Client) (n : Nat) (p : Pursuit) :
    Action → Assignment → Ticket → Outcome → Pursuit.Next → Prop where
  | absent {held : Assignment} {t : Ticket} (stage : p.stage = .registered held t)
      (absent : c.registry.find? held.peer = none) :
      Conclusion c n p (.pursue n) held t .abandoned .retry
  | refused {held : Assignment} {t : Ticket} (stage : p.stage = .sending held t) :
      Conclusion c n p (.refuse n) held t .failed .retry
  | proven {held : Assignment} {t : Ticket} {latency : Latency} {payload : Bytes} {item : Item}
      (stage : p.stage = .awaiting held t)
      (receipt : c.router.receipt t = .reply (.data payload))
      (proven : verify p.request held.peer payload = .ok item) :
      Conclusion c n p (.collect n latency) held t (.success latency) (.finish (.ok item))
  | flawed {held : Assignment} {t : Ticket} {latency : Latency} {payload : Bytes}
      {e : RetrievalError} (stage : p.stage = .awaiting held t)
      (receipt : c.router.receipt t = .reply (.data payload))
      (flawed : verify p.request held.peer payload = .error e) (peerLocal : e.isPeerLocal = true) :
      Conclusion c n p (.collect n latency) held t .invalidProof .retry
  | failed {held : Assignment} {t : Ticket} {latency : Latency} {payload : Bytes}
      {e : RetrievalError} (stage : p.stage = .awaiting held t)
      (receipt : c.router.receipt t = .reply (.data payload))
      (failed : verify p.request held.peer payload = .error e)
      (notPeerLocal : e.isPeerLocal = false) :
      Conclusion c n p (.collect n latency) held t .abandoned (.finish (.error e))
  | declined {held : Assignment} {t : Ticket} {latency : Latency} (stage : p.stage = .awaiting held t)
      (receipt : c.router.receipt t = .reply .cannotServe) :
      Conclusion c n p (.collect n latency) held t .cannotServe .retry
  | left {held : Assignment} {t : Ticket} {latency : Latency} {peer : PeerId}
      (stage : p.stage = .awaiting held t) (receipt : c.router.receipt t = .peerGone peer) :
      Conclusion c n p (.collect n latency) held t .abandoned .retry
  | closed {held : Assignment} {t : Ticket} {latency : Latency} (stage : p.stage = .awaiting held t)
      (receipt : c.router.receipt t = .closed) :
      Conclusion c n p (.collect n latency) held t .abandoned .retry
  | expired {held : Assignment} {t : Ticket} (stage : p.stage = .awaiting held t) :
      Conclusion c n p (.expire n) held t .timeout .retry
  | stopSending {held : Assignment} {t : Ticket} (stage : p.stage = .sending held t)
      (aborted : p.aborted = true) :
      Conclusion c n p (.stop n) held t .abandoned .stop
  | stopAwaiting {held : Assignment} {t : Ticket} (stage : p.stage = .awaiting held t)
      (aborted : p.aborted = true) :
      Conclusion c n p (.stop n) held t .abandoned .stop

/-- A pursuit that holds no place waits for something. -/
inductive Pursuit.Idle (p : Pursuit) : Prop where
  | choosing (stage : p.stage = .choosing)
  | parked {seen : Nat} (stage : p.stage = .parked seen)
  | lingering {seen : Nat} (stage : p.stage = .lingering seen)

namespace Pursuit

section

variable {c : Client} {n : Nat} {p : Pursuit} {a : Action} {held : Assignment} {t : Ticket}
  {outcome : Outcome} {next : Next} {stage : Stage} {effects : List Effect}

/-- A pursuit that goes on by itself keeps the place that it holds. -/
theorem Shift.assignment? (h : p.Shift c n a stage effects) :
    ({ p with stage := stage } : Pursuit).assignment? = p.assignment? := by
  cases h <;> simp only [Pursuit.assignment?, *]

/-- A pursuit that goes on by itself keeps its ticket. -/
theorem Shift.ticket? (h : p.Shift c n a stage effects) :
    ({ p with stage := stage } : Pursuit).ticket? = p.ticket? := by
  cases h <;> simp only [Pursuit.ticket?, *]

theorem Shift.flight? (h : p.Shift c n a stage effects) : a.flight? = some n := by
  cases h <;> rfl

theorem Conclusion.assignment? (h : p.Conclusion c n a held t outcome next) :
    p.assignment? = some held := by
  cases h <;> simp only [Pursuit.assignment?, *]

theorem Conclusion.ticket? (h : p.Conclusion c n a held t outcome next) :
    p.ticket? = some t := by
  cases h <;> simp only [Pursuit.ticket?, *]

theorem Conclusion.flight? (h : p.Conclusion c n a held t outcome next) :
    a.flight? = some n := by
  cases h <;> rfl

omit [ItemCache] [DelaySeries] in
theorem Idle.assignment? (h : p.Idle) : p.assignment? = none := by
  cases h <;> simp only [Pursuit.assignment?, *]

end

end Pursuit

namespace Client

/-- What a step of one pursuit can do. -/
inductive PursuitStep (c : Client) (n : Nat) (p : Pursuit) :
    Action → Client → List Effect → Prop where
  | shift {a : Action} {stage : Pursuit.Stage} {effects : List Effect}
      (shift : p.Shift c n a stage effects) :
      PursuitStep c n p a (c.move n stage) effects
  | assign {seen : Nat} {peer : PeerId} {rest : List PeerId} {registry : Registry}
      (stage : p.stage = .offering seen (peer :: rest))
      (begun : c.registry.tryBegin peer c.settings.maxInFlight.toNat = some registry) :
      PursuitStep c n p (.pursue n)
        { c with
          registry := registry
          pursuits := c.pursuits.insert n
            (p.assign ⟨peer, ((registry.find? peer).map PeerRecord.seq).getD 0⟩) } []
  | register {held : Assignment} (stage : p.stage = .assigned held) :
      PursuitStep c n p (.pursue n)
        ({ c with router := (c.router.register held.peer p.request.kind).2 }.move n
          (.registered held (c.router.register held.peer p.request.kind).1)) []
  | conclude {a : Action} {held : Assignment} {t : Ticket} {outcome : Outcome}
      {next : Pursuit.Next} (conclusion : p.Conclusion c n a held t outcome next) :
      PursuitStep c n p a (c.conclude n held t outcome next) []
  | release {held : Assignment} {outcome : Outcome} {next : Pursuit.Next}
      (stage : p.stage = .releasing held outcome next) :
      PursuitStep c n p (.pursue n) ((c.report held.peer outcome).1.proceed n next)
        (c.report held.peer outcome).2
  | land {result : Retrieved} (stage : p.stage = .landing result) :
      PursuitStep c n p (.pursue n) (c.land n p.key result) []
  | hand {result : Retrieved} {waiters : Table Nat Nat} {waiter caller : Nat}
      (stage : p.stage = .handing result waiters) (next : waiters.get? waiter = some caller) :
      PursuitStep c n p (.serve n waiter)
        ((c.hand ⟨p.key, n, waiter⟩ caller result).move n
          (.handing result (waiters.erase waiter))) []
  | retire {result : Retrieved} (stage : p.stage = .handing result []) :
      PursuitStep c n p (.pursue n) (c.retire n) []
  | stop (idle : p.Idle) (aborted : p.aborted = true) :
      PursuitStep c n p (.stop n) (c.retire n) []

end Client

/-! ### Callers -/

/-- A caller waits for something. -/
inductive Caller.Waits (x : Caller) : Prop where
  | resolving {trie : HelperTrie} {index : UInt64} {key : Bytes} {minHead : UInt64}
      (stage : x.stage = .resolving trie index key minHead)
  | waiting {seat : Caller.Seat} (stage : x.stage = .waiting seat)
  | handed {seat : Caller.Seat} {result : Retrieved} (stage : x.stage = .handed seat result)

/-- A caller comes to a new stage, and nothing else changes. -/
inductive Caller.Shift (c : Client) (n : Nat) (x : Caller) :
    Action → Caller.Stage → List Effect → Prop where
  | canceledEarly (stage : x.stage = .asking) (canceled : x.canceled = true) :
      Shift c n x (.bind n) (.returned (.error .canceled)) []
  | atOnce {item : Item} (stage : x.stage = .asking) (wanted : x.canceled = false)
      (atOnce : x.query.atOnce = some item) :
      Shift c n x (.bind n) (.returned (.ok item)) []
  | unbindable {e : RetrievalError} (stage : x.stage = .asking) (wanted : x.canceled = false)
      (notAtOnce : x.query.atOnce = none) (binding : x.query.binding c.settings = .error e) :
      Shift c n x (.bind n) (.returned (.error e)) []
  | bind {r : Request} (stage : x.stage = .asking) (wanted : x.canceled = false)
      (notAtOnce : x.query.atOnce = none)
      (binding : x.query.binding c.settings = .ok (.complete r)) :
      Shift c n x (.bind n) (.bound r) []
  | lookUp {trie : HelperTrie} {index : UInt64} {key : Bytes} {minHead : UInt64}
      (stage : x.stage = .asking) (wanted : x.canceled = false)
      (notAtOnce : x.query.atOnce = none)
      (binding : x.query.binding c.settings = .ok (.perSection trie index key minHead)) :
      Shift c n x (.bind n) (.resolving trie index key minHead) [.lookedUp trie index]
  | resolved {trie : HelperTrie} {index : UInt64} {key : Bytes} {minHead : UInt64}
      {answer : SectionRoots.Answer} {root : Digest}
      (stage : x.stage = .resolving trie index key minHead)
      (accepted : SectionRoots.accept trie index answer = .ok root) :
      Shift c n x (.resolve n answer) (.bound (.helperTrieProof trie index root key minHead)) []
  | unresolved {trie : HelperTrie} {index : UInt64} {key : Bytes} {minHead : UInt64}
      {answer : SectionRoots.Answer} {e : RetrievalError}
      (stage : x.stage = .resolving trie index key minHead)
      (refused : SectionRoots.accept trie index answer = .error e) :
      Shift c n x (.resolve n answer) (.returned (.error e)) []
  | canceledBound {r : Request} (stage : x.stage = .bound r) (canceled : x.canceled = true) :
      Shift c n x (.enter n) (.returned (.error .canceled)) []
  | take {seat : Caller.Seat} {result : Retrieved} (stage : x.stage = .handed seat result) :
      Shift c n x (.take n) (.returned result) []
  | lose {seat : Caller.Seat} (stage : x.stage = .waiting seat)
      (unserved : c.isServed seat = false) :
      Shift c n x (.take n) (.returned (.error .noOutcome)) []

namespace Client

/-- What a step of one caller can do. -/
inductive CallerStep (c : Client) (n : Nat) (x : Caller) :
    Action → Client → List Effect → Prop where
  | shift {a : Action} {stage : Caller.Stage} {effects : List Effect}
      (shift : x.Shift c n a stage effects) :
      CallerStep c n x a (c.place n stage) effects
  | cancel :
      CallerStep c n x (.cancel n)
        { c with callers := c.callers.insert n { x with canceled := true } } []
  | drop (going : x.isOver = false) :
      CallerStep c n x (.drop n) (c.depart n x .dropped) []
  | quit (waits : x.Waits) (canceled : x.canceled = true) :
      CallerStep c n x (.quit n) (c.depart n x (.returned (.error .canceled))) []
  | join {r : Request} {f : Flight} (stage : x.stage = .bound r) (wanted : x.canceled = false)
      (flight : c.flights.get? r.key = some f) :
      CallerStep c n x (.enter n)
        ({ c with flights := c.flights.insert r.key (f.join n) }.place n
          (.waiting ⟨r.key, f.id, f.nextWaiter⟩)) []
  | stored {r : Request} {item : Item} (stage : x.stage = .bound r) (wanted : x.canceled = false)
      (noFlight : c.flights.get? r.key = none) (stored : (c.store.get r.key).1 = some item) :
      CallerStep c n x (.enter n)
        ({ c with store := (c.store.get r.key).2 }.place n (.returned (.ok item))) []
  | begin {r : Request} (stage : x.stage = .bound r) (wanted : x.canceled = false)
      (noFlight : c.flights.get? r.key = none) (missing : (c.store.get r.key).1 = none) :
      CallerStep c n x (.enter n)
        ({ c with
          store := (c.store.get r.key).2
          flights := c.flights.insert r.key (Flight.begin c.nextFlight n)
          nextFlight := c.nextFlight + 1
          pursuits := c.pursuits.insert c.nextFlight (Pursuit.fresh r) }.place n
            (.waiting ⟨r.key, c.nextFlight, 0⟩)) []

/-! ### All together -/

/-- What a step can do. -/
inductive Step (c : Client) : Action → Client → List Effect → Prop where
  | call (query : Query) :
      Step c (.call query)
        { c with
          callers := c.callers.insert c.nextCaller (Caller.fresh query)
          nextCaller := c.nextCaller + 1 } []
  | register (info : PeerInfo) :
      Step c (.register info) (c.change (c.registry.register info)).1
        (c.change (c.registry.register info)).2
  | unregister (peer : PeerId) :
      Step c (.unregister peer) (c.change (c.registry.unregister peer)).1
        (c.change (c.registry.unregister peer)).2
  | announce (peer : PeerId) (head : Head) :
      Step c (.announce peer head) (c.change (c.registry.announce peer head)).1
        (c.change (c.registry.announce peer head)).2
  | notify {now index : Nat} {c' : Client} (told : c.notify now index = some c') :
      Step c (.notify now index) c' []
  | receive (peer : PeerId) (id : RequestId) (kind : RequestKind) (reply : Reply) :
      Step c (.receive peer id kind reply)
        { c with router := c.router.receive peer id kind reply } []
  | caller {n : Nat} {x : Caller} {a : Action} {c' : Client} {effects : List Effect}
      (caller : c.callers.get? n = some x) (step : c.CallerStep n x a c' effects) :
      Step c a c' effects
  | pursuit {n : Nat} {p : Pursuit} {a : Action} {c' : Client} {effects : List Effect}
      (pursuit : c.pursuits.get? n = some p) (step : c.PursuitStep n p a c' effects) :
      Step c a c' effects

variable {c c' : Client} {n : Nat} {a : Action} {effects : List Effect}

/-! ### Every step follows a rule -/

/-- The step function of a pursuit does what the rules allow. -/
theorem pursuitStep_of_pursue? {p : Pursuit} (h : c.pursue? n p = some (c', effects)) :
    c.PursuitStep n p (.pursue n) c' effects := by
  unfold pursue? at h
  split at h
  next stage =>
    cases h
    exact .shift (.look stage)
  next seen stage =>
    split at h
    next nobody =>
      cases h
      exact .shift (.nobody stage nobody)
    next some =>
      cases h
      exact .shift (.candidates stage some)
  next seen stage =>
    cases h
    exact .shift (.park stage)
  next seen peer rest stage =>
    unfold offer at h
    split at h
    next registry begun =>
      cases h
      exact .assign stage begun
    next busy =>
      cases h
      exact .shift (.busy stage busy)
  next seen stage =>
    split at h
    · cases h
    next changed =>
      cases h
      exact .shift (.unpark stage changed)
  next stage =>
    cases h
    exact .shift (.lookAgain stage)
  next seen stage =>
    split at h
    next nobody =>
      cases h
      exact .shift (.linger stage nobody)
    next some =>
      cases h
      exact .shift (.found stage some)
  next seen stage =>
    split at h
    · cases h
    next changed =>
      cases h
      exact .shift (.stir stage changed)
  next held stage =>
    cases h
    exact .register stage
  next held t stage =>
    split at h
    next record present =>
      cases h
      exact .shift (.present stage present)
    next absent =>
      cases h
      exact .conclude (.absent stage absent)
  next held t stage =>
    cases h
    exact .shift (.dispatch stage)
  next held outcome next stage =>
    cases h
    exact .release stage
  next result stage =>
    cases h
    exact .land stage
  next result stage =>
    cases h
    exact .retire stage
  next => cases h
  next => cases h
  next => cases h

theorem pursuitStep_of_collect? {p : Pursuit} {held : Assignment} {t : Ticket} {latency : Latency}
    (stage : p.stage = .awaiting held t) (h : c.collect? n p held t latency = some c') :
    c.PursuitStep n p (.collect n latency) c' [] := by
  unfold collect? at h
  split at h
  next => cases h
  next payload receipt =>
    split at h
    next item proven =>
      cases h
      exact .conclude (.proven stage receipt proven)
    next e wrong =>
      split at h
      next peerLocal =>
        cases h
        exact .conclude (.flawed stage receipt wrong peerLocal)
      next notPeerLocal =>
        cases h
        exact .conclude (.failed stage receipt wrong (Bool.eq_false_iff.mpr notPeerLocal))
  next receipt =>
    cases h
    exact .conclude (.declined stage receipt)
  next peer receipt =>
    cases h
    exact .conclude (.left stage receipt)
  next receipt =>
    cases h
    exact .conclude (.closed stage receipt)

theorem pursuitStep_of_serve? {p : Pursuit} {waiter : Nat} (h : c.serve? n p waiter = some c') :
    c.PursuitStep n p (.serve n waiter) c' [] := by
  unfold serve? at h
  split at h
  next result waiters stage =>
    obtain ⟨caller, hnext, heq⟩ := Option.map_eq_some_iff.mp h
    cases heq
    exact .hand stage hnext
  next => cases h

theorem pursuitStep_of_stop? {p : Pursuit} (h : c.stop? n p = some c') :
    c.PursuitStep n p (.stop n) c' [] := by
  unfold stop? at h
  split at h
  next aborted =>
    split at h
    next stage =>
      cases h
      exact .stop (.choosing stage) aborted
    next seen stage =>
      cases h
      exact .stop (.parked stage) aborted
    next seen stage =>
      cases h
      exact .stop (.lingering stage) aborted
    next held t stage =>
      cases h
      exact .conclude (.stopSending stage aborted)
    next held t stage =>
      cases h
      exact .conclude (.stopAwaiting stage aborted)
    next => cases h
  next => cases h

/-- The number of the flight in an action is that of the pursuit which takes the step. -/
theorem pursuitStep_of_pursuitStep? {p : Pursuit} (hflight : a.flight? = some n)
    (h : c.pursuitStep? n p a = some (c', effects)) : c.PursuitStep n p a c' effects := by
  cases a with
  | pursue flight =>
    cases hflight
    exact pursuitStep_of_pursue? h
  | accept flight =>
    cases hflight
    simp only [pursuitStep?] at h
    split at h
    next held t stage =>
      cases h
      exact .shift (.accepted stage)
    next => cases h
  | refuse flight =>
    cases hflight
    simp only [pursuitStep?] at h
    split at h
    next held t stage =>
      cases h
      exact .conclude (.refused stage)
    next => cases h
  | collect flight latency =>
    cases hflight
    simp only [pursuitStep?] at h
    split at h
    next held t stage =>
      obtain ⟨d, hd, heq⟩ := Option.map_eq_some_iff.mp h
      cases heq
      exact pursuitStep_of_collect? stage hd
    next => cases h
  | expire flight =>
    cases hflight
    simp only [pursuitStep?] at h
    split at h
    next held t stage =>
      cases h
      exact .conclude (.expired stage)
    next => cases h
  | despair flight =>
    cases hflight
    simp only [pursuitStep?] at h
    split at h
    next seen stage =>
      cases h
      exact .shift (.despair stage)
    next => cases h
  | stop flight =>
    cases hflight
    obtain ⟨d, hd, heq⟩ := Option.map_eq_some_iff.mp h
    cases heq
    exact pursuitStep_of_stop? hd
  | withdraw flight =>
    cases hflight
    simp only [pursuitStep?] at h
    split at h
    next seen aborted stage =>
      cases h
      exact .shift (.withdraw stage aborted)
    next => cases h
  | serve flight waiter =>
    cases hflight
    obtain ⟨d, hd, heq⟩ := Option.map_eq_some_iff.mp h
    cases heq
    exact pursuitStep_of_serve? hd
  | _ => cases hflight

theorem callerStep_of_bind {x : Caller} (stage : x.stage = .asking)
    (h : c.bind n x = (c', effects)) : c.CallerStep n x (.bind n) c' effects := by
  unfold bind at h
  split at h
  next canceled =>
    cases h
    exact .shift (.canceledEarly stage canceled)
  next wanted =>
    rw [Bool.not_eq_true] at wanted
    split at h
    next item atOnce =>
      cases h
      exact .shift (.atOnce stage wanted atOnce)
    next notAtOnce =>
      split at h
      next e binding =>
        cases h
        exact .shift (.unbindable stage wanted notAtOnce binding)
      next r binding =>
        cases h
        exact .shift (.bind stage wanted notAtOnce binding)
      next trie index key minHead binding =>
        cases h
        exact .shift (.lookUp stage wanted notAtOnce binding)

theorem callerStep_of_enter {x : Caller} {r : Request} (stage : x.stage = .bound r)
    (wanted : x.canceled = false) : c.CallerStep n x (.enter n) (c.enter n r) [] := by
  unfold enter
  simp only
  split
  next f flight => exact .join stage wanted flight
  next noFlight =>
    split
    next item store hget =>
      have hstored : c.CallerStep n x (.enter n) _ _ :=
        .stored stage wanted noFlight (congrArg Prod.fst hget)
      rwa [hget] at hstored
    next store hget =>
      have hmissing : c.CallerStep n x (.enter n) _ _ :=
        .begin stage wanted noFlight (congrArg Prod.fst hget)
      rwa [hget] at hmissing

/-- The number of the caller in an action is that of the caller who takes the step. -/
theorem callerStep_of_callerStep? {x : Caller} (hcaller : a.caller? = some n)
    (h : c.callerStep? n x a = some (c', effects)) : c.CallerStep n x a c' effects := by
  cases a with
  | cancel caller =>
    cases hcaller
    cases h
    exact .cancel
  | drop caller =>
    cases hcaller
    simp only [callerStep?] at h
    split at h
    next => cases h
    next going =>
      cases h
      exact .drop (Bool.eq_false_iff.mpr going)
  | bind caller =>
    cases hcaller
    simp only [callerStep?] at h
    split at h
    next stage => exact callerStep_of_bind stage (Option.some.inj h)
    next => cases h
  | resolve caller answer =>
    cases hcaller
    simp only [callerStep?] at h
    split at h
    next trie index key minHead stage =>
      split at h
      next root accepted =>
        cases h
        exact .shift (.resolved stage accepted)
      next e refused =>
        cases h
        exact .shift (.unresolved stage refused)
    next => cases h
  | enter caller =>
    cases hcaller
    simp only [callerStep?] at h
    split at h
    next r stage =>
      split at h
      next canceled =>
        cases h
        exact .shift (.canceledBound stage canceled)
      next wanted =>
        cases h
        exact callerStep_of_enter stage (Bool.eq_false_iff.mpr wanted)
    next => cases h
  | take caller =>
    cases hcaller
    obtain ⟨d, hd, heq⟩ := Option.map_eq_some_iff.mp h
    cases heq
    unfold take? at hd
    split at hd
    next seat result stage =>
      cases hd
      exact .shift (.take stage)
    next seat stage =>
      split at hd
      next => cases hd
      next unserved =>
        cases hd
        exact .shift (.lose stage (Bool.eq_false_iff.mpr unserved))
    next => cases hd
  | quit caller =>
    cases hcaller
    simp only [callerStep?] at h
    split at h
    next trie index key minHead canceled stage =>
      cases h
      exact .quit (.resolving stage) canceled
    next seat canceled stage =>
      cases h
      exact .quit (.waiting stage) canceled
    next seat result canceled stage =>
      cases h
      exact .quit (.handed stage) canceled
    next => cases h
  | _ => cases hcaller

/-- Every step follows one of the rules. -/
theorem step_of_step? (h : c.step? a = some (c', effects)) : c.Step a c' effects := by
  have hcallers : ∀ m, a.caller? = some m →
      ((c.callers.get? m).bind fun x => c.callerStep? m x a) = some (c', effects) →
      c.Step a c' effects := by
    intro m hm h
    obtain ⟨x, hx, hstep⟩ := Option.bind_eq_some_iff.mp h
    exact .caller hx (callerStep_of_callerStep? hm hstep)
  have hpursuits : ∀ m, a.flight? = some m →
      ((c.pursuits.get? m).bind fun p => c.pursuitStep? m p a) = some (c', effects) →
      c.Step a c' effects := by
    intro m hm h
    obtain ⟨p, hp, hstep⟩ := Option.bind_eq_some_iff.mp h
    exact .pursuit hp (pursuitStep_of_pursuitStep? hm hstep)
  cases a with
  | call query =>
    cases h
    exact .call query
  | register info =>
    cases h
    exact .register info
  | unregister peer =>
    cases h
    exact .unregister peer
  | announce peer head =>
    cases h
    exact .announce peer head
  | notify now index =>
    obtain ⟨d, hd, heq⟩ := Option.map_eq_some_iff.mp h
    cases heq
    exact .notify hd
  | receive peer id kind reply =>
    cases h
    exact .receive peer id kind reply
  | cancel m => exact hcallers m rfl h
  | drop m => exact hcallers m rfl h
  | bind m => exact hcallers m rfl h
  | resolve m answer => exact hcallers m rfl h
  | enter m => exact hcallers m rfl h
  | take m => exact hcallers m rfl h
  | quit m => exact hcallers m rfl h
  | pursue m => exact hpursuits m rfl h
  | accept m => exact hpursuits m rfl h
  | refuse m => exact hpursuits m rfl h
  | collect m latency => exact hpursuits m rfl h
  | expire m => exact hpursuits m rfl h
  | despair m => exact hpursuits m rfl h
  | stop m => exact hpursuits m rfl h
  | withdraw m => exact hpursuits m rfl h
  | serve m _ => exact hpursuits m rfl h

/-! ### What the parts of a step leave alone -/

/-- Handing a result to a caller changes callers only. -/
theorem hand_eq (c : Client) (seat : Caller.Seat) (caller : Nat) (result : Retrieved) :
    c.hand seat caller result = { c with callers := (c.hand seat caller result).callers } := by
  unfold hand
  split
  · split <;> rfl
  · rfl

/-- Telling a listener of a change touches no flight, no pursuit and no caller. -/
theorem notify_eq {now index : Nat} (h : c.notify now index = some c') :
    c' = { c with
      notices := c'.notices, generation := c'.generation, pool := c'.pool, router := c'.router } := by
  unfold notify at h
  split at h
  · cases h
  · cases h
    rfl
  next e listener rest _ =>
    cases h
    cases listener with
    | router => cases e <;> rfl
    | _ => rfl

/-- Giving up a place changes flights and pursuits only. -/
theorem leave_eq (c : Client) (seat : Caller.Seat) :
    c.leave seat =
      { c with flights := (c.leave seat).flights, pursuits := (c.leave seat).pursuits } := by
  unfold leave
  simp only
  split <;> rfl

/-- A caller that departs changes its own stage, and flights and pursuits as it gives up its place. -/
theorem depart_eq (c : Client) (n : Nat) (x : Caller) (stage : Caller.Stage) :
    c.depart n x stage =
      { c.place n stage with
        flights := (c.depart n x stage).flights, pursuits := (c.depart n x stage).pursuits } := by
  unfold depart
  split
  · rw [leave_eq]
    rfl
  · rfl

end Client

end LightClient
