/-
Module: LightClient.Proofs.Retrieval.Records
Purpose: How callers and pursuits have come to where they are: a caller that waits was given its
  place when it entered, a result that is handed out was brought by the flight that landed with it,
  and what callers return was found in the store or brought by their own flight.
Main exports: Landed, Settled, Client.Recorded, Run.recorded, Run.flights_attended
-/
import LightClient.Proofs.Retrieval.History
import LightClient.Proofs.Verification.Checks
import LightClient.Simulation.Libraries

namespace LightClient

open Client (Action Effect)

/-- What is wrong with a reply is blamed on the peer. -/
theorem verify_error {r : Request} {peer : PeerId} {data : Bytes} {e : RetrievalError}
    (h : verify r peer data = .error e) : e.isPeerLocal = true := by
  unfold verify at h
  split at h
  · cases h
  · cases h
    rfl

section

variable [ItemCache] [DelaySeries]

theorem Seen.now {past : List Moment} {kind : Moment → Prop} {m : Moment} (h : kind m) :
    Seen (m :: past) kind :=
  ⟨m, List.mem_cons_self, h⟩

/-- What has been seen was seen now or before. -/
theorem seen_cons {past : List Moment} {kind : Moment → Prop} {m : Moment} :
    Seen (m :: past) kind ↔ kind m ∨ Seen past kind := by
  simp [Seen]

/-- The caller has gone to look for the answer to this request. -/
def Entered (past : List Moment) (n : Nat) (r : Request) : Prop :=
  Seen past fun m => m.Enters n r

/-- The caller was given this place when it entered, under the key of its request. -/
def Seated (past : List Moment) (n : Nat) (seat : Caller.Seat) : Prop :=
  Seen past (fun m => m.Seats n seat) ∧ (∃ r, Entered past n r) ∧
    ∀ r, Entered past n r → r.key = seat.key

/-- The flight at which the caller had this place has landed with this result. -/
def Landed (past : List Moment) (n : Nat) (seat : Caller.Seat) (result : Retrieved) : Prop :=
  ∃ f, f.id = seat.flight ∧ f.waiters.get? seat.waiter = some n ∧
    Seen past fun m => m.Lands seat.key f result

/-- A caller that entered with this request has its result from the store, which had the item then,
or from the flight at which it was given a place. -/
def Settled (past : List Moment) (n : Nat) (r : Request) (result : Retrieved) : Prop :=
  (∃ item, result = .ok item ∧ Seen past fun m => m.Enters n r ∧
    m.before.flights.get? r.key = none ∧ (m.before.store.get r.key).1 = some item) ∨
  ∃ seat, seat.key = r.key ∧ Seen past (fun m => m.Seats n seat) ∧ Landed past n seat result

section

variable {past : List Moment} {m : Moment} {n : Nat} {r : Request} {seat : Caller.Seat}
  {result : Retrieved}

/-- A moment that is no entry of the caller enters no request for it. -/
theorem entered_cons (hother : m.action ≠ .enter n) :
    Entered (m :: past) n r ↔ Entered past n r := by
  apply seen_cons.trans
  apply or_iff_right
  exact fun henters => hother henters.1

theorem Seated.later (h : Seated past n seat)
    (hentered : ∀ r, Entered (m :: past) n r → Entered past n r) : Seated (m :: past) n seat := by
  obtain ⟨hseen, ⟨r, hr⟩, hkey⟩ := h
  exact ⟨hseen.later, ⟨r, Seen.later hr⟩, fun r hr => hkey r (hentered r hr)⟩

/-- What has landed once has landed for good. -/
theorem Landed.later (h : Landed past n seat result) : Landed (m :: past) n seat result := by
  obtain ⟨f, hid, hwaiter, hseen⟩ := h
  exact ⟨f, hid, hwaiter, hseen.later⟩

theorem Settled.later (h : Settled past n r result) : Settled (m :: past) n r result := by
  rcases h with ⟨item, hitem, hseen⟩ | ⟨seat, hkey, hseen, hlanded⟩
  · exact .inl ⟨item, hitem, hseen.later⟩
  · exact .inr ⟨seat, hkey, hseen.later, hlanded.later⟩

end

/-! ### Pursuits -/

namespace Pursuit

/-- A result that is handed out was brought by the flight, for those that waited for it then; and a
pursuit that has not been aborted comes to no cancellation. -/
structure Recorded (past : List Moment) (n : Nat) (p : Pursuit) : Prop where
  handing : ∀ result waiters, p.stage = .handing result waiters →
    ∃ f, f.id = n ∧ (∀ waiter m, (waiter, m) ∈ waiters → f.waiters.get? waiter = some m) ∧
      Seen past fun m => m.Lands p.key f result
  sincere : p.aborted = false → ∀ e, p.result? = some (.error e) → e ≠ .canceled ∧ e ≠ .noOutcome

variable {c : Client} {n : Nat} {p p' : Pursuit} {a : Action} {past : List Moment}
  {effects : List Effect}

theorem Recorded.later {m : Moment} (h : p.Recorded past n) : p.Recorded (m :: past) n where
  handing result waiters hstage := by
    obtain ⟨f, hid, hwaiters, hseen⟩ := h.handing result waiters hstage
    exact ⟨f, hid, hwaiters, hseen.later⟩
  sincere := h.sincere

/-- A pursuit that has neither landed nor come to a result has nothing to show. -/
theorem Recorded.of_none (hresult : p.result? = none) : p.Recorded past n where
  handing result waiters hstage := by
    rw [Pursuit.result?, hstage] at hresult
    cases hresult
  sincere _ e he := by
    rw [hresult] at he
    cases he

/-- A pursuit that comes to a result by itself has not been aborted, or there is nobody left to
ask. -/
theorem Shift.sincere {stage : Stage} (h : p.Shift c n a stage effects)
    (haborted : p.aborted = false) {e : RetrievalError}
    (he : ({ p with stage := stage } : Pursuit).result? = some (.error e)) :
    e ≠ .canceled ∧ e ≠ .noOutcome := by
  cases h with
  | despair =>
    cases he
    unfold exhausted
    split <;> simp
  | withdraw _ aborted =>
    rw [haborted] at aborted
    cases aborted
  | _ => cases he

/-- The replies of peers bring no error that ends a pursuit. -/
theorem Conclusion.not_error {held : Assignment} {t : Ticket} {outcome : Outcome} {next : Next}
    (h : p.Conclusion c n a held t outcome next) (e : RetrievalError) :
    next ≠ .finish (.error e) := by
  cases h with
  | failed _ _ failed notPeerLocal =>
    rw [verify_error failed] at notPeerLocal
    cases notPeerLocal
  | _ => exact fun heq => nomatch heq

theorem Shift.not_handing {stage : Stage} (h : p.Shift c n a stage effects) (result : Retrieved)
    (waiters : List (Nat × Nat)) : stage ≠ .handing result waiters := by
  cases h <;> exact fun heq => nomatch heq

/-- A pursuit that progresses by a rule has its new stage on record. -/
theorem Recorded.progress (h : p.Recorded past n) (hpursuit : c.pursuits.get? n = some p)
    (hprogress : p.Progress c n a p')
    (horderly : c.flights.All fun _ f => f.waiters.Unique) :
    p'.Recorded (⟨c, a, effects⟩ :: past) n := by
  have hlater := h.later (m := ⟨c, a, effects⟩)
  cases hprogress with
  | rest => exact hlater
  | abort => exact ⟨hlater.handing, fun heq => nomatch heq⟩
  | shift hshift =>
    constructor
    · intro result waiters hstage
      exact absurd hstage (hshift.not_handing result waiters)
    · intro haborted e he
      exact hshift.sincere haborted he
  | assign => exact .of_none rfl
  | register => exact .of_none rfl
  | @conclude _ held t outcome next conclusion =>
    constructor
    · exact fun result waiters hstage => nomatch hstage
    · intro _ e he
      cases next with
      | finish result =>
        cases he
        exact absurd rfl (conclusion.not_error e)
      | _ => cases he
  | retry => exact .of_none rfl
  | finish stage =>
    constructor
    · exact fun result waiters hstage => nomatch hstage
    · intro haborted e he
      cases he
      exact hlater.sincere haborted e (by rw [Pursuit.result?, stage])
  -- those who are handed the result are the waiters of the flight that lands now
  | @land result f stage flight =>
    obtain ⟨hget, hid⟩ := Flights.current?_eq_some.mp flight
    constructor
    · rintro result' waiters hstage
      cases hstage
      subst hid
      exact ⟨f, rfl, fun waiter m => Table.get?_of_mem (horderly _ f hget),
        .now ⟨hget, rfl, p, hpursuit, stage⟩⟩
    · intro haborted e he
      cases he
      exact hlater.sincere haborted e (by rw [Pursuit.result?, stage])
  | @hand result waiters served stage =>
    constructor
    · rintro result' waiters' hstage
      cases hstage
      obtain ⟨f, hid, hwaiters, hseen⟩ := hlater.handing _ _ stage
      exact ⟨f, hid, fun waiter m hw => hwaiters waiter m (List.mem_of_mem_filter hw), hseen⟩
    · intro haborted e he
      cases he
      exact hlater.sincere haborted e (by rw [Pursuit.result?, stage])

end Pursuit

/-! ### Callers -/

namespace Caller

/-- How a caller has come to where it is. -/
def Recorded (past : List Moment) (n : Nat) (x : Caller) : Prop :=
  match x.stage with
  | .waiting seat => Seated past n seat
  | .handed seat result => Seated past n seat ∧ Landed past n seat result
  | .returned result => x.canceled = false → ∀ r, Entered past n r → Settled past n r result
  | .dropped => True
  | _ => ∀ r, ¬ Entered past n r

variable {c : Client} {n : Nat} {x x' : Caller} {a : Action} {past : List Moment}
  {effects : List Effect}

theorem Recorded.later {m : Moment} (h : x.Recorded past n)
    (hentered : ∀ r, Entered (m :: past) n r → Entered past n r) : x.Recorded (m :: past) n := by
  unfold Recorded at h ⊢
  cases hstage : x.stage with
  | asking =>
    rw [hstage] at h
    exact fun r hr => h r (hentered r hr)
  | resolving =>
    rw [hstage] at h
    exact fun r hr => h r (hentered r hr)
  | bound =>
    rw [hstage] at h
    exact fun r hr => h r (hentered r hr)
  | waiting seat =>
    rw [hstage] at h
    exact h.later hentered
  | handed seat result =>
    rw [hstage] at h
    exact ⟨h.1.later hentered, h.2.later⟩
  | returned result =>
    rw [hstage] at h
    exact fun hwanted r hr => (h hwanted r (hentered r hr)).later
  | dropped => trivial

/-- A caller that goes to look for its answer has entered with its own request only. -/
theorem Recorded.seated {c' : Client} {r : Request} {seat : Seat} (h : x.Recorded past n)
    (hcaller : c.callers.get? n = some x) (hstage : x.stage = .bound r) (hkey : r.key = seat.key)
    (hstep : c.step? (.enter n) = some (c', effects)) (hwaits : c'.Waits n seat) :
    Seated (⟨c, .enter n, effects⟩ :: past) n seat := by
  rw [Recorded, hstage] at h
  refine ⟨.now ⟨?_, c', hstep, hwaits⟩, ⟨r, .now ⟨rfl, x, hcaller, hstage⟩⟩, fun r' hr' => ?_⟩
  · rw [Client.waits_iff_stage hcaller, hstage]
    nofun
  · rcases seen_cons.mp hr' with ⟨_, y, hy, hbound⟩ | hr'
    · rw [show c.callers.get? n = some y from hy] at hcaller
      cases hcaller
      rw [hstage] at hbound
      cases hbound
      exact hkey
    · exact absurd hr' (h r')

/-- A caller's shift of stage is on record: the moment that makes it is the newest of the history.
-/
theorem Recorded.shift {stage : Stage} {seen : List Effect} (h : x.Recorded past n)
    (hattended : c.Attended) (hcaller : c.callers.get? n = some x)
    (hshift : x.Shift c n a stage seen) :
    ({ x with stage := stage } : Caller).Recorded (⟨c, a, effects⟩ :: past) n := by
  have hearly : a ≠ .enter n → (∀ r, ¬ Entered past n r) →
      ∀ r, ¬ Entered (⟨c, a, effects⟩ :: past) n r := fun hother hnot r hr =>
    hnot r ((entered_cons hother).mp hr)
  rw [Recorded] at h
  cases hshift with
  | canceledEarly _ canceled => exact fun hwanted => absurd (canceled.symm.trans hwanted) (by simp)
  | atOnce stage =>
    rw [stage] at h
    exact fun _ r hr => absurd hr (hearly (fun heq => nomatch heq) h r)
  | unbindable stage =>
    rw [stage] at h
    exact fun _ r hr => absurd hr (hearly (fun heq => nomatch heq) h r)
  | bind stage =>
    rw [stage] at h
    exact hearly (fun heq => nomatch heq) h
  | lookUp stage =>
    rw [stage] at h
    exact hearly (fun heq => nomatch heq) h
  | resolved stage =>
    rw [stage] at h
    exact hearly (fun heq => nomatch heq) h
  | unresolved stage =>
    rw [stage] at h
    exact fun _ r hr => absurd hr (hearly (fun heq => nomatch heq) h r)
  | canceledBound _ canceled => exact fun hwanted => absurd (canceled.symm.trans hwanted) (by simp)
  | @take seat result stage =>
    rw [stage] at h
    obtain ⟨⟨hseen, _, hkey⟩, hlanded⟩ := h
    intro _ r hr
    have hother : Action.take n ≠ .enter n := fun heq => nomatch heq
    have hr' := (entered_cons (m := ⟨c, _, effects⟩) hother).mp hr
    exact .inr ⟨seat, (hkey r hr').symm, hseen.later, hlanded.later⟩
  | lose stage unserved =>
    have hserved := hattended.isServed_of_waits ⟨x, hcaller, stage⟩
    rw [unserved] at hserved
    cases hserved

/-- A caller that progresses by a rule has its new stage on record. -/
theorem Recorded.progress {c' : Client} (h : x.Recorded past n) (hattended : c.Attended)
    (hpursuits : c.pursuits.All fun n p => p.Recorded past n)
    (hcaller : c.callers.get? n = some x) (hstep : c.step? a = some (c', effects))
    (hcaller' : c'.callers.get? n = some x') (hprogress : x.Progress c n a x') :
    x'.Recorded (⟨c, a, effects⟩ :: past) n := by
  have hlater : a ≠ .enter n → x.Recorded (⟨c, a, effects⟩ :: past) n := fun hother =>
    h.later fun r => (entered_cons hother).mp
  cases hprogress with
  | rest other =>
    apply hlater
    rintro rfl
    exact other rfl
  | shift hshift => exact h.shift hattended hcaller hshift
  | cancel =>
    replace hlater := hlater (fun heq => nomatch heq)
    unfold Recorded at hlater ⊢
    cases hstage : x.stage with
    | returned result => exact fun heq => nomatch heq
    | _ =>
      rw [hstage] at hlater
      exact hlater
  | drop => trivial
  | quit _ canceled => exact fun hwanted => absurd (canceled.symm.trans hwanted) (by simp)
  | join stage => exact h.seated hcaller stage rfl hstep ⟨_, hcaller', rfl⟩
  | @stored r item stage wanted noFlight stored =>
    rw [Recorded, stage] at h
    intro _ r' hr'
    rcases seen_cons.mp hr' with henters | hr'
    · obtain ⟨_, y, hy, hbound⟩ := henters
      rw [show c.callers.get? n = some y from hy] at hcaller
      cases hcaller
      rw [stage] at hbound
      cases hbound
      exact .inl ⟨item, rfl, .now ⟨⟨rfl, x, hy, stage⟩, noFlight, stored⟩⟩
    · exact absurd hr' (h r')
  | begin stage => exact h.seated hcaller stage rfl hstep ⟨_, hcaller', rfl⟩
  | @hand seat p result waiters stage pursuit key handing next =>
    replace hlater := hlater (fun heq => nomatch heq)
    rw [Recorded, stage] at hlater
    obtain ⟨f, hid, hwaiters, hseen⟩ := (hpursuits _ p pursuit).handing _ _ handing
    refine ⟨hlater, f, hid, hwaiters _ _ (Table.mem_of_get? next), ?_⟩
    rw [← key]
    exact hseen.later

end Caller

namespace Client

/-- How everything in the state has come to where it is. -/
structure Recorded (past : List Moment) (c : Client) : Prop where
  orderly : c.flights.All fun _ f => f.waiters.Unique
  pursuits : c.pursuits.All fun n p => p.Recorded past n
  callers : c.callers.All fun n x => x.Recorded past n
  /-- Who has entered has called. -/
  entered : ∀ n r, Entered past n r → ∃ x, c.callers.get? n = some x

namespace Recorded

variable {c c' : Client} {n : Nat} {a : Action} {past : List Moment} {effects : List Effect}

theorem empty (s : ClientSettings) : (Client.empty s).Recorded [] where
  orderly := Table.All.empty
  pursuits := Table.All.empty
  callers := Table.All.empty
  entered n r h := by
    obtain ⟨m, hm, _⟩ := h
    cases hm

/-- One step, whoever makes it, is on record for every flight and every caller. -/
theorem step (h : c.Recorded past) (hattended : c.Attended)
    (hstep : c.step? a = some (c', effects)) : c'.Recorded (⟨c, a, effects⟩ :: past) := by
  have hrule := step_of_step? hstep
  constructor
  case orderly =>
    intro key f hf
    cases hattended.flightStep hrule key with
    | rest same =>
      rw [same] at hf
      exact h.orderly key f hf
    | begin _ _ _ _ _ _ flight _ _ _ =>
      rw [flight] at hf
      cases hf
      exact List.nodup_singleton _
    | join _ _ _ _ flight joined _ =>
      rw [joined] at hf
      cases hf
      exact (h.orderly key _ flight).insert
    | leave _ _ _ flight _ left =>
      obtain ⟨hget, _⟩ := Flights.current?_eq_some.mp flight
      rw [left] at hf
      cases hf
      exact (h.orderly key _ hget).erase
    | abort _ _ _ _ _ gone _ _ =>
      rw [gone] at hf
      cases hf
    | land _ _ _ _ gone _ _ =>
      rw [gone] at hf
      cases hf
  case pursuits =>
    intro n p' hp'
    rcases hrule.pursuit_progress hp' with
      ⟨p, hp, hprogress⟩ | ⟨_, _, _, _, _, _, _, _, _, rfl⟩
    · exact (h.pursuits n p hp).progress hp hprogress h.orderly
    · exact .of_none rfl
  case callers =>
    intro n x' hx'
    rcases hrule.caller_source hx' with ⟨x, hx, hprogress⟩ | ⟨query, rfl, rfl, rfl⟩
    · exact (h.callers n x hx).progress hattended h.pursuits hx hstep hx' hprogress
    · intro r hr
      -- a caller that has just come cannot have entered: all who entered had called before
      have hother : Action.call query ≠ .enter c.nextCaller := fun heq => nomatch heq
      obtain ⟨x, hx⟩ := h.entered _ r ((entered_cons (m := ⟨c, _, effects⟩) hother).mp hr)
      exact absurd (hattended.roster _ x hx) (Nat.lt_irrefl _)
  case entered =>
    intro n r hr
    have hcalled : ∃ x, c.callers.get? n = some x := by
      rcases seen_cons.mp hr with ⟨_, x, hx, _⟩ | hr
      · exact ⟨x, hx⟩
      · exact h.entered n r hr
    obtain ⟨x, hx⟩ := hcalled
    exact hrule.caller_stays hx

end Recorded

end Client

/-- What holds of the flights in every state that can be reached. -/
structure Client.FlightInvariant (past : List Moment) (c : Client) : Prop where
  /-- A flight in the table has callers, all of which wait with their place at it; its pursuit is at
  work, has not been aborted and has not come to look for its flight. -/
  pending : c.flights.All fun key f =>
    f.waiters ≠ [] ∧ (f.waiters.All fun waiter n => c.Waits n ⟨key, f.id, waiter⟩) ∧
      c.Pursues key f.id ∧ ∀ result, ¬ Seen past fun m => m.Resolves f.id result
  /-- Numbers of flights and places are never given again, and no flight is looked for again. -/
  distinct : past.Pairwise Moment.Distinct
  /-- A caller that waits has its place at a flight of the key of its own request, or that flight
  has landed, and its result is on the way to the caller. -/
  waiting : ∀ n seat, c.Waits n seat → (∃ r, Entered past n r ∧ r.key = seat.key) ∧
    (c.Holds n seat ∨ ∃ result, c.Serves n seat result ∧ Landed past n seat result)
  /-- A flight is changed only by callers that enter, by callers that wait for it, and by its own
  pursuit. -/
  steps : ∀ a c' effects, c.step? a = some (c', effects) → ∀ key, c.FlightStep key a c'

namespace Run

variable {s : ClientSettings} {past : List Moment} {c : Client}

/-- In every run the stages of flights and callers are on record in the history. -/
theorem recorded (run : Run s past c) : c.Recorded past := by
  induction run with
  | start => exact Client.Recorded.empty s
  | step run hstep ih => exact ih.step run.attended hstep

/-- In every state that can be reached, the flights in the table are those that are being worked on
and waited for, and whoever waits will be served by the flight that it has joined. -/
theorem flights_attended (run : Run s past c) : c.FlightInvariant past where
  pending := by
    intro key f hf
    obtain ⟨hne, hwaiters⟩ := run.attended.crowded key f hf
    have hpursues := run.attended.pursued key f hf
    refine ⟨hne, fun waiter n hwaiter => (hwaiters waiter n hwaiter).2, hpursues, ?_⟩
    rintro result ⟨m, hm, hresolves⟩
    obtain ⟨p, hp, _, _, hnot⟩ := hpursues
    have hlanded := (run.numbered.resolves m hm f.id result hresolves).2 p hp
    rw [hnot] at hlanded
    cases hlanded
  distinct := run.distinct
  waiting := by
    rintro n seat ⟨x, hx, hstage⟩
    have hrecorded : x.Recorded past n := run.recorded.callers n x hx
    rw [Caller.Recorded, hstage] at hrecorded
    obtain ⟨_, ⟨r, hr⟩, hkey⟩ := hrecorded
    refine ⟨⟨r, hr, hkey r hr⟩, ?_⟩
    apply (run.attended.served n seat ⟨x, hx, hstage⟩).imp_right
    rintro ⟨result, p, waiters, hp, hpkey, hhanding, hwaiter⟩
    refine ⟨result, ⟨p, waiters, hp, hpkey, hhanding, hwaiter⟩, ?_⟩
    obtain ⟨f, hid, hwaiters, hseen⟩ := (run.recorded.pursuits _ p hp).handing _ _ hhanding
    rw [hpkey] at hseen
    exact ⟨f, hid, hwaiters _ _ (Table.mem_of_get? hwaiter), hseen⟩
  steps a c' effects hstep key := run.attended.flightStep (Client.step_of_step? hstep) key

end Run

end

namespace Run

/-- A flight of a key begins while the pursuit of an earlier one, which everybody has left, is still
there. -/
theorem flights_attended_of_second_flight :
    ∃ past c, ∃ r : Request, ∃ f p, Run ⟨.default, .default, .default, .default⟩ past c ∧
      c.flights.get? r.key = some f ∧ f.id = 2 ∧ c.pursuits.get? 1 = some p ∧ p.key = r.key ∧
      p.aborted = true ∧ c.FlightInvariant past := by
  let settings : ClientSettings := ⟨.default, .default, .default, .default⟩
  let header : Header := ⟨.zero, 0, .zero, .zero, .zero, .zero, []⟩
  let r : Request := .code header.hash 0 .zero
  let actions : List Action :=
    [.call (.code header .zero), .bind 0, .enter 0, .pursue 1, .drop 0, .call (.code header .zero),
      .bind 1, .enter 1]
  have hruns : ((Moment.replay actions [] (Client.empty settings)).bind fun x =>
      (x.2.flights.get? r.key).bind fun f => (x.2.pursuits.get? 1).map fun p =>
        (f.id, p.key, p.aborted)) = some (2, r.key, true) := by
    decide +kernel
  obtain ⟨⟨past, c⟩, hreplay, hflight⟩ := Option.bind_eq_some_iff.mp hruns
  obtain ⟨f, hf, hpursuit⟩ := Option.bind_eq_some_iff.mp hflight
  obtain ⟨p, hp, heq⟩ := Option.map_eq_some_iff.mp hpursuit
  obtain ⟨hid, hrest⟩ := Prod.mk.inj heq
  obtain ⟨hkey, haborted⟩ := Prod.mk.inj hrest
  have hrun : Run settings past c := Run.start.replay hreplay
  exact ⟨past, c, r, f, p, hrun, hf, hid, hp, hkey, haborted, flights_attended hrun⟩

end Run

end LightClient
