/-
Module: LightClient.Proofs.Retrieval.History
Purpose: What has happened to the flights of a run: their numbers and the places at them are never
  given twice, and no flight lands twice.
Main exports: Moment.Opens, Moment.Seats, Moment.Resolves, Moment.Lands, Moment.Distinct,
  Client.Numbered, Run.numbered, Run.distinct
-/
import LightClient.Proofs.Retrieval.Progress
import LightClient.Proofs.Retrieval.Provenance

namespace LightClient

open Client (Action Effect)

variable [ItemCache] [DelaySeries]

/-! ### Events -/

namespace Moment

/-- The state after the step. -/
def After (m : Moment) (c : Client) : Prop :=
  m.before.step? m.action = some (c, m.effects)

/-- The step puts a flight with this number into the table. -/
def Opens (m : Moment) (key : RequestKey) (id : Nat) : Prop :=
  m.before.flights.current? key id = none ∧
    ∃ c f, m.After c ∧ c.flights.current? key id = some f

/-- The step gives the caller this place, with which it begins to wait. -/
def Seats (m : Moment) (n : Nat) (seat : Caller.Seat) : Prop :=
  ¬ m.before.Waits n seat ∧ ∃ c, m.After c ∧ c.Waits n seat

/-- The pursuit with this number has come to a result and looks for its flight, to take it out. -/
def Resolves (m : Moment) (id : Nat) (result : Retrieved) : Prop :=
  m.action = .pursue id ∧ ∃ p, m.before.pursuits.get? id = some p ∧ p.stage = .landing result

/-- The flight of the key is taken out, with this result for those that wait for it. -/
def Lands (m : Moment) (key : RequestKey) (f : Flight) (result : Retrieved) : Prop :=
  m.before.flights.get? key = some f ∧ m.Resolves f.id result

/-- The caller goes to look for the answer to this request. -/
def Enters (m : Moment) (n : Nat) (r : Request) : Prop :=
  m.action = .enter n ∧ ∃ x, m.before.callers.get? n = some x ∧ x.stage = .bound r

/-- A later step gives no number again that an earlier one has given, and lands no flight again. -/
structure Distinct (later earlier : Moment) : Prop where
  flights : ∀ key id key' id', earlier.Opens key id → later.Opens key' id' → id < id'
  seats : ∀ n seat n' seat', earlier.Seats n seat → later.Seats n' seat' →
    seat.flight = seat'.flight → seat.waiter < seat'.waiter
  resolves : ∀ id result result', earlier.Resolves id result → ¬ later.Resolves id result'

end Moment

namespace Pursuit

variable {c : Client} {n : Nat} {p : Pursuit} {a : Action}

/-- A pursuit that goes on by itself has come to no result yet. -/
theorem Shift.result?_eq_none {stage : Stage} {effects : List Effect}
    (h : p.Shift c n a stage effects) : p.result? = none := by
  cases h <;> simp only [Pursuit.result?, *]

theorem Conclusion.result?_eq_none {held : Assignment} {t : Ticket} {outcome : Outcome}
    {next : Next} (h : p.Conclusion c n a held t outcome next) : p.result? = none := by
  cases h <;> simp only [Pursuit.result?, *]

end Pursuit

namespace Client

variable {c c' : Client} {n m id : Nat} {p p' : Pursuit} {x x' : Caller} {a : Action}
  {effects : List Effect} {seat : Caller.Seat} {key : RequestKey}

/-! ### What one step gives -/

/-- A new flight has the next number. -/
theorem FlightStep.opens {f : Flight} (h : c.FlightStep key a c')
    (hbefore : c.flights.current? key id = none) (hafter : c'.flights.current? key id = some f) :
    id = c.nextFlight ∧ c'.nextFlight = c.nextFlight + 1 := by
  obtain ⟨hget, hid⟩ := Flights.current?_eq_some.mp hafter
  cases h with
  | rest same =>
    rw [same] at hget
    exact absurd hid (Flights.current?_eq_none hbefore hget)
  | begin _ _ _ _ _ _ flight _ next _ =>
    rw [flight] at hget
    cases hget
    exact ⟨hid.symm, next⟩
  | join _ _ _ _ flight joined _ =>
    rw [joined] at hget
    cases hget
    exact (Flights.current?_eq_none hbefore flight hid).elim
  | leave _ _ _ flight _ left =>
    obtain ⟨hold, _⟩ := Flights.current?_eq_some.mp flight
    rw [left] at hget
    cases hget
    exact (Flights.current?_eq_none hbefore hold hid).elim
  | abort _ _ _ _ _ gone _ _ =>
    rw [gone] at hget
    cases hget
  | land _ _ _ _ gone _ _ =>
    rw [gone] at hget
    cases hget

/-- A new place is at a new flight, or the next one at an old flight. -/
theorem Step.seats (hstep : c.Step a c' effects) (hbefore : ¬ c.Waits n seat)
    (hafter : c'.Waits n seat) :
    seat.flight = c.nextFlight ∨
      ∃ f, c.flights.current? seat.key seat.flight = some f ∧ seat.waiter = f.nextWaiter := by
  obtain ⟨x', hx', hwaiting⟩ := hafter
  rcases hstep.caller_source hx' with ⟨x, hx, hprogress⟩ | ⟨query, _, _, rfl⟩
  · cases hprogress with
    | rest => exact absurd ⟨_, hx, hwaiting⟩ hbefore
    | cancel => exact absurd ⟨x, hx, hwaiting⟩ hbefore
    | shift hshift => cases hshift <;> cases hwaiting
    | join _ _ flight =>
      cases hwaiting
      exact .inr ⟨_, Flights.current?_eq_some.mpr ⟨flight, rfl⟩, rfl⟩
    | begin =>
      cases hwaiting
      exact .inl rfl
    | _ => cases hwaiting
  · cases hwaiting

/-- The number for the next flight never goes down. -/
theorem Step.nextFlight_le (hstep : c.Step a c' effects) : c.nextFlight ≤ c'.nextFlight := by
  cases hstep with
  | notify hnotified => exact Nat.le_of_eq (congrArg nextFlight (notify_eq hnotified)).symm
  | @caller n x _ _ _ _ hstep =>
    cases hstep with
    | drop | quit =>
      rw [depart_eq]
      exact Nat.le_refl _
    | begin => exact Nat.le_succ _
    | _ => exact Nat.le_refl _
  | @pursuit n p _ _ _ _ hstep =>
    cases hstep with
    | @release _ _ next =>
      cases next <;> exact Nat.le_refl _
    | @land result =>
      have hlanding := c.landing_rule n p.key result
      generalize c.land n p.key result = d at hlanding ⊢
      cases hlanding <;> exact Nat.le_refl _
    | hand =>
      rw [hand_eq]
      exact Nat.le_refl _
    | _ => exact Nat.le_refl _
  | _ => exact Nat.le_refl _

/-- Once a pursuit has landed, it stays so until it is over. -/
theorem landed_of_progress (h : p.Progress c n a p') (hlanded : p.landed = true) :
    p'.landed = true := by
  cases h with
  | rest => exact hlanded
  | abort => exact hlanded
  | shift hshift => exact absurd (hshift.not_landed.1.symm.trans hlanded) Bool.false_ne_true
  | conclude conclusion =>
    exact absurd (conclusion.not_landed.symm.trans hlanded) Bool.false_ne_true
  | land => rfl
  | hand => rfl
  | assign stage =>
    rw [Pursuit.landed, stage] at hlanded
    cases hlanded
  | register stage =>
    rw [Pursuit.landed, stage] at hlanded
    cases hlanded
  | retry stage =>
    rw [Pursuit.landed, stage] at hlanded
    cases hlanded
  | finish stage =>
    rw [Pursuit.landed, stage] at hlanded
    cases hlanded

/-- A pursuit that has come to a result lands, if it is not over. -/
theorem landed_of_landing {result : Retrieved} (h : p.Progress c n (.pursue n) p')
    (hstage : p.stage = .landing result) : p'.landed = true := by
  have hresult : p.result? = some result := by rw [Pursuit.result?, hstage]
  cases h with
  | rest other => exact absurd rfl other
  | abort departs => rcases departs with heq | heq <;> cases heq
  | shift hshift =>
    rw [hshift.result?_eq_none] at hresult
    cases hresult
  | conclude conclusion =>
    rw [conclusion.result?_eq_none] at hresult
    cases hresult
  | land => rfl
  | assign stage =>
    rw [hstage] at stage
    cases stage
  | register stage =>
    rw [hstage] at stage
    cases stage
  | retry stage =>
    rw [hstage] at stage
    cases stage
  | finish stage =>
    rw [hstage] at stage
    cases stage

/-! ### Numbers -/

/-- All numbers that have been given are in the past. -/
structure Numbered (past : List Moment) (c : Client) : Prop where
  flights : ∀ m ∈ past, ∀ key id, m.Opens key id → id < c.nextFlight
  seats : ∀ m ∈ past, ∀ n seat, m.Seats n seat → seat.flight < c.nextFlight ∧
    ∀ key f, c.flights.current? key seat.flight = some f → seat.waiter < f.nextWaiter
  resolves : ∀ m ∈ past, ∀ id result, m.Resolves id result → id < c.nextFlight ∧
    ∀ p, c.pursuits.get? id = some p → p.landed = true

namespace Numbered

variable {past : List Moment}

theorem empty (s : ClientSettings) : Numbered [] (Client.empty s) where
  flights _ h := nomatch h
  seats _ h := nomatch h
  resolves _ h := nomatch h

/-- A flight that is found after a step has at least as many places as before, if it is not new. -/
theorem nextWaiter_le {f : Flight} (hattended : c.Attended) (hstep : c.Step a c' effects)
    (hid : id < c.nextFlight) (h : c'.flights.current? key id = some f) :
    ∃ g, c.flights.current? key id = some g ∧ g.nextWaiter ≤ f.nextWaiter := by
  cases hold : c.flights.current? key id with
  | none =>
    obtain ⟨hnew, _⟩ := (hattended.flightStep hstep key).opens hold h
    exact absurd hnew (Nat.ne_of_lt hid)
  | some g =>
    refine ⟨g, rfl, ?_⟩
    obtain ⟨hget, _⟩ := Flights.current?_eq_some.mp hold
    obtain ⟨hget', _⟩ := Flights.current?_eq_some.mp h
    cases hattended.flightStep hstep key with
    | rest same =>
      rw [same, hget] at hget'
      cases hget'
      exact Nat.le_refl _
    | begin _ _ _ _ noFlight _ _ _ _ _ =>
      rw [hget] at noFlight
      cases noFlight
    | join _ _ _ _ flight joined _ =>
      rw [hget] at flight
      cases flight
      rw [joined] at hget'
      cases hget'
      exact Nat.le_succ _
    | leave _ _ _ flight _ left =>
      rw [(Flights.current?_eq_some.mp flight).1] at hget
      cases hget
      rw [left] at hget'
      cases hget'
      exact Nat.le_refl _
    | abort _ _ _ _ _ gone _ _ =>
      rw [gone] at hget'
      cases hget'
    | land _ _ _ _ gone _ _ =>
      rw [gone] at hget'
      cases hget'

/-- What has been numbered before a step is in the past after it. -/
theorem keep (h : Numbered past c) (hattended : c.Attended) (hstep : c.Step a c' effects) :
    Numbered past c' where
  flights m hm key id hopens :=
    Nat.lt_of_lt_of_le (h.flights m hm key id hopens) hstep.nextFlight_le
  seats m hm n seat hseats := by
    obtain ⟨hlt, hplace⟩ := h.seats m hm n seat hseats
    refine ⟨Nat.lt_of_lt_of_le hlt hstep.nextFlight_le, fun key f hf => ?_⟩
    obtain ⟨g, hg, hle⟩ := nextWaiter_le hattended hstep hlt hf
    exact Nat.lt_of_lt_of_le (hplace key g hg) hle
  resolves m hm id result hresolves := by
    obtain ⟨hlt, hlanded⟩ := h.resolves m hm id result hresolves
    refine ⟨Nat.lt_of_lt_of_le hlt hstep.nextFlight_le, fun p' hp' => ?_⟩
    rcases hstep.pursuit_progress hp' with
      ⟨p, hp, hprogress⟩ | ⟨_, _, _, _, _, _, hnew, _⟩
    · exact landed_of_progress hprogress (hlanded p hp)
    · exact absurd hnew (Nat.ne_of_lt hlt)

/-- A step begins a flight under the next number only, so that numbers in use stay below it. -/
theorem step (h : Numbered past c) (hattended : c.Attended)
    (hstep : c.step? a = some (c', effects)) : Numbered (⟨c, a, effects⟩ :: past) c' := by
  have hrule := step_of_step? hstep
  have hafter : ∀ d, (⟨c, a, effects⟩ : Moment).After d → d = c' := by
    intro d hd
    exact (Prod.mk.inj (Option.some.inj (Eq.trans (Eq.symm hd) hstep))).1
  have hkeep := h.keep hattended hrule
  constructor
  case flights =>
    intro m hm key id hopens
    rcases List.mem_cons.mp hm with rfl | hm
    · obtain ⟨hbefore, d, f, hd, hf⟩ := hopens
      cases hafter d hd
      obtain ⟨hid, hnext⟩ := (hattended.flightStep hrule key).opens hbefore hf
      rw [hid, hnext]
      exact Nat.lt_succ_self _
    · exact hkeep.flights m hm key id hopens
  case seats =>
    intro m hm n seat hseats
    rcases List.mem_cons.mp hm with rfl | hm
    · obtain ⟨_, d, hd, hwaits⟩ := hseats
      cases hafter d hd
      have hattended' := hattended.step hrule
      refine ⟨hattended'.flight_lt hwaits, fun key f hf => ?_⟩
      cases hattended'.key_of_waits hwaits hf
      obtain ⟨hget, _⟩ := Flights.current?_eq_some.mp hf
      exact ((hattended'.crowded _ f hget).2 _ n (hattended'.waiter_of_waits hwaits hf)).1
    · exact hkeep.seats m hm n seat hseats
  case resolves =>
    intro m hm id result hresolves
    rcases List.mem_cons.mp hm with rfl | hm
    -- a pursuit that resolves its flight now has landed afterwards
    · obtain ⟨haction, p, hp, hstage⟩ := hresolves
      refine ⟨Nat.lt_of_lt_of_le (hattended.numbers id p hp) hrule.nextFlight_le, fun p' hp' => ?_⟩
      rcases hrule.pursuit_progress hp' with ⟨q, hq, hprogress⟩ | ⟨_, _, _, henter, _⟩
      · rw [show c.pursuits.get? id = some p from hp] at hq
        cases hq
        cases show a = .pursue id from haction
        exact landed_of_landing hprogress hstage
      · rw [show a = .pursue id from haction] at henter
        cases henter
    · exact hkeep.resolves m hm id result hresolves

/-- What a step gives is not in the past yet. -/
theorem distinct (h : Numbered past c) (hattended : c.Attended)
    (hstep : c.step? a = some (c', effects)) {m : Moment} (hm : m ∈ past) :
    Moment.Distinct ⟨c, a, effects⟩ m := by
  have hrule := step_of_step? hstep
  constructor
  case flights =>
    intro key id key' id' hearlier ⟨hbefore, d, f, hd, hf⟩
    obtain ⟨hnew, _⟩ := (hattended.flightStep (step_of_step? hd) key').opens hbefore hf
    rw [hnew]
    exact h.flights m hm key id hearlier
  case seats =>
    intro n seat n' seat' hearlier ⟨hbefore, d, hd, hwaits⟩ hsame
    obtain ⟨hlt, hplace⟩ := h.seats m hm n seat hearlier
    rcases (step_of_step? hd).seats hbefore hwaits with hnew | ⟨f, hf, hnext⟩
    · exact absurd (hsame.trans hnew) (Nat.ne_of_lt hlt)
    · rw [hnext]
      exact hplace seat'.key f (hsame ▸ hf)
  case resolves =>
    rintro id result result' hearlier ⟨_, p, hp, hstage⟩
    -- the earlier step has left the pursuit landed, and the later one needs one that has not
    have hlanded := (h.resolves m hm id result hearlier).2 p hp
    rw [Pursuit.landed, hstage] at hlanded
    cases hlanded

end Numbered

end Client

namespace Run

variable {s : ClientSettings} {past : List Moment} {c : Client}

/-- In every run the flights and the seats of the history have numbers below the next ones. -/
theorem numbered (run : Run s past c) : Client.Numbered past c := by
  induction run with
  | start => exact Client.Numbered.empty s
  | step run hstep ih => exact ih.step run.attended hstep

/-- No step of a run gives a number again that an earlier one has given. -/
theorem distinct (run : Run s past c) : past.Pairwise Moment.Distinct := by
  induction run with
  | start => exact .nil
  | step run hstep ih =>
    exact .cons (fun m hm => run.numbered.distinct run.attended hstep hm) ih

end Run

end LightClient
