/-
Module: LightClient.Proofs.Retrieval.Progress
Purpose: What one step of a state in which flights, pursuits and callers belong together does to one
  pursuit, to one caller and to the flight of one key.
Main exports: Pursuit.Progress, Caller.Progress, Client.FlightStep, Client.Step.pursuit_progress,
  Client.Step.caller_progress, Client.Attended.flightStep
-/
import LightClient.Proofs.Retrieval.Attendance

namespace LightClient

open Client (Action Effect)

namespace Client

variable {a : Action} {n : Nat}

/-- A step of a flight is no step of a caller. -/
theorem caller?_of_flight? (h : a.flight? = some n) : a.caller? = none := by
  cases a with
  | pursue | accept | refuse | collect | expire | despair | stop | withdraw | serve => rfl
  | _ => cases h

/-- A step of a caller is no step of a flight. -/
theorem flight?_of_caller? (h : a.caller? = some n) : a.flight? = none := by
  cases a with
  | cancel | drop | bind | resolve | enter | take | quit => rfl
  | _ => cases h

theorem ne_some_of_eq_none {k : Option Nat} (h : k = none) : k ≠ some n := by
  rintro rfl
  cases h

end Client

variable [ItemCache] [DelaySeries]

/-- What one step makes of a pursuit. -/
inductive Pursuit.Progress (c : Client) (n : Nat) (p : Pursuit) : Action → Pursuit → Prop where
  | rest {a : Action} (other : a.flight? ≠ some n) : Progress c n p a p
  /-- The last caller has left the flight. -/
  | abort {a : Action} {m : Nat} (departs : a = .drop m ∨ a = .quit m) :
      Progress c n p a { p with aborted := true }
  | shift {a : Action} {stage : Pursuit.Stage} {effects : List Effect}
      (shift : p.Shift c n a stage effects) : Progress c n p a { p with stage := stage }
  | assign {seen : Nat} {rest : List PeerId} {held : Assignment}
      (stage : p.stage = .offering seen (held.peer :: rest)) :
      Progress c n p (.pursue n) (p.assign held)
  | register {held : Assignment} {t : Ticket} (stage : p.stage = .assigned held) :
      Progress c n p (.pursue n) { p with stage := .registered held t }
  | conclude {a : Action} {held : Assignment} {t : Ticket} {outcome : Outcome}
      {next : Pursuit.Next} (conclusion : p.Conclusion c n a held t outcome next) :
      Progress c n p a { p with stage := .releasing held outcome next }
  | retry {held : Assignment} {outcome : Outcome}
      (stage : p.stage = .releasing held outcome .retry) :
      Progress c n p (.pursue n) { p with stage := .choosing }
  | finish {held : Assignment} {outcome : Outcome} {result : Retrieved}
      (stage : p.stage = .releasing held outcome (.finish result)) :
      Progress c n p (.pursue n) { p with stage := .landing result }
  | land {result : Retrieved} {f : Flight} (stage : p.stage = .landing result)
      (flight : c.flights.current? p.key n = some f) :
      Progress c n p (.pursue n) { p with stage := .handing result f.waiters }
  | hand {result : Retrieved} {waiters : Table Nat Nat} {waiter : Nat}
      (stage : p.stage = .handing result waiters) :
      Progress c n p (.serve n waiter) { p with stage := .handing result (waiters.erase waiter) }

/-- What one step makes of a caller. -/
inductive Caller.Progress (c : Client) (n : Nat) (x : Caller) : Action → Caller → Prop where
  | rest {a : Action} (other : a.caller? ≠ some n) : Progress c n x a x
  | shift {a : Action} {stage : Caller.Stage} {effects : List Effect}
      (shift : x.Shift c n a stage effects) : Progress c n x a { x with stage := stage }
  | cancel : Progress c n x (.cancel n) { x with canceled := true }
  | drop (going : x.isOver = false) : Progress c n x (.drop n) { x with stage := .dropped }
  | quit (waits : x.Waits) (canceled : x.canceled = true) :
      Progress c n x (.quit n) { x with stage := .returned (.error .canceled) }
  | join {r : Request} {f : Flight} (stage : x.stage = .bound r) (wanted : x.canceled = false)
      (flight : c.flights.get? r.key = some f) :
      Progress c n x (.enter n) { x with stage := .waiting ⟨r.key, f.id, f.nextWaiter⟩ }
  | stored {r : Request} {item : Item} (stage : x.stage = .bound r) (wanted : x.canceled = false)
      (noFlight : c.flights.get? r.key = none) (stored : (c.store.get r.key).1 = some item) :
      Progress c n x (.enter n) { x with stage := .returned (.ok item) }
  | begin {r : Request} (stage : x.stage = .bound r) (wanted : x.canceled = false)
      (noFlight : c.flights.get? r.key = none) (missing : (c.store.get r.key).1 = none) :
      Progress c n x (.enter n) { x with stage := .waiting ⟨r.key, c.nextFlight, 0⟩ }
  | hand {seat : Caller.Seat} {p : Pursuit} {result : Retrieved} {waiters : Table Nat Nat}
      (stage : x.stage = .waiting seat) (pursuit : c.pursuits.get? seat.flight = some p)
      (key : p.key = seat.key) (handing : p.stage = .handing result waiters)
      (next : waiters.get? seat.waiter = some n) :
      Progress c n x (.serve seat.flight seat.waiter) { x with stage := .handed seat result }

namespace Client

/-- What one step makes of the flight of a key. -/
inductive FlightStep (c : Client) (key : RequestKey) : Action → Client → Prop where
  | rest {a : Action} {c' : Client} (same : c'.flights.get? key = c.flights.get? key) :
      FlightStep c key a c'
  /-- A caller that finds nothing begins a flight, and a pursuit with it. -/
  | begin {n : Nat} {x : Caller} {r : Request} {c' : Client}
      (caller : c.callers.get? n = some x) (stage : x.stage = .bound r) (request : r.key = key)
      (wanted : x.canceled = false) (noFlight : c.flights.get? key = none)
      (missing : (c.store.get key).1 = none)
      (flight : c'.flights.get? key = some (Flight.begin c.nextFlight n))
      (pursuit : c'.pursuits.get? c.nextFlight = some (Pursuit.fresh r))
      (next : c'.nextFlight = c.nextFlight + 1) (waits : c'.Waits n ⟨key, c.nextFlight, 0⟩) :
      FlightStep c key (.enter n) c'
  /-- A caller joins the flight that it finds. -/
  | join {n : Nat} {x : Caller} {r : Request} {f : Flight} {c' : Client}
      (caller : c.callers.get? n = some x) (stage : x.stage = .bound r) (request : r.key = key)
      (wanted : x.canceled = false) (flight : c.flights.get? key = some f)
      (joined : c'.flights.get? key = some (f.join n))
      (waits : c'.Waits n ⟨key, f.id, f.nextWaiter⟩) :
      FlightStep c key (.enter n) c'
  /-- A caller that waits for this flight leaves it to the others. -/
  | leave {n : Nat} {seat : Caller.Seat} {f : Flight} {a : Action} {c' : Client}
      (departs : a = .drop n ∨ a = .quit n) (waits : c.Waits n seat) (request : seat.key = key)
      (flight : c.flights.current? key seat.flight = some f)
      (others : (f.leave seat.waiter).waiters ≠ [])
      (left : c'.flights.get? key = some (f.leave seat.waiter)) :
      FlightStep c key a c'
  /-- The last caller that waits for this flight leaves it, and its pursuit is aborted. -/
  | abort {n : Nat} {seat : Caller.Seat} {f : Flight} {p : Pursuit} {a : Action} {c' : Client}
      (departs : a = .drop n ∨ a = .quit n) (waits : c.Waits n seat) (request : seat.key = key)
      (flight : c.flights.current? key seat.flight = some f)
      (alone : (f.leave seat.waiter).waiters = []) (gone : c'.flights.get? key = none)
      (pursuit : c'.pursuits.get? seat.flight = some p) (aborted : p.aborted = true) :
      FlightStep c key a c'
  /-- The pursuit of this flight lands. -/
  | land {n : Nat} {p : Pursuit} {f : Flight} {result : Retrieved} {c' : Client}
      (pursuit : c.pursuits.get? n = some p) (request : p.key = key)
      (stage : p.stage = .landing result) (flight : c.flights.current? key n = some f)
      (gone : c'.flights.get? key = none)
      (landed : c'.pursuits.get? n = some { p with stage := .handing result f.waiters })
      (store : c'.store = c.stock key result) :
      FlightStep c key (.pursue n) c'

variable {c c' : Client} {n m : Nat} {p p' : Pursuit} {x x' : Caller} {a : Action}
  {effects : List Effect} {seat : Caller.Seat}

/-! ### Who takes a step -/

/-- A step of a pursuit is that of the flight with its number. -/
theorem PursuitStep.flight? (h : c.PursuitStep n p a c' effects) : a.flight? = some n := by
  cases h with
  | shift shift => exact shift.flight?
  | conclude conclusion => exact conclusion.flight?
  | _ => rfl

/-- A step of a caller is that of the caller with its number. -/
theorem CallerStep.caller? (h : c.CallerStep n x a c' effects) : a.caller? = some n := by
  cases h with
  | shift shift => cases shift <;> rfl
  | _ => rfl

/-! ### Pursuits -/

/-- If one pursuit is changed by a rule of its own, every pursuit has progressed by a rule. -/
theorem progress_of_modify {f : Pursuit → Pursuit}
    (h : (c.pursuits.modify m f).get? n = some p') (hother : m ≠ n → a.flight? ≠ some n)
    (hf : ∀ p, c.pursuits.get? m = some p → p.Progress c m a (f p)) :
    ∃ p, c.pursuits.get? n = some p ∧ p.Progress c n a p' := by
  rw [Table.get?_modify] at h
  split at h
  next hm =>
    subst hm
    obtain ⟨p, hp, rfl⟩ := Option.map_eq_some_iff.mp h
    exact ⟨p, hp, hf p hp⟩
  next hm => exact ⟨p', h, .rest (hother hm)⟩

theorem progress_of_erase (h : (c.pursuits.erase m).get? n = some p')
    (hother : m ≠ n → a.flight? ≠ some n) :
    ∃ p, c.pursuits.get? n = some p ∧ p.Progress c n a p' := by
  rw [Table.get?_erase] at h
  split at h
  · cases h
  next hm => exact ⟨p', h, .rest (hother hm)⟩

theorem progress_of_depart {stage : Caller.Stage} (hdeparts : a = .drop m ∨ a = .quit m)
    (h : (c.depart m x stage).pursuits.get? n = some p') :
    ∃ p, c.pursuits.get? n = some p ∧ p.Progress c n a p' := by
  have hother : a.flight? ≠ some n := by
    rcases hdeparts with rfl | rfl <;> exact ne_some_of_eq_none rfl
  unfold Client.depart at h
  split at h
  next seat _ =>
    have hleave := c.leave_rule seat
    generalize c.leave seat = d at hleave h
    cases hleave with
    | late => exact ⟨p', h, .rest hother⟩
    | last => exact progress_of_modify h (fun _ => hother) fun p _ => .abort hdeparts
    | other => exact ⟨p', h, .rest hother⟩
  next => exact ⟨p', h, .rest hother⟩

/-- A pursuit makes progress by its own steps. -/
theorem PursuitStep.progress (hpursuit : c.pursuits.get? m = some p)
    (hstep : c.PursuitStep m p a c' effects) (h : c'.pursuits.get? n = some p') :
    ∃ p, c.pursuits.get? n = some p ∧ p.Progress c n a p' := by
  have hother : m ≠ n → a.flight? ≠ some n := by
    rw [hstep.flight?]
    exact fun hm heq => hm (Option.some.inj heq)
  -- the pursuit that takes the step is the one that was found
  have hown : ∀ {f : Pursuit → Pursuit}, (c.pursuits.modify m f).get? n = some p' →
      p.Progress c m a (f p) → ∃ p, c.pursuits.get? n = some p ∧ p.Progress c n a p' := by
    intro f h hf
    apply progress_of_modify h hother
    intro q hq
    rw [hpursuit] at hq
    cases hq
    exact hf
  cases hstep with
  | shift hshift => exact hown h (.shift hshift)
  | @assign seen peer rest registry stage begun =>
    rw [Table.insert_eq_modify hpursuit] at h
    exact hown h (.assign stage)
  | register stage => exact hown h (.register stage)
  | conclude conclusion => exact hown h (.conclude conclusion)
  | @release held outcome next stage =>
    cases next with
    | retry => exact hown h (.retry stage)
    | finish result => exact hown h (.finish stage)
    | stop => exact progress_of_erase h hother
  | @land result stage =>
    have hlanding := c.landing_rule m p.key result
    generalize c.land m p.key result = d at hlanding h
    cases hlanding with
    | late => exact progress_of_erase h hother
    | timely flight => exact hown h (.land stage flight)
  | hand stage =>
    rw [hand_eq] at h
    exact hown h (.hand stage)
  | retire => exact progress_of_erase h hother
  | stop => exact progress_of_erase h hother

/-- A pursuit that is found after a step was there before, or has just begun. -/
theorem Step.pursuit_progress (hstep : c.Step a c' effects)
    (h : c'.pursuits.get? n = some p') :
    (∃ p, c.pursuits.get? n = some p ∧ p.Progress c n a p') ∨
      ∃ m x r, a = .enter m ∧ c.callers.get? m = some x ∧ x.stage = .bound r ∧
        n = c.nextFlight ∧ c.flights.get? r.key = none ∧ (c.store.get r.key).1 = none ∧
        p' = Pursuit.fresh r := by
  cases hstep with
  | @caller m x _ _ _ hcaller hstep =>
    have hother : a.flight? ≠ some n := ne_some_of_eq_none (flight?_of_caller? hstep.caller?)
    cases hstep with
    | drop => exact .inl (progress_of_depart (.inl rfl) h)
    | quit => exact .inl (progress_of_depart (.inr rfl) h)
    | @begin r stage wanted noFlight missing =>
      replace h : (c.pursuits.insert c.nextFlight (Pursuit.fresh r)).get? n = some p' := h
      rw [Table.get?_insert] at h
      split at h
      next hn =>
        cases h
        exact .inr ⟨m, x, r, rfl, hcaller, stage, hn.symm, noFlight, missing, rfl⟩
      next => exact .inl ⟨p', h, .rest hother⟩
    | _ => exact .inl ⟨p', h, .rest hother⟩
  | pursuit hpursuit hstep => exact .inl (hstep.progress hpursuit h)
  | notify hnotified =>
    rw [notify_eq hnotified] at h
    exact .inl ⟨p', h, .rest (ne_some_of_eq_none rfl)⟩
  | _ => exact .inl ⟨p', h, .rest (ne_some_of_eq_none rfl)⟩

/-! ### Callers -/

theorem callerProgress_of_place {stage : Caller.Stage} (hcaller : c.callers.get? m = some x)
    (hother : m ≠ n → a.caller? ≠ some n) (hx : x.Progress c m a { x with stage := stage })
    (h : (c.place m stage).callers.get? n = some x') :
    ∃ x, c.callers.get? n = some x ∧ x.Progress c n a x' := by
  replace h : (c.callers.modify m fun x => { x with stage := stage }).get? n = some x' := h
  rw [Table.get?_modify] at h
  split at h
  next hm =>
    subst hm
    rw [hcaller] at h
    cases h
    exact ⟨x, hcaller, hx⟩
  next hm => exact ⟨x', h, .rest (hother hm)⟩

theorem callers_depart {stage : Caller.Stage} :
    (c.depart n x stage).callers = (c.place n stage).callers := by
  rw [depart_eq]

/-- Every caller after a caller's step was there before and has progressed by a rule. -/
theorem CallerStep.progress (hcaller : c.callers.get? m = some x)
    (hstep : c.CallerStep m x a c' effects) (h : c'.callers.get? n = some x') :
    ∃ x, c.callers.get? n = some x ∧ x.Progress c n a x' := by
  have hother : m ≠ n → a.caller? ≠ some n := by
    rw [hstep.caller?]
    exact fun hm heq => hm (Option.some.inj heq)
  cases hstep with
  | shift hshift => exact callerProgress_of_place hcaller hother (.shift hshift) h
  | cancel =>
    replace h : (c.callers.insert m { x with canceled := true }).get? n = some x' := h
    rw [Table.get?_insert] at h
    split at h
    next hm =>
      subst hm
      cases h
      exact ⟨x, hcaller, .cancel⟩
    next hm => exact ⟨x', h, .rest (hother hm)⟩
  | drop going =>
    rw [callers_depart] at h
    exact callerProgress_of_place hcaller hother (.drop going) h
  | quit waits canceled =>
    rw [callers_depart] at h
    exact callerProgress_of_place hcaller hother (.quit waits canceled) h
  | join stage wanted flight =>
    exact callerProgress_of_place hcaller hother (.join stage wanted flight) h
  | stored stage wanted noFlight stored =>
    exact callerProgress_of_place hcaller hother (.stored stage wanted noFlight stored) h
  | begin stage wanted noFlight missing =>
    exact callerProgress_of_place hcaller hother (.begin stage wanted noFlight missing) h

/-- Every caller after a flight's step was there before and has progressed by a rule. -/
theorem PursuitStep.callerProgress (hpursuit : c.pursuits.get? m = some p)
    (hstep : c.PursuitStep m p a c' effects) (h : c'.callers.get? n = some x') :
    ∃ x, c.callers.get? n = some x ∧ x.Progress c n a x' := by
  have hother : a.caller? ≠ some n := ne_some_of_eq_none (caller?_of_flight? hstep.flight?)
  cases hstep with
  | @release held outcome next =>
    cases next <;> exact ⟨x', h, .rest hother⟩
  | @land result =>
    have hlanding := c.landing_rule m p.key result
    generalize c.land m p.key result = d at hlanding h
    cases hlanding <;> exact ⟨x', h, .rest hother⟩
  | @hand result waiters waiter caller stage next =>
    rcases c.hand_rule ⟨p.key, m, waiter⟩ caller result with ⟨⟨y, hy, hwaits⟩, heq⟩ | ⟨_, heq⟩
    · rw [heq] at h
      exact callerProgress_of_place hy (fun _ => hother) (.hand hwaits hpursuit rfl stage next) h
    · rw [heq] at h
      exact ⟨x', h, .rest hother⟩
  | _ => exact ⟨x', h, .rest hother⟩

/-- A caller that is found after a step was there before, or has just called. -/
theorem Step.caller_source (hstep : c.Step a c' effects) (h : c'.callers.get? n = some x') :
    (∃ x, c.callers.get? n = some x ∧ x.Progress c n a x') ∨
      ∃ query, a = .call query ∧ n = c.nextCaller ∧ x' = Caller.fresh query := by
  cases hstep with
  | call query =>
    replace h : (c.callers.insert c.nextCaller (Caller.fresh query)).get? n = some x' := h
    rw [Table.get?_insert] at h
    split at h
    next hn =>
      cases h
      exact .inr ⟨query, rfl, hn.symm, rfl⟩
    next => exact .inl ⟨x', h, .rest (ne_some_of_eq_none rfl)⟩
  | caller hcaller hstep => exact .inl (hstep.progress hcaller h)
  | pursuit hpursuit hstep => exact .inl (hstep.callerProgress hpursuit h)
  | notify hnotified =>
    rw [notify_eq hnotified] at h
    exact .inl ⟨x', h, .rest (ne_some_of_eq_none rfl)⟩
  | _ => exact .inl ⟨x', h, .rest (ne_some_of_eq_none rfl)⟩

theorem stays_of_modify {f : Caller → Caller} (h : c.callers.get? n = some x) :
    ∃ x', (c.callers.modify m f).get? n = some x' := by
  rw [Table.get?_modify, h]
  split
  · exact ⟨f x, rfl⟩
  · exact ⟨x, rfl⟩

theorem stays_of_insert {y : Caller} (h : c.callers.get? n = some x) :
    ∃ x', (c.callers.insert m y).get? n = some x' := by
  rw [Table.get?_insert, h]
  split
  · exact ⟨y, rfl⟩
  · exact ⟨x, rfl⟩

/-- No caller is ever forgotten. -/
theorem Step.caller_stays (hstep : c.Step a c' effects) (h : c.callers.get? n = some x) :
    ∃ x', c'.callers.get? n = some x' := by
  cases hstep with
  | call => exact stays_of_insert h
  | register => exact ⟨x, h⟩
  | unregister => exact ⟨x, h⟩
  | announce => exact ⟨x, h⟩
  | notify hnotified =>
    rw [notify_eq hnotified]
    exact ⟨x, h⟩
  | receive => exact ⟨x, h⟩
  | caller _ hstep =>
    cases hstep with
    | cancel => exact stays_of_insert h
    | drop =>
      rw [callers_depart]
      exact stays_of_modify h
    | quit =>
      rw [callers_depart]
      exact stays_of_modify h
    | _ => exact stays_of_modify h
  | @pursuit m p _ _ _ _ hstep =>
    cases hstep with
    | @release _ _ next =>
      cases next <;> exact ⟨x, h⟩
    | @land result =>
      have hlanding := c.landing_rule m p.key result
      generalize c.land m p.key result = d at hlanding ⊢
      cases hlanding <;> exact ⟨x, h⟩
    | @hand result waiters waiter caller =>
      rcases c.hand_rule ⟨p.key, m, waiter⟩ caller result with ⟨_, heq⟩ | ⟨_, heq⟩
      · rw [heq]
        exact stays_of_modify h
      · rw [heq]
        exact ⟨x, h⟩
    | _ => exact ⟨x, h⟩

/-- Every caller makes progress of some kind, or stays as it is. -/
theorem Step.caller_progress (hstep : c.Step a c' effects) (hattended : c.Attended)
    (h : c.callers.get? n = some x) :
    ∃ x', c'.callers.get? n = some x' ∧ x.Progress c n a x' := by
  obtain ⟨x', hx'⟩ := hstep.caller_stays h
  refine ⟨x', hx', ?_⟩
  rcases hstep.caller_source hx' with ⟨y, hy, hprogress⟩ | ⟨_, _, hn, _⟩
  · rw [h] at hy
    cases hy
    exact hprogress
  · exact absurd hn (Nat.ne_of_lt (hattended.roster n x h))

/-! ### Flights -/

/-- A caller that departs leaves the flight at which it waits, and no other. -/
theorem Attended.flightStep_of_depart {stage : Caller.Stage} {key : RequestKey} (h : c.Attended)
    (hcaller : c.callers.get? n = some x) (hdeparts : a = .drop n ∨ a = .quit n) :
    c.FlightStep key a (c.depart n x stage) := by
  unfold Client.depart
  split
  next seat hseat =>
    have hleave := c.leave_rule seat
    generalize c.leave seat = d at hleave ⊢
    cases hleave with
    | late => exact .rest rfl
    | @last f hcurrent halone =>
      by_cases hkey : seat.key = key
      · subst hkey
        obtain ⟨hflight, hid⟩ := Flights.current?_eq_some.mp hcurrent
        obtain ⟨p, hp, _⟩ := h.pursued _ f hflight
        rw [hid] at hp
        refine .abort (p := { p with aborted := true }) hdeparts
          (h.waits_of_seat hcaller hseat hcurrent) rfl hcurrent halone ?_ ?_ rfl
        · exact (Table.get?_erase _ _ _).trans (if_pos rfl)
        · refine (Table.get?_modify _ _ _ _).trans ?_
          rw [if_pos rfl, hp]
          rfl
      · exact .rest ((Table.get?_erase _ _ _).trans (if_neg hkey))
    | @other f hcurrent hothers =>
      by_cases hkey : seat.key = key
      · subst hkey
        refine .leave hdeparts (h.waits_of_seat hcaller hseat hcurrent) rfl hcurrent hothers ?_
        exact (Table.get?_insert _ _ _ _).trans (if_pos rfl)
      · exact .rest ((Table.get?_insert _ _ _ _).trans (if_neg hkey))
  next => exact .rest rfl

theorem Attended.flightStep_of_callerStep {key : RequestKey} (h : c.Attended)
    (hcaller : c.callers.get? n = some x) (hstep : c.CallerStep n x a c' effects) :
    c.FlightStep key a c' := by
  cases hstep with
  | shift => exact .rest rfl
  | cancel => exact .rest rfl
  | drop => exact h.flightStep_of_depart hcaller (.inl rfl)
  | quit => exact h.flightStep_of_depart hcaller (.inr rfl)
  | @join r f stage wanted flight =>
    by_cases hkey : r.key = key
    · subst hkey
      refine .join hcaller stage rfl wanted flight ?_ ?_
      · exact (Table.get?_insert _ _ _ _).trans (if_pos rfl)
      · exact (waits_place hcaller).mpr (by rw [if_pos rfl])
    · exact .rest ((Table.get?_insert _ _ _ _).trans (if_neg hkey))
  | stored => exact .rest rfl
  | @begin r stage wanted noFlight missing =>
    by_cases hkey : r.key = key
    · subst hkey
      refine .begin hcaller stage rfl wanted noFlight missing ?_ ?_ rfl ?_
      · exact (Table.get?_insert _ _ _ _).trans (if_pos rfl)
      · exact (Table.get?_insert _ _ _ _).trans (if_pos rfl)
      · exact (waits_place hcaller).mpr (by rw [if_pos rfl])
    · exact .rest ((Table.get?_insert _ _ _ _).trans (if_neg hkey))

/-- What a pursuit's step does to the flight of a key is one of the rules for flights. -/
theorem flightStep_of_pursuitStep {key : RequestKey} (hpursuit : c.pursuits.get? n = some p)
    (hstep : c.PursuitStep n p a c' effects) : c.FlightStep key a c' := by
  cases hstep with
  | @release _ _ next =>
    cases next <;> exact .rest rfl
  | @land result stage =>
    have hlanding := c.landing_rule n p.key result
    generalize c.land n p.key result = d at hlanding ⊢
    cases hlanding with
    | late => exact .rest rfl
    | @timely f hcurrent =>
      by_cases hkey : p.key = key
      · subst hkey
        refine .land hpursuit rfl stage hcurrent ?_ ?_ rfl
        · exact (Table.get?_erase _ _ _).trans (if_pos rfl)
        · refine (Table.get?_modify _ _ _ _).trans ?_
          rw [if_pos rfl, hpursuit]
          rfl
      · exact .rest ((Table.get?_erase _ _ _).trans (if_neg hkey))
  | hand =>
    rw [hand_eq]
    exact .rest rfl
  | _ => exact .rest rfl

/-- Only callers that enter, callers that wait for the flight, and the pursuit of the flight itself
change what is in the table for a key. -/
theorem Attended.flightStep (h : c.Attended) (hstep : c.Step a c' effects) (key : RequestKey) :
    c.FlightStep key a c' := by
  cases hstep with
  | notify hnotified =>
    rw [notify_eq hnotified]
    exact .rest rfl
  | caller hcaller hstep => exact h.flightStep_of_callerStep hcaller hstep
  | pursuit hpursuit hstep => exact flightStep_of_pursuitStep hpursuit hstep
  | _ => exact .rest rfl

end Client

end LightClient
