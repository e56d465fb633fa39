/-
Module: LightClient.Proofs.Retrieval.Flights
Purpose: What leaving, landing and handing over do to the flights, and what it means that flights,
  pursuits and callers belong together: a flight in the table has a pursuit that still works for it
  and callers that wait for it, and a caller that waits has its place at a flight in the table or is
  about to be handed what its flight brought.
Main exports: Client.Leave, Client.Landing, Client.Waits, Client.Holds, Client.Serves,
  Client.Pursues, Client.Attended
-/
import LightClient.Proofs.Retrieval.Runs
import LightClient.Proofs.Table

namespace LightClient

open Client (Action Effect)

/-! ### Leaving and landing -/

namespace Flights

variable {fs : Flights} {key : RequestKey} {id : Nat} {f : Flight}

theorem current?_eq_some : fs.current? key id = some f ↔ fs.get? key = some f ∧ f.id = id := by
  simp [current?, Option.filter_eq_some_iff]

/-- A flight that is not current for a number has another number. -/
theorem current?_eq_none (h : fs.current? key id = none) (hflight : fs.get? key = some f) :
    f.id ≠ id := by
  intro hid
  have hcurrent : fs.current? key id = some f := current?_eq_some.mpr ⟨hflight, hid⟩
  rw [h] at hcurrent
  cases hcurrent

end Flights

variable [ItemCache] [DelaySeries]

namespace Client

/-- What a caller that gives up its place does to the flights. -/
inductive Leave (c : Client) (seat : Caller.Seat) : Client → Prop where
  /-- The flight is no longer in the table. -/
  | late (gone : c.flights.current? seat.key seat.flight = none) : Leave c seat c
  /-- Nobody else waits: the flight is taken out, and its pursuit is aborted. -/
  | last {f : Flight} (flight : c.flights.current? seat.key seat.flight = some f)
      (alone : (f.leave seat.waiter).waiters = []) :
      Leave c seat
        { c with
          flights := c.flights.erase seat.key
          pursuits := c.pursuits.modify seat.flight fun p => { p with aborted := true } }
  /-- Somebody else still waits. -/
  | other {f : Flight} (flight : c.flights.current? seat.key seat.flight = some f)
      (others : (f.leave seat.waiter).waiters ≠ []) :
      Leave c seat { c with flights := c.flights.insert seat.key (f.leave seat.waiter) }

/-- The function that takes a caller off its seat does what the rule says. -/
theorem leave_rule (c : Client) (seat : Caller.Seat) : c.Leave seat (c.leave seat) := by
  unfold leave Flights.leave
  cases hflight : c.flights.current? seat.key seat.flight with
  | none => exact .late hflight
  | some f =>
    by_cases halone : (f.leave seat.waiter).waiters = []
    · simp only [halone, List.isEmpty_nil, if_true]
      exact .last hflight halone
    · have hothers : (f.leave seat.waiter).waiters.isEmpty = false := by simpa using halone
      simp only [hothers, Bool.false_eq_true, if_false]
      exact .other hflight halone

/-- What the store holds once a flight of the key has landed. -/
def stock (c : Client) (key : RequestKey) : Retrieved → ItemStore
  | .ok item => c.store.put key item
  | .error _ => c.store

/-- What a pursuit that lands does to the flights and to the store. -/
inductive Landing (c : Client) (n : Nat) (key : RequestKey) (result : Retrieved) :
    Client → Prop where
  /-- The flight is no longer in the table. -/
  | late (gone : c.flights.current? key n = none) : Landing c n key result (c.retire n)
  /-- The flight is taken out, and its callers are to be handed the result. -/
  | timely {f : Flight} (flight : c.flights.current? key n = some f) :
      Landing c n key result
        ({ c with store := c.stock key result, flights := c.flights.erase key }.move n
          (.handing result f.waiters))

/-- The function that lands a flight does what the rule says. -/
theorem landing_rule (c : Client) (n : Nat) (key : RequestKey) (result : Retrieved) :
    c.Landing n key result (c.land n key result) := by
  unfold land
  cases hflight : c.flights.current? key n with
  | none => exact .late hflight
  | some f => cases result <;> exact .timely hflight

end Client

/-! ### The stages of a pursuit -/

namespace Pursuit

/-- The flight of the pursuit has landed. -/
def landed (p : Pursuit) : Bool :=
  match p.stage with
  | .handing _ _ => true
  | _ => false

/-- The pursuit ends as soon as its place is given back. -/
def ending (p : Pursuit) : Bool :=
  match p.stage with
  | .releasing _ _ .stop => true
  | _ => false

variable {c : Client} {n : Nat} {p : Pursuit} {a : Action}

theorem Shift.not_landed {stage : Stage} {effects : List Effect}
    (h : p.Shift c n a stage effects) :
    p.landed = false ∧ ({ p with stage := stage } : Pursuit).landed = false ∧
      ({ p with stage := stage } : Pursuit).ending = false := by
  cases h <;> simp only [landed, ending, *, and_self]

theorem Conclusion.not_landed {held : Assignment} {t : Ticket} {outcome : Outcome} {next : Next}
    (h : p.Conclusion c n a held t outcome next) : p.landed = false := by
  cases h <;> simp only [landed, *]

/-- Only an aborted pursuit ends where it waits for a reply. -/
theorem Conclusion.aborted {held : Assignment} {t : Ticket} {outcome : Outcome}
    (h : p.Conclusion c n a held t outcome .stop) : p.aborted = true := by
  cases h with
  | stopSending stage aborted => exact aborted
  | stopAwaiting stage aborted => exact aborted

omit [ItemCache] [DelaySeries] in
theorem Idle.not_landed (h : p.Idle) : p.landed = false := by
  cases h <;> simp only [landed, *]

end Pursuit

/-- A caller with this stage has no place at any flight. -/
def Caller.Stage.seatless : Caller.Stage → Bool
  | .waiting _ => false
  | .handed _ _ => false
  | _ => true

/-! ### Flights, pursuits and callers -/

namespace Client

/-- The caller waits, with this place. -/
def Waits (c : Client) (n : Nat) (seat : Caller.Seat) : Prop :=
  ∃ x, c.callers.get? n = some x ∧ x.stage = .waiting seat

/-- The caller has been handed a result, from a flight at which it had this place. -/
def Handed (c : Client) (n : Nat) (seat : Caller.Seat) : Prop :=
  ∃ x result, c.callers.get? n = some x ∧ x.stage = .handed seat result

/-- The flight of the place is in the table, and the place in it is the caller's. -/
def Holds (c : Client) (n : Nat) (seat : Caller.Seat) : Prop :=
  ∃ f, c.flights.current? seat.key seat.flight = some f ∧ f.waiters.get? seat.waiter = some n

/-- The flight of the place has landed, and its pursuit is about to hand the result to the
caller. -/
def Serves (c : Client) (n : Nat) (seat : Caller.Seat) (result : Retrieved) : Prop :=
  ∃ p waiters, c.pursuits.get? seat.flight = some p ∧ p.key = seat.key ∧
    p.stage = .handing result waiters ∧ Table.get? waiters seat.waiter = some n

/-- A pursuit works for the flight of this key and number: it has been neither aborted nor landed. -/
def Pursues (c : Client) (key : RequestKey) (id : Nat) : Prop :=
  ∃ p, c.pursuits.get? id = some p ∧ p.key = key ∧ p.aborted = false ∧ p.landed = false

section

variable {c : Client} {n : Nat} {x : Caller} {seat : Caller.Seat}

/-- A caller waits on a seat just when its stage says so. -/
theorem waits_iff_stage (hcaller : c.callers.get? n = some x) :
    c.Waits n seat ↔ x.stage = .waiting seat := by
  simp [Waits, hcaller]

/-- A caller with another stage. -/
theorem waits_place {m : Nat} {stage : Caller.Stage} (hcaller : c.callers.get? n = some x) :
    (c.place n stage).Waits m seat ↔
      if n = m then stage = .waiting seat else c.Waits m seat := by
  unfold Waits place
  simp only [Table.get?_modify]
  by_cases hm : n = m
  · subst hm
    simp [hcaller]
  · simp only [if_neg hm]

/-- Only a caller that is placed can be handed a result by the placing. -/
theorem handed_place {m : Nat} {stage : Caller.Stage} (hcaller : c.callers.get? n = some x) :
    (c.place n stage).Handed m seat ↔
      if n = m then ∃ result, stage = .handed seat result else c.Handed m seat := by
  unfold Handed place
  simp only [Table.get?_modify]
  by_cases hm : n = m
  · subst hm
    simp [hcaller]
  · simp only [if_neg hm]

/-- A caller is handed a result if it still waits with its place. -/
theorem hand_rule (c : Client) (seat : Caller.Seat) (m : Nat) (result : Retrieved) :
    c.Waits m seat ∧ c.hand seat m result = c.place m (.handed seat result) ∨
      ¬ c.Waits m seat ∧ c.hand seat m result = c := by
  unfold Client.hand
  cases hcaller : c.callers.get? m with
  | none =>
    right
    refine ⟨?_, rfl⟩
    rintro ⟨x, hx, _⟩
    rw [hcaller] at hx
    cases hx
  | some x =>
    simp only [Option.map_some]
    split
    next seat' hstage =>
      replace hstage : x.stage = .waiting seat' := Option.some.inj hstage
      split
      next hseat =>
        subst hseat
        exact .inl ⟨⟨x, hcaller, hstage⟩, rfl⟩
      next hseat =>
        right
        refine ⟨?_, rfl⟩
        rw [waits_iff_stage hcaller, hstage]
        exact fun hwaiting => hseat (Caller.Stage.waiting.inj hwaiting)
    next hstage =>
      right
      refine ⟨?_, rfl⟩
      rw [waits_iff_stage hcaller]
      exact fun hwaiting => hstage seat (congrArg some hwaiting)

end

/-- Flights, pursuits and callers belong together. -/
structure Attended (c : Client) : Prop where
  roster : c.callers.All fun n _ => n < c.nextCaller
  numbers : c.pursuits.All fun n _ => n < c.nextFlight
  /-- A flight has callers, each of which waits with its place. -/
  crowded : c.flights.All fun key f => f.waiters ≠ [] ∧ f.waiters.All fun waiter n =>
    waiter < f.nextWaiter ∧ c.Waits n ⟨key, f.id, waiter⟩
  /-- A pursuit works for every flight. -/
  pursued : c.flights.All fun key f => c.Pursues key f.id
  /-- The flight of a pursuit that works is in the table. -/
  aloft : c.pursuits.All fun n p => p.aborted = false → p.landed = false →
    ∃ f, c.flights.current? p.key n = some f
  /-- A pursuit whose flight has landed has not been aborted. -/
  landed : c.pursuits.All fun _ p => p.landed = true → p.aborted = false
  /-- Only aborted pursuits end without an outcome. -/
  ending : c.pursuits.All fun _ p => p.ending = true → p.aborted = true
  /-- A caller that waits has its place, or is about to be handed the result. -/
  served : ∀ n seat, c.Waits n seat → c.Holds n seat ∨ ∃ result, c.Serves n seat result
  /-- A caller is handed a result only once its flight has landed. -/
  handed : ∀ n seat, c.Handed n seat →
    seat.flight < c.nextFlight ∧ c.flights.current? seat.key seat.flight = none

namespace Attended

variable {c : Client} {n : Nat} {p : Pursuit} {x : Caller} {seat : Caller.Seat}

theorem empty (s : ClientSettings) : (Client.empty s).Attended where
  roster := Table.All.empty
  numbers := Table.All.empty
  crowded := Table.All.empty
  pursued := Table.All.empty
  aloft := Table.All.empty
  landed := Table.All.empty
  ending := Table.All.empty
  served n seat h := by
    obtain ⟨x, hx, _⟩ := h
    cases hx
  handed n seat h := by
    obtain ⟨x, result, hx, _⟩ := h
    cases hx

/-- A flight is known by its number. -/
theorem key_unique (h : c.Attended) {key key' : RequestKey} {f f' : Flight}
    (hf : c.flights.get? key = some f) (hf' : c.flights.get? key' = some f') (hid : f.id = f'.id) :
    key = key' := by
  obtain ⟨p, hp, hkey, _⟩ := h.pursued key f hf
  obtain ⟨p', hp', hkey', _⟩ := h.pursued key' f' hf'
  rw [hid, hp'] at hp
  cases hp
  rw [← hkey, ← hkey']

/-- The flight of a pursuit that has landed is no longer in the table. -/
theorem gone_of_landed (h : c.Attended) (hpursuit : c.pursuits.get? n = some p)
    (hlanded : p.landed = true) (key : RequestKey) : c.flights.current? key n = none := by
  rw [Option.eq_none_iff_forall_ne_some]
  intro f hf
  obtain ⟨hget, rfl⟩ := Flights.current?_eq_some.mp hf
  obtain ⟨q, hq, _, _, hnot⟩ := h.pursued key f hget
  rw [hpursuit] at hq
  cases hq
  rw [hlanded] at hnot
  cases hnot

/-- Nobody is served at a flight that is in the table. -/
theorem not_serves (h : c.Attended) {f : Flight} {result : Retrieved}
    (hflight : c.flights.current? seat.key seat.flight = some f) : ¬ c.Serves n seat result := by
  rintro ⟨p, waiters, hp, _, hstage, _⟩
  have hgone := h.gone_of_landed hp (by rw [Pursuit.landed, hstage]) seat.key
  rw [hflight] at hgone
  cases hgone

/-- A caller that waits at a flight in the table has its place there. -/
theorem waiter_of_waits (h : c.Attended) (hwaits : c.Waits n seat) {f : Flight}
    (hflight : c.flights.current? seat.key seat.flight = some f) :
    f.waiters.get? seat.waiter = some n := by
  rcases h.served n seat hwaits with ⟨g, hg, hwaiter⟩ | ⟨result, hserves⟩
  · rw [hflight] at hg
    cases hg
    exact hwaiter
  · exact absurd hserves (h.not_serves hflight)

/-- A caller that waits for a flight in the table waits under its key. -/
theorem key_of_waits (h : c.Attended) (hwaits : c.Waits n seat) {key : RequestKey} {f : Flight}
    (hflight : c.flights.current? key seat.flight = some f) : seat.key = key := by
  rcases h.served n seat hwaits with ⟨g, hg, _⟩ | ⟨result, p, waiters, hp, _, hstage, _⟩
  · obtain ⟨hg, hid⟩ := Flights.current?_eq_some.mp hg
    obtain ⟨hf, hid'⟩ := Flights.current?_eq_some.mp hflight
    exact h.key_unique hg hf (hid.trans hid'.symm)
  · have hgone := h.gone_of_landed hp (by rw [Pursuit.landed, hstage]) key
    rw [hflight] at hgone
    cases hgone

/-- A caller that has a place waits with it. -/
theorem waits_of_holds (h : c.Attended) (hholds : c.Holds n seat) : c.Waits n seat := by
  obtain ⟨f, hf, hwaiter⟩ := hholds
  obtain ⟨hget, hid⟩ := Flights.current?_eq_some.mp hf
  have hwaits := ((h.crowded seat.key f hget).2 seat.waiter n hwaiter).2
  rw [hid] at hwaits
  exact hwaits

/-- A caller waits for a flight that has begun. -/
theorem flight_lt (h : c.Attended) (hwaits : c.Waits n seat) : seat.flight < c.nextFlight := by
  rcases h.served n seat hwaits with ⟨f, hf, _⟩ | ⟨result, p, waiters, hp, _⟩
  · obtain ⟨hget, hid⟩ := Flights.current?_eq_some.mp hf
    obtain ⟨p, hp, _⟩ := h.pursued _ f hget
    exact h.numbers _ p (hid ▸ hp)
  · exact h.numbers _ p hp

/-- A caller with a place at a flight in the table waits there. -/
theorem waits_of_seat (h : c.Attended) (hcaller : c.callers.get? n = some x)
    (hseat : x.seat? = some seat) {f : Flight}
    (hflight : c.flights.current? seat.key seat.flight = some f) : c.Waits n seat := by
  unfold Caller.seat? at hseat
  split at hseat
  next stage =>
    cases hseat
    exact ⟨x, hcaller, stage⟩
  next result stage =>
    cases hseat
    obtain ⟨_, hgone⟩ := h.handed n seat ⟨x, result, hcaller, stage⟩
    rw [hflight] at hgone
    cases hgone
  next => cases hseat

end Attended

end Client

end LightClient
