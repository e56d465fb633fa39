/-
Module: LightClient.Proofs.Retrieval.Attendance
Purpose: In every state that can be reached, flights, pursuits and callers belong together.
Main exports: Client.Attended.reseat, Client.Attended.alter, Client.Attended.refit,
  Client.Attended.clear, Run.attended
-/
import LightClient.Proofs.Retrieval.Flights

namespace LightClient

open Client (Action Effect)

variable [ItemCache] [DelaySeries]

namespace Client

namespace Attended

variable {c : Client} {n : Nat} {p : Pursuit} {x : Caller} {seat : Caller.Seat}

/-! #### Changes of callers -/

/-- About the callers it only matters who waits and who has been handed a result: those that have a
place still wait, nobody else begins to, and who is handed a result has seen its flight land. -/
theorem reseat {callers : Table Nat Caller} {nextCaller : Nat} (h : c.Attended)
    (hroster : callers.All fun n _ => n < nextCaller)
    (hholds : ∀ n seat, c.Holds n seat → ({ c with callers, nextCaller } : Client).Waits n seat)
    (hwaits : ∀ n seat, ({ c with callers, nextCaller } : Client).Waits n seat → c.Waits n seat)
    (hhanded : ∀ n seat, ({ c with callers, nextCaller } : Client).Handed n seat →
      c.Handed n seat ∨
        seat.flight < c.nextFlight ∧ c.flights.current? seat.key seat.flight = none) :
    ({ c with callers, nextCaller } : Client).Attended where
  roster := hroster
  numbers := h.numbers
  crowded key f hf := by
    obtain ⟨hne, hall⟩ := h.crowded key f hf
    refine ⟨hne, fun waiter n hwaiter => ⟨(hall waiter n hwaiter).1, hholds n _ ?_⟩⟩
    exact ⟨f, Flights.current?_eq_some.mpr ⟨hf, rfl⟩, hwaiter⟩
  pursued := h.pursued
  aloft := h.aloft
  landed := h.landed
  ending := h.ending
  served n seat hwait := h.served n seat (hwaits n seat hwait)
  handed n seat hhand := (hhanded n seat hhand).elim (h.handed n seat) id

/-- A caller that has no place, and gets none, matters to no flight. -/
theorem place {stage : Caller.Stage} (h : c.Attended) (hcaller : c.callers.get? n = some x)
    (hbefore : ∀ seat, ¬ c.Holds n seat) (hafter : stage.seatless = true) :
    (c.place n stage).Attended := by
  apply h.reseat (h.roster.modify fun y hy => h.roster n y hy)
  · intro m seat hholds
    apply (waits_place hcaller).mpr
    rw [if_neg]
    · exact h.waits_of_holds hholds
    · rintro rfl
      exact hbefore seat hholds
  · intro m seat hwaits
    replace hwaits := (waits_place hcaller).mp hwaits
    split at hwaits
    next =>
      rw [hwaits] at hafter
      cases hafter
    next => exact hwaits
  · intro m seat hhanded
    replace hhanded := (handed_place hcaller).mp hhanded
    split at hhanded
    next =>
      obtain ⟨result, hstage⟩ := hhanded
      rw [hstage] at hafter
      cases hafter
    next => exact .inl hhanded

/-- A new caller waits for nobody. -/
theorem call {query : Query} (h : c.Attended) :
    ({ c with
      callers := c.callers.insert c.nextCaller (Caller.fresh query)
      nextCaller := c.nextCaller + 1 } : Client).Attended := by
  have hroster : c.callers.All fun n _ => n < c.nextCaller + 1 :=
    h.roster.imp fun _ _ _ hn => Nat.lt_succ_of_lt hn
  have hnew : ∀ m y, (c.callers.insert c.nextCaller (Caller.fresh query)).get? m = some y →
      y = Caller.fresh query ∨ c.callers.get? m = some y := by
    intro m y hy
    rw [Table.get?_insert] at hy
    split at hy
    · exact .inl (Option.some.inj hy).symm
    · exact .inr hy
  apply h.reseat (Table.All.insert hroster (Nat.lt_succ_self _))
  · intro m seat hholds
    obtain ⟨y, hy, hstage⟩ := h.waits_of_holds hholds
    refine ⟨y, ?_, hstage⟩
    rw [Table.get?_insert, if_neg (Nat.ne_of_gt (h.roster m y hy)), hy]
  · rintro m seat ⟨y, hy, hstage⟩
    rcases hnew m y hy with rfl | hy
    · cases hstage
    · exact ⟨y, hy, hstage⟩
  · rintro m seat ⟨y, result, hy, hstage⟩
    rcases hnew m y hy with rfl | hy
    · cases hstage
    · exact .inl ⟨y, result, hy, hstage⟩

/-- A canceled caller keeps its place in the flight until it gives it up. -/
theorem cancel (h : c.Attended) (hcaller : c.callers.get? n = some x) :
    ({ c with callers := c.callers.insert n { x with canceled := true } } : Client).Attended := by
  have hstages : ∀ m stage,
      (∃ y, (c.callers.insert n { x with canceled := true }).get? m = some y ∧ y.stage = stage) ↔
        ∃ y, c.callers.get? m = some y ∧ y.stage = stage := by
    intro m stage
    rw [Table.get?_insert]
    split
    next hm =>
      subst hm
      simp [hcaller]
    next => rfl
  apply h.reseat (h.roster.insert (h.roster n x hcaller))
  · exact fun m seat hholds => (hstages m _).mpr (h.waits_of_holds hholds)
  · exact fun m seat hwaits => (hstages m _).mp hwaits
  · rintro m seat ⟨y, result, hy, hstage⟩
    obtain ⟨z, hz, hstage⟩ := (hstages m _).mp ⟨y, hy, hstage⟩
    exact .inl ⟨z, result, hz, hstage⟩

/-! #### Changes of pursuits -/

/-- A pursuit changes, but neither lands nor is aborted by it, and those that it is about to serve
it still is. -/
theorem alter {f : Pursuit → Pursuit} (h : c.Attended) (hpursuit : c.pursuits.get? n = some p)
    (hkey : (f p).key = p.key) (haborted : (f p).aborted = p.aborted)
    (hlanded : (f p).landed = p.landed) (hending : (f p).ending = true → p.aborted = true)
    (hserves : ∀ m seat result, c.Waits m seat → seat.flight = n → c.Serves m seat result →
      ∃ waiters, (f p).stage = .handing result waiters ∧
        Table.get? waiters seat.waiter = some m) :
    ({ c with pursuits := c.pursuits.modify n f } : Client).Attended := by
  have hget : ∀ m q, (c.pursuits.modify n f).get? m = some q →
      c.pursuits.get? m = some q ∨ m = n ∧ q = f p := by
    intro m q hq
    rw [Table.get?_modify] at hq
    split at hq
    next hm =>
      subst hm
      rw [hpursuit] at hq
      exact .inr ⟨rfl, (Option.some.inj hq).symm⟩
    next => exact .inl hq
  have hchanged : (c.pursuits.modify n f).get? n = some (f p) := by
    rw [Table.get?_modify, if_pos rfl, hpursuit, Option.map_some]
  constructor
  case roster => exact h.roster
  case numbers => exact h.numbers.modify fun q hq => h.numbers n q hq
  case crowded => exact h.crowded
  case pursued =>
    intro key g hg
    obtain ⟨q, hq, hqkey, hqaborted, hqlanded⟩ := h.pursued key g hg
    by_cases hn : n = g.id
    · subst hn
      rw [hpursuit] at hq
      cases hq
      exact ⟨f p, hchanged, hkey.trans hqkey, haborted.trans hqaborted, hlanded.trans hqlanded⟩
    · refine ⟨q, ?_, hqkey, hqaborted, hqlanded⟩
      simp only [Table.get?_modify, if_neg hn, hq]
  case aloft =>
    intro m q hq hqaborted hqlanded
    rcases hget m q hq with hq | ⟨rfl, rfl⟩
    · exact h.aloft m q hq hqaborted hqlanded
    · rw [hkey]
      exact h.aloft m p hpursuit (haborted.symm.trans hqaborted) (hlanded.symm.trans hqlanded)
  case landed =>
    intro m q hq hqlanded
    rcases hget m q hq with hq | ⟨rfl, rfl⟩
    · exact h.landed m q hq hqlanded
    · exact haborted.trans (h.landed m p hpursuit (hlanded.symm.trans hqlanded))
  case ending =>
    intro m q hq hqending
    rcases hget m q hq with hq | ⟨rfl, rfl⟩
    · exact h.ending m q hq hqending
    · exact haborted.trans (hending hqending)
  case served =>
    intro m seat hwaits
    rcases h.served m seat hwaits with hholds | ⟨result, hserved⟩
    · exact .inl hholds
    -- only the changed pursuit can have stopped serving somebody
    · by_cases hn : seat.flight = n
      · obtain ⟨waiters, hstage, hwaiter⟩ := hserves m seat result hwaits hn hserved
        obtain ⟨q, _, hq, hqkey, _, _⟩ := hserved
        subst hn
        rw [hpursuit] at hq
        cases hq
        exact .inr ⟨result, f p, waiters, hchanged, hkey.trans hqkey, hstage, hwaiter⟩
      · obtain ⟨q, waiters, hq, hserved⟩ := hserved
        refine .inr ⟨result, q, waiters, ?_, hserved⟩
        simp only [Table.get?_modify, if_neg (Ne.symm hn), hq]
  case handed => exact h.handed

/-- A pursuit whose flight has not landed serves nobody. -/
theorem turn {f : Pursuit → Pursuit} (h : c.Attended) (hpursuit : c.pursuits.get? n = some p)
    (hkey : (f p).key = p.key) (haborted : (f p).aborted = p.aborted) (hbefore : p.landed = false)
    (hafter : (f p).landed = false) (hending : (f p).ending = true → p.aborted = true) :
    ({ c with pursuits := c.pursuits.modify n f } : Client).Attended := by
  apply h.alter hpursuit hkey haborted (hafter.trans hbefore.symm) hending
  rintro m seat result _ rfl ⟨q, waiters, hq, _, hstage, _⟩
  rw [hpursuit] at hq
  cases hq
  rw [Pursuit.landed, hstage] at hbefore
  cases hbefore

/-- A pursuit is over once it was aborted, or has handed its result to everybody. -/
theorem retire (h : c.Attended) (hpursuit : c.pursuits.get? n = some p)
    (hover : p.aborted = true ∨ ∃ result, p.stage = .handing result []) :
    (c.retire n).Attended := by
  have hget : ∀ m q, (c.pursuits.erase n).get? m = some q → c.pursuits.get? m = some q := by
    intro m q hq
    rw [Table.get?_erase] at hq
    split at hq
    · cases hq
    · exact hq
  constructor
  case roster => exact h.roster
  case numbers => exact h.numbers.erase
  case crowded => exact h.crowded
  case pursued =>
    intro key f hf
    obtain ⟨q, hq, hkey, haborted, hlanded⟩ := h.pursued key f hf
    -- a pursuit that is over works for no flight
    have hn : n ≠ f.id := by
      rintro rfl
      rw [hpursuit] at hq
      cases hq
      rcases hover with hover | ⟨result, hstage⟩
      · rw [haborted] at hover
        cases hover
      · rw [Pursuit.landed, hstage] at hlanded
        cases hlanded
    exact ⟨q, by rw [Client.retire, Table.get?_erase, if_neg hn, hq], hkey, haborted, hlanded⟩
  case aloft => exact h.aloft.erase
  case landed => exact h.landed.erase
  case ending => exact h.ending.erase
  case served =>
    intro m seat hwaits
    rcases h.served m seat hwaits with hholds | ⟨result, q, waiters, hq, hkey, hstage, hwaiter⟩
    · exact .inl hholds
    · have hn : n ≠ seat.flight := by
        rintro rfl
        rw [hpursuit] at hq
        cases hq
        rcases hover with hover | ⟨result', hstage'⟩
        · have hlanded := h.landed _ p hpursuit (by rw [Pursuit.landed, hstage])
          rw [hover] at hlanded
          cases hlanded
        · rw [hstage] at hstage'
          cases hstage'
          cases hwaiter
      refine .inr ⟨result, q, waiters, ?_, hkey, hstage, hwaiter⟩
      rw [Client.retire, Table.get?_erase, if_neg hn, hq]
  case handed => exact h.handed

/-! #### Callers that come and go -/

/-- At a flight in the table, those wait who have a place. -/
theorem waits_iff (h : c.Attended) {key : RequestKey} {f : Flight}
    (hflight : c.flights.get? key = some f) (hseat : seat.key = key ∧ seat.flight = f.id) :
    c.Waits n seat ↔ f.waiters.get? seat.waiter = some n := by
  obtain ⟨rfl, hid⟩ := hseat
  have hcurrent : c.flights.current? seat.key seat.flight = some f :=
    Flights.current?_eq_some.mpr ⟨hflight, hid.symm⟩
  constructor
  · exact fun hwaits => h.waiter_of_waits hwaits hcurrent
  · exact fun hwaiter => h.waits_of_holds ⟨f, hcurrent, hwaiter⟩

/-- A caller comes or goes, and a flight with it: those that wait at the flight afterwards are those
that have a place there. -/
theorem refit {stage : Caller.Stage} {key : RequestKey} {f g : Flight} (h : c.Attended)
    (hcaller : c.callers.get? n = some x) (hstage : ∀ seat result, stage ≠ .handed seat result)
    (hflight : c.flights.get? key = some f) (hid : g.id = f.id) (hcrowd : g.waiters ≠ [])
    (hseats : g.waiters.All fun waiter _ => waiter < g.nextWaiter)
    (hwaits : ∀ m seat, (c.place n stage).Waits m seat ↔
      if seat.key = key ∧ seat.flight = f.id then g.waiters.get? seat.waiter = some m
      else c.Waits m seat) :
    ({ c with flights := c.flights.insert key g }.place n stage).Attended := by
  have hget : ∀ key' f', Table.get? (c.flights.insert key g) key' = some f' →
      key' = key ∧ f' = g ∨ key' ≠ key ∧ c.flights.get? key' = some f' := by
    intro key' f' hf'
    rw [Table.get?_insert] at hf'
    split at hf'
    next hkey => exact .inl ⟨hkey.symm, (Option.some.inj hf').symm⟩
    next hkey => exact .inr ⟨Ne.symm hkey, hf'⟩
  have hput : Table.get? (c.flights.insert key g) key = some g := by
    rw [Table.get?_insert, if_pos rfl]
  have hkeep : ∀ key', key' ≠ key →
      Table.get? (c.flights.insert key g) key' = c.flights.get? key' := by
    intro key' hkey
    rw [Table.get?_insert, if_neg (Ne.symm hkey)]
  constructor
  case roster => exact h.roster.modify fun y hy => h.roster n y hy
  case numbers => exact h.numbers
  case crowded =>
    intro key' f' hf'
    rcases hget key' f' hf' with ⟨rfl, rfl⟩ | ⟨hkey, hf'⟩
    · refine ⟨hcrowd, fun waiter m hwaiter => ⟨hseats waiter m hwaiter, (hwaits m _).mpr ?_⟩⟩
      rw [if_pos ⟨rfl, hid⟩]
      exact hwaiter
    · obtain ⟨hne, hall⟩ := h.crowded key' f' hf'
      refine ⟨hne, fun waiter m hwaiter => ⟨(hall waiter m hwaiter).1, (hwaits m _).mpr ?_⟩⟩
      rw [if_neg fun heq => hkey heq.1]
      exact (hall waiter m hwaiter).2
  case pursued =>
    intro key' f' hf'
    rcases hget key' f' hf' with ⟨rfl, rfl⟩ | ⟨_, hf'⟩
    · rw [hid]
      exact h.pursued key' f hflight
    · exact h.pursued key' f' hf'
  case aloft =>
    intro m p hp haborted hlanded
    obtain ⟨f', hf'⟩ := h.aloft m p hp haborted hlanded
    obtain ⟨hfound, rfl⟩ := Flights.current?_eq_some.mp hf'
    by_cases hkey : p.key = key
    · rw [hkey, hflight] at hfound
      cases hfound
      exact ⟨g, Flights.current?_eq_some.mpr ⟨hkey ▸ hput, hid⟩⟩
    · exact ⟨f', Flights.current?_eq_some.mpr ⟨(hkeep _ hkey).trans hfound, rfl⟩⟩
  case landed => exact h.landed
  case ending => exact h.ending
  case served =>
    intro m seat hwait
    replace hwait := (hwaits m seat).mp hwait
    -- a seat at the changed flight is held there; the others stand as they did
    split at hwait
    next hseat =>
      obtain ⟨rfl, hnumber⟩ := hseat
      exact .inl ⟨g, Flights.current?_eq_some.mpr ⟨hput, hid.trans hnumber.symm⟩, hwait⟩
    next hseat =>
      apply (h.served m seat hwait).imp_left
      rintro ⟨f', hf', hwaiter⟩
      obtain ⟨hf', hnumber⟩ := Flights.current?_eq_some.mp hf'
      have hkey : seat.key ≠ key := by
        rintro rfl
        rw [hflight] at hf'
        cases hf'
        exact hseat ⟨rfl, hnumber.symm⟩
      exact ⟨f', Flights.current?_eq_some.mpr ⟨(hkeep _ hkey).trans hf', hnumber⟩, hwaiter⟩
  case handed =>
    intro m seat hhanded
    replace hhanded := (handed_place hcaller).mp hhanded
    split at hhanded
    next =>
      obtain ⟨result, heq⟩ := hhanded
      exact absurd heq (hstage seat result)
    next =>
      obtain ⟨hlt, hgone⟩ := h.handed m seat hhanded
      refine ⟨hlt, Option.eq_none_iff_forall_ne_some.mpr fun f' hf' => ?_⟩
      obtain ⟨hf', hnumber⟩ := Flights.current?_eq_some.mp hf'
      rcases hget _ _ hf' with ⟨hkey, rfl⟩ | ⟨_, hf'⟩
      · rw [hkey] at hgone
        exact Flights.current?_eq_none hgone hflight (hid.symm.trans hnumber)
      · exact Flights.current?_eq_none hgone hf' hnumber

/-- A caller without a place gets one at the flight of a key. -/
theorem join {key : RequestKey} {f : Flight} (h : c.Attended)
    (hcaller : c.callers.get? n = some x) (hbefore : ∀ seat, x.stage ≠ .waiting seat)
    (hflight : c.flights.get? key = some f) :
    ({ c with flights := c.flights.insert key (f.join n) }.place n
      (.waiting ⟨key, f.id, f.nextWaiter⟩)).Attended := by
  have hnot : ∀ seat, ¬ c.Waits n seat := fun seat hwait =>
    hbefore seat ((waits_iff_stage hcaller).mp hwait)
  have hseats : f.waiters.All fun waiter _ => waiter < f.nextWaiter := fun waiter m hwaiter =>
    ((h.crowded key f hflight).2 waiter m hwaiter).1
  have hget : ∀ waiter, (f.join n).waiters.get? waiter =
      if f.nextWaiter = waiter then some n else f.waiters.get? waiter :=
    fun waiter => Table.get?_insert _ _ _ _
  refine h.refit (g := f.join n) hcaller (by simp) hflight rfl ?_ ?_ ?_
  · intro hnil
    have hnew := hget f.nextWaiter
    rw [hnil, if_pos rfl] at hnew
    cases hnew
  · apply Table.All.insert
    · exact hseats.imp fun _ _ _ hlt => Nat.lt_succ_of_lt hlt
    · exact Nat.lt_succ_self _
  · intro m seat
    rw [waits_place hcaller, hget]
    by_cases hseat : seat.key = key ∧ seat.flight = f.id
    · rw [if_pos hseat]
      by_cases hnew : f.nextWaiter = seat.waiter
      · rw [if_pos hnew, Option.some.injEq]
        -- nobody waits with the next place yet
        have hempty : ¬ c.Waits m seat := fun hwaits =>
          absurd (hseats _ _ ((h.waits_iff hflight hseat).mp hwaits)) (by omega)
        obtain ⟨rfl, hnumber⟩ := hseat
        simp [hempty, hnew, ← hnumber]
      · rw [if_neg hnew, ← h.waits_iff hflight hseat]
        split
        next hm =>
          subst hm
          constructor
          · intro heq
            cases heq
            exact absurd rfl hnew
          · exact fun hwaits => absurd hwaits (hnot seat)
        next => rfl
    · rw [if_neg hseat]
      split
      next hm =>
        subst hm
        constructor
        · intro heq
          cases heq
          exact absurd ⟨rfl, rfl⟩ hseat
        · exact fun hwaits => absurd hwaits (hnot seat)
      next => rfl

/-- A caller without a place gets the first one at a new flight. -/
theorem begin {r : Request} (h : c.Attended) (hcaller : c.callers.get? n = some x)
    (hbefore : ∀ seat, x.stage ≠ .waiting seat) (hnone : c.flights.get? r.key = none) :
    ({ c with
      flights := c.flights.insert r.key (Flight.begin c.nextFlight n)
      nextFlight := c.nextFlight + 1
      pursuits := c.pursuits.insert c.nextFlight (Pursuit.fresh r) }.place n
        (.waiting ⟨r.key, c.nextFlight, 0⟩)).Attended := by
  have hkeep : ∀ key f, c.flights.get? key = some f →
      Table.get? (c.flights.insert r.key (Flight.begin c.nextFlight n)) key = some f := by
    intro key f hf
    rw [Table.get?_insert, if_neg, hf]
    rintro rfl
    rw [hnone] at hf
    cases hf
  -- the number of the new flight is above those of all pursuits
  have hpursuits : ∀ m p, c.pursuits.get? m = some p →
      (c.pursuits.insert c.nextFlight (Pursuit.fresh r)).get? m = some p := by
    intro m p hp
    rw [Table.get?_insert, if_neg (Nat.ne_of_gt (h.numbers m p hp)), hp]
  have hput : Table.get? (c.flights.insert r.key (Flight.begin c.nextFlight n)) r.key =
      some (Flight.begin c.nextFlight n) := by
    rw [Table.get?_insert, if_pos rfl]
  have hwaits : ∀ m seat, c.Waits m seat → m ≠ n := by
    rintro m seat hwait rfl
    exact hbefore seat ((waits_iff_stage hcaller).mp hwait)
  have hother : ∀ m seat, c.Waits m seat →
      (c.place n (.waiting ⟨r.key, c.nextFlight, 0⟩)).Waits m seat := by
    intro m seat hwait
    rw [waits_place hcaller, if_neg (Ne.symm (hwaits m seat hwait))]
    exact hwait
  constructor
  case roster => exact h.roster.modify fun y hy => h.roster n y hy
  case numbers =>
    apply Table.All.insert
    · exact h.numbers.imp fun _ _ _ hlt => Nat.lt_succ_of_lt hlt
    · exact Nat.lt_succ_self _
  case crowded =>
    apply Table.All.insert
    · intro key f hf
      obtain ⟨hne, hall⟩ := h.crowded key f hf
      exact ⟨hne, fun waiter m hwaiter =>
        ⟨(hall waiter m hwaiter).1, hother m _ (hall waiter m hwaiter).2⟩⟩
    · refine ⟨List.cons_ne_nil _ _, fun waiter m hwaiter => ?_⟩
      have hfirst : waiter = 0 ∧ m = n := by
        simp only [Flight.begin, Table.get?] at hwaiter
        split at hwaiter
        next hzero => exact ⟨hzero.symm, (Option.some.inj hwaiter).symm⟩
        next => cases hwaiter
      obtain ⟨rfl, rfl⟩ := hfirst
      exact ⟨Nat.zero_lt_one, (waits_place hcaller).mpr (by rw [if_pos rfl]; rfl)⟩
  case pursued =>
    apply Table.All.insert
    · intro key f hf
      obtain ⟨p, hp, hrest⟩ := h.pursued key f hf
      exact ⟨p, hpursuits _ _ hp, hrest⟩
    · refine ⟨Pursuit.fresh r, ?_, rfl, rfl, rfl⟩
      exact (Table.get?_insert _ _ _ _).trans (if_pos rfl)
  case aloft =>
    apply Table.All.insert
    · intro m p hp haborted hlanded
      obtain ⟨f, hf⟩ := h.aloft m p hp haborted hlanded
      obtain ⟨hf, hnumber⟩ := Flights.current?_eq_some.mp hf
      exact ⟨f, Flights.current?_eq_some.mpr ⟨hkeep _ _ hf, hnumber⟩⟩
    · exact fun _ _ => ⟨_, Flights.current?_eq_some.mpr ⟨hput, rfl⟩⟩
  case landed =>
    apply h.landed.insert
    intro hlanded
    cases hlanded
  case ending =>
    apply h.ending.insert
    intro hending
    cases hending
  case served =>
    intro m seat hwait
    replace hwait := (waits_place hcaller).mp hwait
    split at hwait
    next hm =>
      subst hm
      cases hwait
      exact .inl ⟨_, Flights.current?_eq_some.mpr ⟨hput, rfl⟩, rfl⟩
    next =>
      rcases h.served m seat hwait with ⟨f, hf, hwaiter⟩ | ⟨result, p, waiters, hp, hserves⟩
      · obtain ⟨hf, hnumber⟩ := Flights.current?_eq_some.mp hf
        exact .inl ⟨f, Flights.current?_eq_some.mpr ⟨hkeep _ _ hf, hnumber⟩, hwaiter⟩
      · exact .inr ⟨result, p, waiters, hpursuits _ _ hp, hserves⟩
  case handed =>
    intro m seat hhanded
    replace hhanded := (handed_place hcaller).mp hhanded
    split at hhanded
    next =>
      obtain ⟨result, heq⟩ := hhanded
      cases heq
    next =>
      obtain ⟨hlt, hgone⟩ := h.handed m seat hhanded
      refine ⟨Nat.lt_succ_of_lt hlt, Option.eq_none_iff_forall_ne_some.mpr fun f hf => ?_⟩
      obtain ⟨hf, hnumber⟩ := Flights.current?_eq_some.mp hf
      -- the new flight has a number that no seat can have been handed out under
      rcases Table.All.insert (P := fun key f => c.flights.get? key = some f ∨ f.id = c.nextFlight)
          (fun _ _ hf => .inl hf) (.inr rfl) _ _ hf with hf | hnew
      · exact Flights.current?_eq_none hgone hf hnumber
      · omega

/-- A flight is taken out of the table, and its pursuit is aborted or lands. -/
theorem clear {callers : Table Nat Caller} {store : ItemStore} {key : RequestKey} {f : Flight}
    {g : Pursuit → Pursuit} (h : c.Attended) (hcurrent : c.flights.current? key n = some f)
    (hpursuit : c.pursuits.get? n = some p)
    (hlanded : (g p).landed = true ↔ (g p).aborted = false)
    (hending : (g p).ending = true → (g p).aborted = true)
    (hroster : callers.All fun n _ => n < c.nextCaller)
    (hwaits : ∀ m seat, seat.flight ≠ n →
      (({ c with callers } : Client).Waits m seat ↔ c.Waits m seat))
    (hserved : ∀ m seat, ({ c with callers } : Client).Waits m seat → seat.flight = n →
      ∃ result waiters, p.key = seat.key ∧ (g p).key = p.key ∧
        (g p).stage = .handing result waiters ∧ Table.get? waiters seat.waiter = some m)
    (hhanded : ∀ m seat, ({ c with callers } : Client).Handed m seat → c.Handed m seat) :
    ({ c with
      store
      flights := c.flights.erase key
      pursuits := c.pursuits.modify n g
      callers } : Client).Attended := by
  obtain ⟨hflight, hid⟩ := Flights.current?_eq_some.mp hcurrent
  have hget : ∀ key' f', Table.get? (c.flights.erase key) key' = some f' →
      c.flights.get? key' = some f' ∧ f'.id ≠ n := by
    intro key' f' hf'
    rw [Table.get?_erase] at hf'
    split at hf'
    · cases hf'
    next hkey =>
      refine ⟨hf', fun hnumber => hkey ?_⟩
      exact h.key_unique hflight hf' (hid.trans hnumber.symm)
  have hkeep : ∀ key' f', c.flights.get? key' = some f' → f'.id ≠ n →
      Table.get? (c.flights.erase key) key' = some f' := by
    intro key' f' hf' hnumber
    rw [Table.get?_erase, if_neg, hf']
    rintro rfl
    rw [hflight] at hf'
    cases hf'
    exact hnumber hid
  have hpursuits : ∀ m q, m ≠ n →
      ((c.pursuits.modify n g).get? m = some q ↔ c.pursuits.get? m = some q) := by
    intro m q hm
    rw [Table.get?_modify, if_neg (Ne.symm hm)]
  have hchanged : (c.pursuits.modify n g).get? n = some (g p) := by
    rw [Table.get?_modify, if_pos rfl, hpursuit, Option.map_some]
  constructor
  case roster => exact hroster
  case numbers => exact h.numbers.modify fun q hq => h.numbers n q hq
  case crowded =>
    intro key' f' hf'
    obtain ⟨hf', hnumber⟩ := hget key' f' hf'
    obtain ⟨hne, hall⟩ := h.crowded key' f' hf'
    exact ⟨hne, fun waiter m hwaiter =>
      ⟨(hall waiter m hwaiter).1, (hwaits m _ hnumber).mpr (hall waiter m hwaiter).2⟩⟩
  case pursued =>
    intro key' f' hf'
    obtain ⟨hf', hnumber⟩ := hget key' f' hf'
    obtain ⟨q, hq, hrest⟩ := h.pursued key' f' hf'
    exact ⟨q, (hpursuits _ _ hnumber).mpr hq, hrest⟩
  case aloft =>
    intro m q hq haborted hnot
    by_cases hm : m = n
    · subst hm
      rw [hchanged] at hq
      cases hq
      rw [hlanded.mpr haborted] at hnot
      cases hnot
    · obtain ⟨f', hf'⟩ := h.aloft m q ((hpursuits m q hm).mp hq) haborted hnot
      obtain ⟨hfound, hnumber⟩ := Flights.current?_eq_some.mp hf'
      exact ⟨f', Flights.current?_eq_some.mpr ⟨hkeep _ _ hfound (hnumber ▸ hm), hnumber⟩⟩
  case landed =>
    exact h.landed.modify fun q hq => by
      rw [hpursuit] at hq
      cases hq
      exact hlanded.mp
  case ending =>
    exact h.ending.modify fun q hq => by
      rw [hpursuit] at hq
      cases hq
      exact hending
  case served =>
    intro m seat hwait
    -- those that waited at the flight are served by its pursuit, all others keep theirs
    by_cases hnumber : seat.flight = n
    · obtain ⟨result, waiters, hkey, hsame, hstage, hwaiter⟩ := hserved m seat hwait hnumber
      right
      refine ⟨result, g p, waiters, ?_, hsame.trans hkey, hstage, hwaiter⟩
      rw [hnumber]
      exact hchanged
    · rcases h.served m seat ((hwaits m seat hnumber).mp hwait) with
        ⟨f', hf', hwaiter⟩ | ⟨result, q, waiters, hq, hserves⟩
      · obtain ⟨hf', hid'⟩ := Flights.current?_eq_some.mp hf'
        left
        refine ⟨f', Flights.current?_eq_some.mpr ⟨hkeep _ _ hf' ?_, hid'⟩, hwaiter⟩
        rw [hid']
        exact hnumber
      · exact .inr ⟨result, q, waiters, (hpursuits _ _ hnumber).mpr hq, hserves⟩
  case handed =>
    intro m seat hhand
    obtain ⟨hlt, hgone⟩ := h.handed m seat (hhanded m seat hhand)
    refine ⟨hlt, Option.eq_none_iff_forall_ne_some.mpr fun f' hf' => ?_⟩
    obtain ⟨hf', hnumber⟩ := Flights.current?_eq_some.mp hf'
    exact Flights.current?_eq_none hgone (hget _ _ hf').1 hnumber

/-- Once a caller has left a flight, its place is gone, and all other places are as before. -/
theorem leave_iff {f : Flight} {m : Nat} {seat' : Caller.Seat} (h : c.Attended)
    (hflight : c.flights.current? seat.key seat.flight = some f) (hwaits : c.Waits n seat)
    (hone : ∀ seat', c.Waits n seat' → seat' = seat) (hkey : seat'.key = seat.key)
    (hnumber : seat'.flight = seat.flight) :
    (f.leave seat.waiter).waiters.get? seat'.waiter = some m ↔ m ≠ n ∧ c.Waits m seat' := by
  have hmine := h.waiter_of_waits hwaits hflight
  have hwaits' : c.Waits m seat' ↔ f.waiters.get? seat'.waiter = some m := by
    obtain ⟨hget, hid⟩ := Flights.current?_eq_some.mp hflight
    exact h.waits_iff hget ⟨hkey, hnumber.trans hid.symm⟩
  rw [Flight.leave, Table.get?_erase]
  by_cases hplace : seat.waiter = seat'.waiter
  · rw [if_pos hplace]
    constructor
    · intro heq
      cases heq
    · rintro ⟨hm, hwait⟩
      have hget := hwaits'.mp hwait
      rw [← hplace, hmine] at hget
      exact absurd (Option.some.inj hget).symm hm
  · rw [if_neg hplace, ← hwaits']
    constructor
    · intro hwait
      refine ⟨?_, hwait⟩
      rintro rfl
      exact hplace (congrArg Caller.Seat.waiter (hone seat' hwait)).symm
    · exact fun hwait => hwait.2

/-- A caller departs, and gives up the place that it has. -/
theorem depart {stage : Caller.Stage} (h : c.Attended) (hcaller : c.callers.get? n = some x)
    (hafter : stage.seatless = true) : (c.depart n x stage).Attended := by
  have hnot : ∀ seat, stage ≠ .waiting seat ∧ ∀ result, stage ≠ .handed seat result := by
    intro seat
    constructor
    · rintro rfl
      cases hafter
    · rintro result rfl
      cases hafter
  unfold Client.depart
  split
  next seat hseat =>
    have hleave := c.leave_rule seat
    generalize c.leave seat = d at hleave ⊢
    have hwaits : ∀ f, c.flights.current? seat.key seat.flight = some f → c.Waits n seat :=
      fun f hcurrent => h.waits_of_seat hcaller hseat hcurrent
    have hone : ∀ seat', c.Waits n seat' → seat' = seat := by
      intro seat' hwait
      rw [Caller.seat?, (waits_iff_stage hcaller).mp hwait] at hseat
      exact Option.some.inj hseat
    have hplace : ∀ m seat', (c.place n stage).Waits m seat' ↔ m ≠ n ∧ c.Waits m seat' := by
      intro m seat'
      rw [waits_place hcaller]
      split
      next hm => simp [hm, (hnot seat').1]
      next hm => simp [Ne.symm hm]
    cases hleave with
    | late hgone =>
      apply h.place hcaller _ hafter
      rintro seat' hholds
      cases hone seat' (h.waits_of_holds hholds)
      obtain ⟨f, hf, _⟩ := hholds
      rw [hgone] at hf
      cases hf
    | @last f hcurrent halone =>
      obtain ⟨hflight, hid⟩ := Flights.current?_eq_some.mp hcurrent
      obtain ⟨p, hp, _, _, hworks⟩ := h.pursued _ f hflight
      rw [hid] at hp
      refine h.clear (g := fun p => { p with aborted := true }) hcurrent hp ?_ (fun _ => rfl)
        (h.roster.modify fun y hy => h.roster n y hy) ?_ ?_ ?_
      · constructor
        · intro hlanded
          exact absurd (hworks.symm.trans hlanded) Bool.false_ne_true
        · intro heq
          cases heq
      · intro m seat' hnumber
        apply (hplace m seat').trans
        constructor
        · exact fun hwait => hwait.2
        · intro hwait
          refine ⟨?_, hwait⟩
          rintro rfl
          exact hnumber (congrArg Caller.Seat.flight (hone seat' hwait))
      · -- nobody else waits at this flight
        intro m seat' hwait hnumber
        exfalso
        have hwait := (hplace m seat').mp hwait
        have hkey : seat'.key = seat.key := h.key_of_waits hwait.2 (hnumber ▸ hcurrent)
        have hwaiter := (h.leave_iff hcurrent (hwaits f hcurrent) hone hkey hnumber).mpr hwait
        rw [halone] at hwaiter
        cases hwaiter
      · intro m seat' hhanded
        replace hhanded := (handed_place hcaller).mp hhanded
        split at hhanded
        next =>
          obtain ⟨result, heq⟩ := hhanded
          exact absurd heq ((hnot seat').2 result)
        next => exact hhanded
    | @other f hcurrent hothers =>
      obtain ⟨hflight, hid⟩ := Flights.current?_eq_some.mp hcurrent
      refine h.refit (g := f.leave seat.waiter) hcaller (fun seat' => (hnot seat').2) hflight rfl
        hothers ?_ ?_
      · apply Table.All.erase
        exact fun waiter m hwaiter => ((h.crowded _ f hflight).2 waiter m hwaiter).1
      · intro m seat'
        rw [hplace]
        split
        next hseat' =>
          obtain ⟨hkey, hnumber⟩ := hseat'
          exact (h.leave_iff hcurrent (hwaits f hcurrent) hone hkey (hnumber.trans hid)).symm
        next hseat' =>
          constructor
          · exact fun hwait => hwait.2
          · intro hwait
            refine ⟨?_, hwait⟩
            rintro rfl
            cases hone seat' hwait
            exact hseat' ⟨rfl, hid.symm⟩
  next hseat =>
    apply h.place hcaller _ hafter
    intro seat hholds
    have hstage := (waits_iff_stage hcaller).mp (h.waits_of_holds hholds)
    rw [Caller.seat?, hstage] at hseat
    cases hseat

/-! #### What else a step does -/

/-- Only flights, pursuits and callers matter, and how many of them there have been. -/
theorem of_same {d : Client} (h : c.Attended) (hflights : d.flights = c.flights)
    (hnext : d.nextFlight = c.nextFlight) (hpursuits : d.pursuits = c.pursuits)
    (hcallers : d.callers = c.callers) (hnextCaller : d.nextCaller = c.nextCaller) :
    d.Attended := by
  obtain ⟨hroster, hnumbers, hcrowded, hpursued, haloft, hlanded, hending, hserved, hhanded⟩ := h
  constructor
  all_goals simp only [Waits, Handed, Holds, Serves, Pursues, hflights, hnext, hpursuits, hcallers,
    hnextCaller]
  · exact hroster
  · exact hnumbers
  · exact hcrowded
  · exact hpursued
  · exact haloft
  · exact hlanded
  · exact hending
  · exact hserved
  · exact hhanded

/-- A result that can still come to a place is on its way. -/
theorem isServed_of_waits (h : c.Attended) (hwaits : c.Waits n seat) : c.isServed seat = true := by
  unfold isServed
  rcases h.served n seat hwaits with ⟨f, hf, hwaiter⟩ | ⟨result, p, waiters, hp, _, hstage, hwaiter⟩
  · simp only [hf, Table.contains, hwaiter, Option.any_some, Option.isSome_some, Bool.true_or]
  · have hmem : (seat.waiter, n) ∈ waiters := Table.mem_of_get? hwaiter
    have hany : (waiters.any fun w => w.1 = seat.waiter) = true :=
      List.any_eq_true.mpr ⟨_, hmem, by simp⟩
    simp only [hp, Option.any_some, hstage, hany, Bool.or_true]

/-- Every step of a caller keeps flights, pursuits and callers in step. -/
theorem callerStep {a : Action} {c' : Client} {effects : List Effect} (h : c.Attended)
    (hcaller : c.callers.get? n = some x) (hstep : c.CallerStep n x a c' effects) :
    c'.Attended := by
  have hnone : (∀ seat, x.stage ≠ .waiting seat) → ∀ seat, ¬ c.Holds n seat := by
    intro hstage seat hholds
    exact hstage seat ((waits_iff_stage hcaller).mp (h.waits_of_holds hholds))
  cases hstep with
  | shift hshift =>
    have hafter : ∀ stage, x.Shift c n a stage effects → stage.seatless = true := by
      intro stage hshift
      cases hshift <;> rfl
    apply h.place hcaller (hnone _) (hafter _ hshift)
    intro seat hwaiting
    -- only a place to which nothing can come is given up in this way
    cases hshift with
    | lose stage unserved =>
      have hserved := h.isServed_of_waits ⟨x, hcaller, stage⟩
      rw [unserved] at hserved
      cases hserved
    | _ stage =>
      rw [stage] at hwaiting
      cases hwaiting
  | cancel => exact h.cancel hcaller
  | drop => exact h.depart hcaller rfl
  | quit => exact h.depart hcaller rfl
  | join stage _ flight =>
    apply h.join hcaller _ flight
    intro seat hwaiting
    rw [stage] at hwaiting
    cases hwaiting
  | @stored r item stage =>
    have hplace : (c.place n (.returned (.ok item))).Attended := by
      apply h.place hcaller (hnone _) rfl
      intro seat hwaiting
      rw [stage] at hwaiting
      cases hwaiting
    exact hplace.of_same rfl rfl rfl rfl rfl
  | begin stage _ noFlight _ =>
    refine (h.begin hcaller ?_ noFlight).of_same rfl rfl rfl rfl rfl
    intro seat hwaiting
    rw [stage] at hwaiting
    cases hwaiting

/-- The flight of a pursuit is taken out once the pursuit lands; those that waited for it are to be
handed what it brings. -/
theorem land {result : Retrieved} (h : c.Attended) (hpursuit : c.pursuits.get? n = some p)
    (hstage : p.stage = .landing result) : (c.land n p.key result).Attended := by
  have hnot : p.landed = false := by rw [Pursuit.landed, hstage]
  have hlanding := c.landing_rule n p.key result
  generalize c.land n p.key result = d at hlanding ⊢
  cases hlanding with
  | late gone =>
    apply h.retire hpursuit
    left
    cases haborted : p.aborted with
    | true => rfl
    | false =>
      obtain ⟨f, hf⟩ := h.aloft n p hpursuit haborted hnot
      rw [gone] at hf
      cases hf
  | @timely f flight =>
    obtain ⟨hget, hid⟩ := Flights.current?_eq_some.mp flight
    obtain ⟨q, hq, _, haborted, _⟩ := h.pursued _ f hget
    rw [hid, hpursuit] at hq
    cases hq
    refine h.clear (g := fun p => { p with stage := .handing result f.waiters }) flight hpursuit
      ⟨fun _ => haborted, fun _ => rfl⟩ ?_ h.roster (fun _ _ _ => Iff.rfl) ?_
      (fun _ _ hhanded => hhanded)
    · intro hending
      cases hending
    intro m seat hwaits hnumber
    have hkey : seat.key = p.key := h.key_of_waits hwaits (hnumber ▸ flight)
    exact ⟨result, f.waiters, hkey.symm, rfl, rfl,
      h.waiter_of_waits hwaits (hkey ▸ hnumber ▸ flight)⟩

/-- A caller whose flight has landed is handed a result. -/
theorem give {result : Retrieved} {m : Nat} (h : c.Attended) (hwaits : c.Waits m seat)
    (hnumber : seat.flight < c.nextFlight)
    (hgone : c.flights.current? seat.key seat.flight = none) :
    (c.place m (.handed seat result)).Attended := by
  obtain ⟨x, hcaller, hwaiting⟩ := hwaits
  apply h.reseat (h.roster.modify fun y hy => h.roster m y hy)
  · intro m' seat' hholds
    have hwait := h.waits_of_holds hholds
    apply (waits_place hcaller).mpr
    rw [if_neg]
    · exact hwait
    · rintro rfl
      have hwaiting' := (waits_iff_stage hcaller).mp hwait
      rw [hwaiting] at hwaiting'
      cases hwaiting'
      obtain ⟨f, hf, _⟩ := hholds
      rw [hgone] at hf
      cases hf
  · intro m' seat' hwait
    replace hwait := (waits_place hcaller).mp hwait
    split at hwait
    next => cases hwait
    next => exact hwait
  · intro m' seat' hhanded
    replace hhanded := (handed_place hcaller).mp hhanded
    split at hhanded
    next =>
      obtain ⟨result', heq⟩ := hhanded
      cases heq
      exact .inr ⟨hnumber, hgone⟩
    next => exact .inl hhanded

/-- One of the callers is handed the result, if it still waits for it. -/
theorem hand {result : Retrieved} {waiters : Table Nat Nat} {waiter m : Nat} (h : c.Attended)
    (hpursuit : c.pursuits.get? n = some p) (hstage : p.stage = .handing result waiters)
    (hwaiter : waiters.get? waiter = some m) :
    ((c.hand ⟨p.key, n, waiter⟩ m result).move n
      (.handing result (waiters.erase waiter))).Attended := by
  have hlanded : p.landed = true := by rw [Pursuit.landed, hstage]
  -- once the caller does not wait any more, the pursuit can go on to another one
  have hnext : ∀ d : Client, d.Attended → d.pursuits.get? n = some p →
      ¬ d.Waits m ⟨p.key, n, waiter⟩ →
      (d.move n (.handing result (waiters.erase waiter))).Attended := by
    intro d hd hp hnot
    apply hd.alter hp rfl rfl
    · rw [hlanded]
      rfl
    · intro heq
      cases heq
    · rintro m' ⟨key, _, waiter'⟩ result' hwaits rfl ⟨q, waiters', hq, hkey, hq', hwaiter'⟩
      rw [hp] at hq
      cases hq
      rw [hstage] at hq'
      cases hq'
      refine ⟨_, rfl, ?_⟩
      rw [Table.get?_erase]
      split
      next hsame =>
        obtain rfl : waiter = waiter' := hsame
        obtain rfl : m = m' := Option.some.inj (hwaiter.symm.trans hwaiter')
        rw [← show p.key = key from hkey] at hwaits
        exact absurd hwaits hnot
      next => exact hwaiter'
  rcases hand_rule c ⟨p.key, n, waiter⟩ m result with ⟨hwaits, heq⟩ | ⟨hnot, heq⟩
  · rw [heq]
    have hgone : c.flights.current? p.key n = none := h.gone_of_landed hpursuit hlanded p.key
    refine hnext (c.place m _) (h.give hwaits (h.numbers n p hpursuit) hgone) hpursuit ?_
    obtain ⟨x, hcaller, _⟩ := hwaits
    rw [waits_place hcaller, if_pos rfl]
    intro heq
    cases heq
  · rw [heq]
    exact hnext c h hpursuit hnot

/-- Every step of a pursuit keeps flights, pursuits and callers in step. -/
theorem pursuitStep {a : Action} {c' : Client} {effects : List Effect} (h : c.Attended)
    (hpursuit : c.pursuits.get? n = some p) (hstep : c.PursuitStep n p a c' effects) :
    c'.Attended := by
  cases hstep with
  | @shift _ stage _ hshift =>
    obtain ⟨hbefore, hafter, hending⟩ := hshift.not_landed
    apply h.turn hpursuit rfl rfl hbefore hafter
    rw [hending]
    intro heq
    cases heq
  | @assign seen peer rest registry stage begun =>
    have hbefore : p.landed = false := by rw [Pursuit.landed, stage]
    rw [Table.insert_eq_modify hpursuit]
    refine (h.turn (f := fun _ => p.assign _) hpursuit rfl rfl hbefore rfl ?_).of_same rfl rfl rfl
      rfl rfl
    intro heq
    cases heq
  | @register held stage =>
    have hbefore : p.landed = false := by rw [Pursuit.landed, stage]
    refine (h.turn (f := fun p => { p with stage := .registered held _ }) hpursuit rfl rfl hbefore
      rfl ?_).of_same rfl rfl rfl rfl rfl
    intro heq
    cases heq
  | @conclude _ held t outcome next conclusion =>
    refine (h.turn (f := fun p => { p with stage := .releasing held outcome next }) hpursuit rfl
      rfl conclusion.not_landed rfl ?_).of_same rfl rfl rfl rfl rfl
    intro hending
    cases next with
    | stop => exact conclusion.aborted
    | _ => cases hending
  | @release held outcome next stage =>
    have hbefore : p.landed = false := by rw [Pursuit.landed, stage]
    have hmove : ∀ stage', ({ p with stage := stage' } : Pursuit).landed = false →
        ({ p with stage := stage' } : Pursuit).ending = false →
        ((c.report held.peer outcome).1.move n stage').Attended := by
      intro stage' hafter hending
      refine (h.turn (f := fun p => { p with stage := stage' }) hpursuit rfl rfl hbefore hafter
        ?_).of_same rfl rfl rfl rfl rfl
      rw [hending]
      intro heq
      cases heq
    cases next with
    | retry => exact hmove .choosing rfl rfl
    | finish result => exact hmove (.landing result) rfl rfl
    | stop =>
      have haborted : p.aborted = true :=
        h.ending n p hpursuit (by rw [Pursuit.ending, stage])
      exact (h.retire hpursuit (.inl haborted)).of_same rfl rfl rfl rfl rfl
  | land stage => exact h.land hpursuit stage
  | hand stage next => exact h.hand hpursuit stage next
  | retire stage => exact h.retire hpursuit (.inr ⟨_, stage⟩)
  | stop _ aborted => exact h.retire hpursuit (.inl aborted)

/-- A notice to the registry's listeners touches no flight and no caller. -/
theorem notify {now index : Nat} {c' : Client} (h : c.Attended)
    (hnotified : c.notify now index = some c') : c'.Attended := by
  rw [notify_eq hnotified]
  exact h.of_same rfl rfl rfl rfl rfl

/-- Every step keeps flights, pursuits and callers in step. -/
theorem step {a : Action} {c' : Client} {effects : List Effect} (h : c.Attended)
    (hstep : c.Step a c' effects) : c'.Attended := by
  cases hstep with
  | call => exact h.call
  | register => exact h.of_same rfl rfl rfl rfl rfl
  | unregister => exact h.of_same rfl rfl rfl rfl rfl
  | announce => exact h.of_same rfl rfl rfl rfl rfl
  | notify hnotified => exact h.notify hnotified
  | receive => exact h.of_same rfl rfl rfl rfl rfl
  | caller hcaller hstep => exact h.callerStep hcaller hstep
  | pursuit hpursuit hstep => exact h.pursuitStep hpursuit hstep

end Attended

end Client

/-- In every state that can be reached, flights, pursuits and callers belong together. -/
theorem Run.attended {s : ClientSettings} {past : List Moment} {c : Client} (run : Run s past c) :
    c.Attended :=
  run.keeps (P := fun _ c => c.Attended) (Client.Attended.empty s) fun h hstep => h.step hstep

end LightClient
