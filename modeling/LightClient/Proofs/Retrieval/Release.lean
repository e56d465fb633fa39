/-
Module: LightClient.Proofs.Retrieval.Release
Purpose: Every place that is taken with a peer is given back once; the record of a peer counts no
  more places than are held with it, and just these if the peer has never been away; and the router
  waits only for replies to requests of pursuits that hold a place.
Main exports: Pursuit.due, Client.places, Moment.Removes, Client.Owns, Client.PlacesReleased,
  Run.owned, Run.places_released
-/
import LightClient.Proofs.Retrieval.Assignments
import LightClient.Proofs.Retrieval.Capacity
import LightClient.Proofs.Retrieval.History
import LightClient.Simulation.Libraries

namespace LightClient

open Client (Action Effect)

/-- The most steps that a pursuit takes until it has reported an outcome for the place that it
holds. -/
def Pursuit.due (p : Pursuit) : Nat :=
  match p.stage with
  | .assigned _ => 6
  | .registered _ _ => 5
  | .dispatching _ _ => 4
  | .sending _ _ => 3
  | .awaiting _ _ => 2
  | .releasing _ _ _ => 1
  | _ => 0

/-- A place is never more than six steps from its report. -/
theorem Pursuit.due_le (p : Pursuit) : p.due ≤ 6 := by
  unfold due
  split <;> decide

theorem Pursuit.assignment?_of_released? {p : Pursuit} {held : Assignment}
    (h : p.released? = some held) : p.assignment? = some held := by
  unfold Pursuit.released? at h
  split at h
  next stage =>
    rw [Pursuit.assignment?, stage]
    exact h
  next => cases h

section

variable [ItemCache] [DelaySeries]

/-! ### A place is given back -/

section

variable {c c' : Client} {n : Nat} {p : Pursuit} {a : Action} {effects : List Effect}
  {held : Assignment} {peer : PeerId}

/-- Each step of a pursuit that holds a place brings the report nearer. -/
theorem Pursuit.Shift.due_lt {stage : Pursuit.Stage} (h : p.Shift c n a stage effects)
    (hheld : p.assignment? = some held) : ({ p with stage := stage } : Pursuit).due < p.due := by
  cases h <;> simp [Pursuit.assignment?, Pursuit.due, *] at hheld ⊢

theorem Pursuit.Conclusion.due_gt {t : Ticket} {outcome : Outcome} {next : Pursuit.Next}
    (h : p.Conclusion c n a held t outcome next) : 1 < p.due := by
  cases h <;> simp [Pursuit.due, *]

/-- A pursuit that holds a place comes closer to giving it back with every step that it takes. -/
theorem Client.Fate.nearer {o' : Option Pursuit} (h : c.Fate n c' (some p) a effects o')
    (hheld : p.assignment? = some held) (hflight : a.flight? = some n) :
    (⟨c, a, effects⟩ : Moment).reported n = [held.peer] ∨
      ∃ p', o' = some p' ∧ p'.assignment? = some held ∧ p'.due < p.due := by
  cases h with
  | rest other => exact absurd hflight other
  | begin => cases hflight
  | abort departs => rcases departs with rfl | rfl <;> cases hflight
  | shift shift => exact .inr ⟨_, rfl, shift.assignment?.trans hheld, shift.due_lt hheld⟩
  | assign stage =>
    rw [Pursuit.assignment?, stage] at hheld
    cases hheld
  | register stage =>
    rw [Pursuit.assignment?, stage] at hheld
    cases hheld
    refine .inr ⟨_, rfl, rfl, ?_⟩
    simp [Pursuit.due, stage]
  | conclude conclusion =>
    rw [conclusion.assignment?] at hheld
    cases hheld
    exact .inr ⟨_, rfl, rfl, conclusion.due_gt⟩
  -- here the report is made, everywhere else the measure goes down
  | @release _ _ _ outcome _ stage =>
    rw [Pursuit.assignment?, stage] at hheld
    cases hheld
    exact .inl ((if_pos rfl).trans (c.filterMap_report held.peer outcome))
  | land stage =>
    rw [Pursuit.assignment?, stage] at hheld
    cases hheld
  | hand stage =>
    rw [Pursuit.assignment?, stage] at hheld
    cases hheld
  | gone _ free =>
    rw [free] at hheld
    cases hheld

theorem Client.step?_of_flight (hpursuit : c.pursuits.get? n = some p)
    (hflight : a.flight? = some n) : c.step? a = c.pursuitStep? n p a := by
  cases a with
  | pursue | accept | refuse | collect | expire | despair | stop | withdraw | serve =>
    cases hflight
    simp only [step?, Action.caller?, Action.flight?, hpursuit, Option.bind_some]
  | _ => cases hflight

/-- A pursuit that holds a place can take a step. -/
theorem Client.exists_step (hpursuit : c.pursuits.get? n = some p)
    (hheld : p.assignment? = some held) :
    ∃ a c' effects, a.flight? = some n ∧ c.step? a = some (c', effects) := by
  have htake : ∀ (a : Action), a.flight? = some n → (c.pursuitStep? n p a).isSome →
      ∃ a c' effects, a.flight? = some n ∧ c.step? a = some (c', effects) := by
    intro a hflight hsome
    obtain ⟨x, hx⟩ := Option.isSome_iff_exists.mp hsome
    exact ⟨a, x.1, x.2, hflight, (step?_of_flight hpursuit hflight).trans hx⟩
  cases hstage : p.stage with
  | assigned => exact htake (.pursue n) rfl (by simp [pursuitStep?, pursue?, hstage])
  | registered =>
    apply htake (.pursue n) rfl
    simp only [pursuitStep?, pursue?, hstage]
    split <;> rfl
  | dispatching => exact htake (.pursue n) rfl (by simp [pursuitStep?, pursue?, hstage])
  | sending => exact htake (.accept n) rfl (by simp [pursuitStep?, hstage])
  | awaiting => exact htake (.expire n) rfl (by simp [pursuitStep?, hstage])
  | releasing => exact htake (.pursue n) rfl (by simp [pursuitStep?, pursue?, hstage])
  | _ =>
    rw [Pursuit.assignment?, hstage] at hheld
    cases hheld

/-- An outcome is reported only by a flight that holds a place with the peer. -/
theorem Client.Step.reported {o : Outcome} (hstep : c.Step a c' effects)
    (h : .reported peer o ∈ effects) :
    ∃ n held, a.flight? = some n ∧ c.held? n = some held ∧ held.peer = peer := by
  have hchanges : ∀ {x : Registry × List Registry.Event}, .reported peer o ∉ (c.change x).2 := by
    intro x hmem
    obtain ⟨_, _, heq⟩ := changed_of_mem hmem
    cases heq
  cases hstep with
  | register => exact absurd h hchanges
  | unregister => exact absurd h hchanges
  | announce => exact absurd h hchanges
  | caller _ hstep =>
    cases hstep with
    | shift shift => cases shift <;> simp at h
    | _ => cases h
  | @pursuit n p _ _ _ hpursuit hstep =>
    cases hstep with
    | shift shift => cases shift <;> simp at h
    | @release held outcome next stage =>
      refine ⟨n, held, rfl, ?_, ?_⟩
      · rw [Client.held?, hpursuit, Option.bind_some, Pursuit.assignment?, stage]
      · rcases mem_report h with heq | ⟨_, _, heq⟩
        · cases heq
          rfl
        · cases heq
    | _ => cases h
  | _ => cases h

end

/-! ### The record of a peer counts the places that are held with it -/

/-- The number of pursuits that hold a place with a peer, under whatever registration. -/
def Client.places (c : Client) (peer : PeerId) : Nat :=
  c.pursuits.count fun p => p.assignment?.map Assignment.peer = some peer

/-- The peer leaves the registry at this moment. -/
def Moment.Removes (peer : PeerId) (m : Moment) : Prop :=
  m.before.registry.find? peer ≠ none ∧ ∃ c, m.After c ∧ c.registry.find? peer = none

/-- The assignments of one registration are among the places that are held at the peer. -/
theorem Client.live_le_places (c : Client) (a : Assignment) : c.live a ≤ c.places a.peer := by
  apply List.countP_mono_left
  intro p _ hp
  simp [of_decide_eq_true hp]

/-- A place that is held after a step was held before, or is taken under the present registration of
its peer. -/
theorem Client.Fate.source {c c' : Client} {n : Nat} {o o' : Option Pursuit} {a : Action}
    {effects : List Effect} {held : Assignment} (h : c.Fate n c' o a effects o')
    (hheld : o'.bind Pursuit.assignment? = some held) :
    o.bind Pursuit.assignment? = some held ∨
      ∃ record, c.registry.find? held.peer = some record ∧ held.registration = record.seq := by
  cases h with
  | rest => exact .inl hheld
  | begin => cases hheld
  | abort => exact .inl hheld
  | shift shift => exact .inl (shift.assignment?.symm.trans hheld)
  | assign _ found registration =>
    cases hheld
    exact .inr ⟨_, found, registration⟩
  | register stage =>
    cases hheld
    left
    rw [Option.bind_some, Pursuit.assignment?, stage]
  | conclude conclusion =>
    cases hheld
    exact .inl conclusion.assignment?
  | @release _ _ _ _ next _ proceeds =>
    subst proceeds
    cases next <;> cases hheld
  | land => cases hheld
  | hand => cases hheld
  | gone => cases hheld

namespace Run

variable {s : ClientSettings} {past : List Moment} {c : Client} {peer : PeerId} {n : Nat}
  {held : Assignment}

/-- All places with a peer that has never left are held under its present registration. -/
theorem registration_of_held (run : Run s past c) (hkept : ∀ m ∈ past, ¬ m.Removes peer)
    (hheld : c.held? n = some held) (hpeer : held.peer = peer) :
    ∃ record, c.registry.find? peer = some record ∧ held.registration = record.seq := by
  subst hpeer
  induction run with
  | start => cases hheld
  | @step past c c' a effects run hstep ih =>
    obtain ⟨hnow, hkept⟩ := List.forall_mem_cons.mp hkept
    have hrule := Client.step_of_step? hstep
    have hbefore : ∃ record, c.registry.find? held.peer = some record ∧
        held.registration = record.seq := by
      rcases (hrule.fate n).source hheld with hold | hnew
      · exact ih hold hkept
      · exact hnew
    obtain ⟨old, hold, hseq⟩ := hbefore
    cases hfind : c'.registry.find? held.peer with
    | none =>
      have hpresent : c.registry.find? held.peer ≠ none := by
        rw [hold]
        exact Option.some_ne_none old
      exact absurd ⟨hpresent, c', hstep, hfind⟩ hnow
    | some record => exact ⟨record, rfl, hseq.trans (hrule.registry.seq hold hfind).symm⟩

/-- At a peer that was never removed, the held places are those of its one registration. -/
theorem live_eq_places (run : Run s past c) (hkept : ∀ m ∈ past, ¬ m.Removes peer)
    {record : PeerRecord} (hfind : c.registry.find? peer = some record) :
    c.live ⟨peer, record.seq⟩ = c.places peer := by
  apply List.countP_congr
  intro p hp
  obtain ⟨⟨n, _⟩, hentry, rfl⟩ := List.mem_map.mp hp
  have hpursuit := Table.get?_of_mem run.counted.unique hentry
  simp only [decide_eq_true_eq, Option.map_eq_some_iff]
  constructor
  · intro hheld
    exact ⟨_, hheld, rfl⟩
  · rintro ⟨held, hheld, hpeer⟩
    have hholds : c.held? n = some held := by
      rw [Client.held?, hpursuit]
      exact hheld
    obtain ⟨found, hfound, hseq⟩ := run.registration_of_held hkept hholds hpeer
    rw [hfind] at hfound
    cases hfound
    rw [hheld, ← hpeer, ← hseq]

/-- The record of a peer that has never left gave no place back for another registration. -/
theorem not_stray (run : Run s past c) (hkept : ∀ m ∈ past, ¬ m.Removes peer) (seq : Nat) :
    ∀ m ∈ past, ¬ m.Stray ⟨peer, seq⟩ := by
  rintro m hm ⟨held, record, hreleased, hpeer, hother, hfind, hseq, _⟩
  obtain ⟨later, earlier, rfl⟩ := List.append_of_mem hm
  have hbefore : ∀ x ∈ earlier, ¬ x.Removes peer := fun x hx =>
    hkept x (List.mem_append_right later (List.mem_cons_of_mem m hx))
  have hholds : ∃ n, m.before.held? n = some held := by
    unfold Moment.released? at hreleased
    split at hreleased
    next n _ =>
      obtain ⟨p, hpursuit, hstage⟩ := Option.bind_eq_some_iff.mp hreleased
      refine ⟨n, ?_⟩
      rw [Client.held?, hpursuit]
      exact Pursuit.assignment?_of_released? hstage
    next => cases hreleased
  obtain ⟨n, hheld⟩ := hholds
  obtain ⟨found, hfound, hregistration⟩ := run.cut.1.registration_of_held hbefore hheld hpeer
  rw [hfind] at hfound
  cases hfound
  apply hother
  cases held
  cases hpeer
  exact congrArg (Assignment.mk peer) (hregistration.trans hseq)

/-- A record never counts more requests than there are places held at the peer. -/
theorem inFlight_le_places (run : Run s past c) {record : PeerRecord}
    (hfind : c.registry.find? peer = some record) : record.inFlight ≤ c.places peer := by
  obtain ⟨_, hcount⟩ := run.counted.counts peer record hfind
  have hlive : c.live ⟨peer, record.seq⟩ ≤ c.places peer := c.live_le_places _
  omega

/-- At a peer that was never removed, the record counts exactly the places that are held. -/
theorem inFlight_eq_places (run : Run s past c) (hkept : ∀ m ∈ past, ¬ m.Removes peer)
    {record : PeerRecord} (hfind : c.registry.find? peer = some record) :
    record.inFlight = c.places peer := by
  obtain ⟨_, hcount⟩ := run.counted.counts peer record hfind
  rw [strays_eq_zero (run.not_stray hkept record.seq), run.live_eq_places hkept hfind] at hcount
  exact hcount.symm

end Run

/-! ### The router waits only for pursuits that hold a place -/

/-- The slot is that of a pursuit which holds a place with the peer of the slot, and has the ticket
for it. -/
def Client.Owns (c : Client) (n : Nat) (id : RequestId) (slot : Slot) : Prop :=
  ∃ p held, c.pursuits.get? n = some p ∧ p.assignment? = some held ∧
    p.ticket? = some ⟨id, slot.channel⟩ ∧ held.peer = slot.peer

/-- A pursuit keeps its ticket until the router has forgotten it. -/
theorem Client.Fate.ticket? {c c' : Client} {n : Nat} {p : Pursuit} {o' : Option Pursuit}
    {a : Action} {effects : List Effect} {held : Assignment} {t : Ticket}
    (h : c.Fate n c' (some p) a effects o') (hborn : n ≠ c.nextFlight)
    (hheld : p.assignment? = some held) (hticket : p.ticket? = some t) :
    (∃ p', o' = some p' ∧ p'.assignment? = some held ∧ p'.ticket? = some t) ∨
      c'.router.slots.get? t.id = none := by
  have hwaits : ∀ {stage : Pursuit.Stage}, p.stage = stage →
      (⟨p.key, p.request, p.tried, p.attempts, p.aborted, stage⟩ : Pursuit).ticket? = some t := by
    rintro stage rfl
    exact hticket
  cases h with
  | rest => exact .inl ⟨p, rfl, hheld, hticket⟩
  | begin new => exact absurd new hborn
  | abort => exact .inl ⟨_, rfl, hheld, hticket⟩
  | shift shift =>
    exact .inl ⟨_, rfl, shift.assignment?.trans hheld, shift.ticket?.trans hticket⟩
  | conclude conclusion router =>
    right
    rw [conclusion.ticket?] at hticket
    cases hticket
    rw [router]
    exact Router.get?_slots_settle.trans (if_pos rfl)
  | assign stage => cases hwaits stage
  | register stage => cases hwaits stage
  | release stage => cases hwaits stage
  | land stage => cases hwaits stage
  | hand stage => cases hwaits stage
  | gone _ free =>
    rw [free] at hheld
    cases hheld

namespace Run

variable {s : ClientSettings} {past : List Moment} {c : Client}

/-- A slot that outlives a step keeps its owner. -/
theorem owns_step {c' : Client} {n : Nat} {a : Action} {effects : List Effect} {id : RequestId}
    {slot : Slot} (run : Run s past c) (hstep : c.step? a = some (c', effects))
    (howns : c.Owns n id slot) (hslot : c'.router.slots.get? id = some slot) :
    c'.Owns n id slot := by
  obtain ⟨p, held, hpursuit, hheld, hticket, hpeer⟩ := howns
  have hborn : n ≠ c.nextFlight := Nat.ne_of_lt (run.attended.numbers n p hpursuit)
  have hfate := (Client.step_of_step? hstep).fate n
  rw [hpursuit] at hfate
  rcases hfate.ticket? hborn hheld hticket with ⟨p', hpursuit', hheld', hticket'⟩ | hforgotten
  · exact ⟨p', held, hpursuit', hheld', hticket', hpeer⟩
  · rw [hslot] at hforgotten
    cases hforgotten

/-- Every slot is that of a pursuit which holds a place. -/
theorem owned (run : Run s past c) {id : RequestId} {slot : Slot}
    (hslot : c.router.slots.get? id = some slot) : ∃ n, c.Owns n id slot := by
  induction run with
  | start => cases hslot
  | @step past c c' a effects run hstep ih =>
    have hkeep : c.router.slots.get? id = some slot → ∃ n, c'.Owns n id slot := by
      intro hold
      obtain ⟨n, howns⟩ := ih hold
      exact ⟨n, run.owns_step hstep howns hslot⟩
    rcases (Client.step_of_step? hstep).slots with
      hshrinks | ⟨n, p, held, _, _, _, hrouter, hregistered⟩
    · exact hkeep (hshrinks.slots id slot hslot)
    · rw [hrouter] at hslot
      rcases Router.slot_of_register hslot with ⟨rfl, rfl⟩ | hold
      · exact ⟨n, _, held, hregistered, rfl, rfl, rfl⟩
      · exact hkeep hold

/-- Where a flight owns a slot, it holds a place. -/
theorem places_ne_zero {n : Nat} {id : RequestId} {slot : Slot} (howns : c.Owns n id slot) :
    c.places slot.peer ≠ 0 := by
  obtain ⟨p, held, hpursuit, hheld, _, hpeer⟩ := howns
  apply Nat.ne_of_gt
  apply List.countP_pos_iff.mpr
  refine ⟨p, List.mem_map_of_mem (Table.mem_of_get? hpursuit), ?_⟩
  simp [hheld, hpeer]

end Run

/-- Places with peers are taken, counted and given back in pairs. -/
structure Client.PlacesReleased (past : List Moment) (c : Client) : Prop where
  /-- A flight reports an outcome for every place that it has taken, once and in order, but for the
  one that it holds. -/
  balanced : ∀ n, (taken n past).map Assignment.peer =
    ((c.held? n).map Assignment.peer).toList ++ reported n past
  /-- No outcome is reported but for a place that is held. -/
  reports : ∀ m ∈ past, ∀ peer o, .reported peer o ∈ m.effects →
    ∃ n held, m.action.flight? = some n ∧ m.before.held? n = some held ∧ held.peer = peer
  /-- A flight that holds a place can take a step, and every step of it reports an outcome or comes
  closer to that; six steps are enough. -/
  ends : ∀ n p held, c.pursuits.get? n = some p → p.assignment? = some held →
    p.due ≤ 6 ∧ (∃ a c' effects, a.flight? = some n ∧ c.step? a = some (c', effects)) ∧
      ∀ a c' effects, a.flight? = some n → c.step? a = some (c', effects) →
        (⟨c, a, effects⟩ : Moment).reported n = [held.peer] ∨
          ∃ p', c'.pursuits.get? n = some p' ∧ p'.assignment? = some held ∧ p'.due < p.due
  /-- The record of a peer counts no more places than are held with it. -/
  bounded : ∀ peer record, c.registry.find? peer = some record → record.inFlight ≤ c.places peer
  /-- The record of a peer that has never left counts just these. -/
  exact : ∀ peer record, c.registry.find? peer = some record → (∀ m ∈ past, ¬ m.Removes peer) →
    record.inFlight = c.places peer
  /-- The router waits for a peer only on behalf of a flight that holds a place with it. -/
  owned : ∀ id slot, c.router.slots.get? id = some slot → ∃ n, c.Owns n id slot
  /-- A peer with which no place is held is counted no request, and nothing is expected of it. -/
  free : ∀ peer, c.places peer = 0 →
    (∀ record, c.registry.find? peer = some record → record.inFlight = 0) ∧
      ∀ id slot, c.router.slots.get? id = some slot → slot.peer ≠ peer

namespace Run

variable {s : ClientSettings} {past : List Moment} {c : Client}

/-- In every run, places are given back just as they were taken. -/
theorem places_released (run : Run s past c) : c.PlacesReleased past where
  balanced := run.balanced
  reports m hm peer o ho := by
    obtain ⟨later, earlier, rfl⟩ := List.append_of_mem hm
    obtain ⟨_, d, hstep, _⟩ := run.cut
    exact (Client.step_of_step? hstep).reported ho
  ends n p held hpursuit hheld := by
    refine ⟨p.due_le, Client.exists_step hpursuit hheld, ?_⟩
    intro a c' effects hflight hstep
    have hfate := (Client.step_of_step? hstep).fate n
    rw [hpursuit] at hfate
    exact hfate.nearer hheld hflight
  bounded _ _ hfind := run.inFlight_le_places hfind
  exact _ _ hfind hkept := run.inFlight_eq_places hkept hfind
  owned _ _ hslot := run.owned hslot
  free peer hfree := by
    constructor
    · intro record hfind
      have hle := run.inFlight_le_places hfind
      omega
    · intro id slot hslot hpeer
      obtain ⟨n, howns⟩ := run.owned hslot
      exact places_ne_zero howns (hpeer ▸ hfree)

end Run

end

namespace Run

/-- The same where a flight is aborted while its peer comes back, and another one takes a place. -/
theorem places_released_of_abort :
    ∃ past c,
      Run ⟨.default, .default, .default, .default⟩ past c ∧
        reported 1 past = [⟨[7]⟩] ∧ c.held? 1 = none ∧
        (c.held? 2).map Assignment.peer = some ⟨[7]⟩ ∧ c.places ⟨[7]⟩ = 1 ∧
        c.PlacesReleased past := by
  let settings : ClientSettings := ⟨.default, .default, .default, .default⟩
  let header : Header := ⟨.zero, 0, .zero, .zero, .zero, .zero, []⟩
  let peer : PeerInfo := ⟨⟨[7]⟩, none, 2, [.body, .receipts], ⟨0, .zero⟩⟩
  let actions : List Action :=
    [.register peer, .call (.body header), .bind 0, .enter 0, .pursue 1, .pursue 1, .pursue 1,
      .pursue 1, .pursue 1, .pursue 1, .unregister ⟨[7]⟩, .register peer, .drop 0, .stop 1,
      .pursue 1, .call (.receipts header), .bind 1, .enter 1, .pursue 2, .pursue 2, .pursue 2]
  have hruns : (Moment.replay actions [] (Client.empty settings)).map (fun x =>
      (reported 1 x.1, x.2.held? 1, (x.2.held? 2).map Assignment.peer, x.2.places ⟨[7]⟩)) =
      some ([⟨[7]⟩], none, some ⟨[7]⟩, 1) := by
    decide +kernel
  obtain ⟨⟨past, c⟩, hreplay, hends⟩ := Option.map_eq_some_iff.mp hruns
  obtain ⟨hreported, hends⟩ := Prod.mk.inj hends
  obtain ⟨hfirst, hends⟩ := Prod.mk.inj hends
  obtain ⟨hsecond, hplaces⟩ := Prod.mk.inj hends
  have hrun : Run settings past c := Run.start.replay hreplay
  exact ⟨past, c, hrun, hreported, hfirst, hsecond, hplaces, places_released hrun⟩

end Run

end LightClient
