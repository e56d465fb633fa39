/-
Module: LightClient.Proofs.Retrieval.Failover
Purpose: A flight goes from peer to peer: it holds one place at a time, with peers that are all
  different and could serve its request when they were ranked, and it says truly how many they were
  when it gives up.
Main exports: Moment.Ranks, Moment.Sends, Moment.Registers, RankedFor, Client.Tallied,
  Client.FailoverKept, Run.tallied, Run.failover_kept
-/
import LightClient.Proofs.Retrieval.Records
import LightClient.Proofs.Retrieval.Release
import LightClient.Proofs.Since
import LightClient.Simulation.Libraries

namespace LightClient

open Client (Action Effect)

section

variable [ItemCache] [DelaySeries]

/-! ### What a flight has done -/

namespace Moment

/-- The pursuit of a flight ranks the peers. -/
def Ranks (n : Nat) (m : Moment) : Prop :=
  m.action = .pursue n ∧
    ∃ p seen, m.before.pursuits.get? n = some p ∧ p.stage = .ranking seen

/-- A request of a flight is handed to the transport. -/
def Sends (n : Nat) (m : Moment) : Prop :=
  m.action.flight? = some n ∧ ∃ id peer kind data, .sent id peer kind data ∈ m.effects

/-- The router begins to wait for a reply to a request of a flight, on this channel. -/
def Registers (n channel : Nat) (m : Moment) : Prop :=
  m.action = .pursue n ∧ m.before.router.registrations = channel ∧
    ∃ p held, m.before.pursuits.get? n = some p ∧ p.stage = .assigned held

end Moment

/-- The peer is registered and can serve the request. -/
def Client.CanServe (c : Client) (peer : PeerId) (r : Request) : Prop :=
  ∃ record, c.registry.find? peer = some record ∧ record.info.canServe r = true

/-- The peer could serve the request when the flight ranked the peers last. -/
def RankedFor (n : Nat) (r : Request) (peer : PeerId) (past : List Moment) : Prop :=
  Since (fun m => m.Ranks n ∧ m.before.CanServe peer r) (Moment.Ranks n) past

section

variable {c c' : Client} {n : Nat} {p p' : Pursuit} {a : Action} {effects : List Effect}
  {past : List Moment}

/-- A peer that is eligible for a pursuit can serve its request and was not tried for it. -/
theorem Client.eligible_canServe (hfiled : c.registry.Filed) {peer : PeerId}
    (h : peer ∈ c.eligible p) : c.CanServe peer p.request ∧ peer ∉ p.tried := by
  obtain ⟨record, hranked, rfl⟩ := List.mem_map.mp h
  obtain ⟨hfind, hwants⟩ := hfiled.find?_of_ranked hranked
  obtain ⟨hserves, hnew⟩ := Bool.and_eq_true_iff.mp hwants
  refine ⟨⟨record, hfind, hserves⟩, ?_⟩
  simpa using hnew

/-- A peer stays ranked for a request until the flight ranks again. -/
theorem RankedFor.later {r : Request} {peer : PeerId} {m : Moment} (h : RankedFor n r peer past)
    (hm : ¬ m.Ranks n) : RankedFor n r peer (m :: past) :=
  since_cons.mpr (.inr ⟨hm, h⟩)

theorem Moment.Ranks.flight? {m : Moment} (h : m.Ranks n) : m.action.flight? = some n := by
  rw [h.1]
  rfl

theorem Moment.Ranks.stage {m : Moment} (h : m.Ranks n)
    (hpursuit : m.before.pursuits.get? n = some p) : ∃ seen, p.stage = .ranking seen := by
  obtain ⟨_, q, seen, hq, hstage⟩ := h
  rw [hpursuit] at hq
  cases hq
  exact ⟨seen, hstage⟩

/-! ### The count of a pursuit -/

/-- A pursuit knows which peers its flight has taken places with, and how many; it tries those that
it has ranked and none of these again, and says the right number when it gives up. -/
structure Pursuit.Tallied (past : List Moment) (n : Nat) (p : Pursuit) : Prop where
  tried : p.tried = (taken n past).map Assignment.peer
  attempts : p.attempts = (taken n past).length
  offered : ∀ seen rest, p.stage = .offering seen rest →
    ∀ peer ∈ rest, peer ∉ p.tried ∧ RankedFor n p.request peer past
  honest : ∀ e, p.result? = some (.error e) → e = p.exhausted ∨ e = .canceled

namespace Pursuit

/-- A pursuit that takes no place keeps its tally, if its next stage offers ranked and untried peers
and its result fits the count. -/
theorem Tallied.carry {m : Moment} {aborted : Bool} {stage : Stage} (h : p.Tallied past n)
    (htaken : taken n (m :: past) = taken n past)
    (hoffered : ∀ seen rest, stage = .offering seen rest →
      ∀ peer ∈ rest, peer ∉ p.tried ∧ RankedFor n p.request peer (m :: past))
    (hresult : ∀ e, ({ p with aborted := aborted, stage := stage } : Pursuit).result? =
      some (.error e) → e = p.exhausted ∨ e = .canceled) :
    ({ p with aborted := aborted, stage := stage } : Pursuit).Tallied (m :: past) n where
  tried := h.tried.trans (congrArg _ htaken.symm)
  attempts := h.attempts.trans (congrArg _ htaken.symm)
  offered := hoffered
  honest := hresult

/-- A moment at which the flight does not rank the peers changes nothing about its count. -/
theorem Tallied.later {m : Moment} {aborted : Bool} (h : p.Tallied past n)
    (htaken : taken n (m :: past) = taken n past) (hm : ¬ m.Ranks n) :
    ({ p with aborted := aborted } : Pursuit).Tallied (m :: past) n := by
  refine h.carry htaken ?_ h.honest
  intro seen rest hstage peer hpeer
  obtain ⟨hnew, hranked⟩ := h.offered seen rest hstage peer hpeer
  exact ⟨hnew, hranked.later hm⟩

/-- A pursuit that has come to a result stays with it. -/
theorem Tallied.resolved {m : Moment} {stage : Stage} (h : p.Tallied past n)
    (htaken : taken n (m :: past) = taken n past)
    (hoffers : ∀ seen rest, stage ≠ .offering seen rest)
    (hresult : ({ p with stage := stage } : Pursuit).result? = p.result?) :
    ({ p with stage := stage } : Pursuit).Tallied (m :: past) n := by
  refine h.carry htaken ?_ ?_
  · intro seen rest hoffering
    exact absurd hoffering (hoffers seen rest)
  · intro e he
    exact h.honest e (hresult.symm.trans he)

/-- The error that a pursuit comes to by itself is that it has nobody to ask, or that it was
aborted. -/
theorem Shift.honest {stage : Stage} (h : p.Shift c n a stage effects) {e : RetrievalError}
    (he : ({ p with stage := stage } : Pursuit).result? = some (.error e)) :
    e = p.exhausted ∨ e = .canceled := by
  cases h with
  | despair =>
    cases he
    exact .inl rfl
  | withdraw =>
    cases he
    exact .inr rfl
  | _ => cases he

/-- A shift of stage that takes no place keeps the tally. -/
theorem Tallied.shift {stage : Stage} (h : p.Tallied past n)
    (hshift : p.Shift c n a stage effects) (hpursuit : c.pursuits.get? n = some p)
    (hfiled : c.registry.Filed)
    (htaken : taken n (⟨c, a, effects⟩ :: past) = taken n past) :
    ({ p with stage := stage } : Pursuit).Tallied (⟨c, a, effects⟩ :: past) n := by
  refine h.carry htaken ?_ fun _ => hshift.honest
  intro seen rest hoffering peer hpeer
  cases hshift with
  | candidates hranking =>
    cases hoffering
    obtain ⟨hserves, hnew⟩ := Client.eligible_canServe hfiled hpeer
    exact ⟨hnew, since_cons.mpr (.inl ⟨⟨rfl, p, seen, hpursuit, hranking⟩, hserves⟩)⟩
  | busy hstage =>
    cases hoffering
    obtain ⟨hnew, hranked⟩ := h.offered _ _ hstage peer (List.mem_cons_of_mem _ hpeer)
    refine ⟨hnew, hranked.later fun hranks => ?_⟩
    obtain ⟨_, hranking⟩ := hranks.stage hpursuit
    cases hstage.symm.trans hranking
  | _ => cases hoffering

/-- A pursuit that does not take a place keeps its count. -/
theorem Tallied.step (h : p.Tallied past n) (hfate : c.Fate n c' (some p) a effects (some p'))
    (hpursuit : c.pursuits.get? n = some p) (hfiled : c.registry.Filed)
    (hborn : n ≠ c.nextFlight) (htaken : taken n (⟨c, a, effects⟩ :: past) = taken n past)
    (hkept : p'.assignment? = p.assignment? ∨ p'.assignment? = none) :
    p'.Tallied (⟨c, a, effects⟩ :: past) n := by
  cases hfate with
  | rest other => exact h.later htaken fun hranks => other hranks.flight?
  | begin new => exact absurd new hborn
  | abort departs =>
    refine h.later htaken fun hranks => ?_
    rcases departs with rfl | rfl <;> cases hranks.flight?
  | shift shift => exact h.shift shift hpursuit hfiled htaken
  -- a place taken would contradict what is assumed about the assignments
  | assign stage =>
    rw [Pursuit.assignment?, Pursuit.assignment?, stage] at hkept
    rcases hkept with heq | heq <;> cases heq
  | register => exact h.carry htaken (by simp) (by simp [result?])
  | @conclude _ _ _ _ _ next conclusion =>
    refine h.carry htaken (by simp) ?_
    intro e he
    cases next with
    | finish result =>
      cases he
      exact absurd rfl (conclusion.not_error e)
    | _ => cases he
  | @release _ _ _ _ next stage proceeds =>
    cases next with
    | retry =>
      cases proceeds
      exact h.carry htaken (by simp) (by simp [result?])
    | finish result =>
      cases proceeds
      exact h.resolved htaken (by simp) (by simp only [result?, stage])
    | stop => cases proceeds
  | land stage => exact h.resolved htaken (by simp) (by simp only [result?, stage])
  | hand stage => exact h.resolved htaken (by simp) (by simp only [result?, stage])

/-- A fresh pursuit has tried nobody. -/
theorem Tallied.fresh {r : Request} (htaken : taken n past = []) :
    (Pursuit.fresh r).Tallied past n where
  tried := by rw [htaken]; rfl
  attempts := by rw [htaken]; rfl
  offered := nofun
  honest := nofun

/-- A place that is taken is the newest of the places that were taken. -/
theorem Tallied.assign {m : Moment} {held : Assignment} (h : p.Tallied past n)
    (htaken : taken n (m :: past) = held :: taken n past) :
    (p.assign held).Tallied (m :: past) n where
  tried := by rw [htaken, List.map_cons, ← h.tried]; rfl
  attempts := by rw [htaken, List.length_cons, ← h.attempts]; rfl
  offered := nofun
  honest := nofun

end Pursuit

end

/-- The counts of all pursuits are right, and no flight has taken two places with one peer. -/
structure Client.Tallied (past : List Moment) (c : Client) : Prop where
  filed : c.registry.Filed
  pursuits : ∀ n p, c.pursuits.get? n = some p → p.Tallied past n
  unborn : ∀ n, c.nextFlight ≤ n → taken n past = []
  distinct : ∀ n, ((taken n past).map Assignment.peer).Nodup

namespace Run

variable {s : ClientSettings} {past : List Moment} {c c' : Client} {n : Nat} {a : Action}
  {effects : List Effect}

/-- Whatever a step makes of a pursuit, its tally agrees with the history. -/
theorem pursuit_tallied {p' : Pursuit} (run : Run s past c) (h : c.Tallied past)
    (hstep : c.step? a = some (c', effects)) (hpursuit : c'.pursuits.get? n = some p') :
    p'.Tallied (⟨c, a, effects⟩ :: past) n := by
  have hfate := (Client.step_of_step? hstep).fate n
  rcases run.taken_step hstep n with
    ⟨htaken, hkept⟩ | ⟨p, seen, rest, held, hbefore, _, hassigned, htaken⟩
  · rw [hpursuit] at hfate
    rw [Client.held?, Client.held?, hpursuit] at hkept
    cases hbefore : c.pursuits.get? n with
    | none =>
      rw [hbefore] at hfate
      cases hfate with
      | begin new =>
        have hunborn : taken n past = [] := h.unborn n (Nat.le_of_eq new.symm)
        exact .fresh (htaken.trans hunborn)
    | some p =>
      rw [hbefore] at hfate hkept
      have hborn : n ≠ c.nextFlight := Nat.ne_of_lt (run.attended.numbers n p hbefore)
      exact (h.pursuits n p hbefore).step hfate hbefore h.filed hborn htaken hkept
  · rw [hpursuit] at hassigned
    cases hassigned
    exact (h.pursuits n p hbefore).assign htaken

/-- In every run the tallies of all pursuits agree with the history. -/
theorem tallied (run : Run s past c) : c.Tallied past := by
  induction run with
  | start =>
    refine ⟨.empty s.registry, ?_, fun _ _ => rfl, fun _ => List.nodup_nil⟩
    intro n p hpursuit
    cases hpursuit
  | @step past c c' a effects run hstep ih =>
    have hrule := Client.step_of_step? hstep
    refine ⟨ih.filed.update hrule.registry, fun n p => run.pursuit_tallied ih hstep, ?_, ?_⟩
    · intro n hn
      have hbefore : c.nextFlight ≤ n := Nat.le_trans hrule.nextFlight_le hn
      rcases run.taken_step hstep n with ⟨htaken, _⟩ | ⟨p, _, _, _, hpursuit, _⟩
      · exact htaken.trans (ih.unborn n hbefore)
      · rw [run.pursuit_eq_none hbefore] at hpursuit
        cases hpursuit
    · intro n
      rcases run.taken_step hstep n with
        ⟨htaken, _⟩ | ⟨p, seen, rest, held, hpursuit, hstage, _, htaken⟩
      · rw [htaken]
        exact ih.distinct n
      · have htally := ih.pursuits n p hpursuit
        obtain ⟨hnew, _⟩ := htally.offered seen _ hstage held.peer List.mem_cons_self
        rw [htaken, List.map_cons, List.nodup_cons, ← htally.tried]
        rw [htally.tried] at hnew ⊢
        exact ⟨hnew, ih.distinct n⟩

/-- A flight that has come to a result takes no place any more. -/
theorem taken_of_resolved {m : Moment} {result : Retrieved} (run : Run s past c)
    (hstep : c.step? a = some (c', effects)) (hm : m ∈ past) (h : m.Resolves n result) :
    taken n (⟨c, a, effects⟩ :: past) = taken n past := by
  rcases run.taken_step hstep n with ⟨htaken, _⟩ | ⟨p, _, _, _, hpursuit, hstage, _⟩
  · exact htaken
  · have hlanded := (run.numbered.resolves m hm n result h).2 p hpursuit
    rw [Pursuit.landed, hstage] at hlanded
    cases hlanded

/-- A flight that ends with an error was aborted, or says truly with how many peers it has taken
places. -/
theorem error_of_resolved {m : Moment} {e : RetrievalError} (run : Run s past c) (hm : m ∈ past)
    (h : m.Resolves n (.error e)) :
    e = .canceled ∨ taken n past = [] ∧ e = .noPeerAvailable ∨
      taken n past ≠ [] ∧ e = .allPeersFailed (taken n past).length := by
  induction run with
  | start => cases hm
  | @step past c c' a effects run hstep ih =>
    rcases List.mem_cons.mp hm with rfl | hm
    · obtain ⟨_, p, hpursuit, hstage⟩ := h
      have htally := run.tallied.pursuits n p hpursuit
      have htaken : taken n (⟨c, a, effects⟩ :: past) = taken n past := by
        rcases run.taken_step hstep n with ⟨htaken, _⟩ | ⟨q, _, _, _, hq, hoffering, _⟩
        · exact htaken
        · rw [show c.pursuits.get? n = some p from hpursuit] at hq
          cases hq
          cases hstage.symm.trans hoffering
      rw [htaken]
      rcases htally.honest e (by rw [Pursuit.result?, hstage]) with hexhausted | hcanceled
      · right
        rw [hexhausted, Pursuit.exhausted, htally.attempts]
        cases htaken : taken n past with
        | nil => exact .inl ⟨rfl, rfl⟩
        | cons held rest => exact .inr ⟨List.cons_ne_nil _ _, rfl⟩
      · exact .inl hcanceled
    · rw [run.taken_of_resolved hstep hm h]
      exact ih hm

end Run

/-! ### Requests on the wire -/

section

variable {c c' : Client} {n : Nat} {p : Pursuit} {o o' : Option Pursuit} {a : Action}
  {effects : List Effect}

/-- A request is handed to the transport only by a pursuit that has not done so for its place. -/
theorem Client.Fate.sends (h : c.Fate n c' o a effects o')
    (hsends : (⟨c, a, effects⟩ : Moment).Sends n) :
    ∃ p held t, o = some p ∧ p.stage = .dispatching held t ∧
      o' = some { p with stage := .sending held t } := by
  obtain ⟨hflight, id, peer, kind, data, hsent⟩ := hsends
  cases h with
  | rest other => exact absurd hflight other
  | shift shift =>
    cases shift with
    | dispatch stage => exact ⟨_, _, _, rfl, stage, rfl⟩
    | _ => cases hsent
  | release =>
    rcases mem_report hsent with heq | ⟨_, _, heq⟩
    · cases heq
    · cases heq
  | _ => cases hsent

/-- The steps of others do nothing to a pursuit but abort it. -/
theorem Client.Fate.of_others (h : c.Fate n c' (some p) a effects o') (hborn : n ≠ c.nextFlight)
    (hother : a.flight? ≠ some n) : ∃ aborted, o' = some { p with aborted := aborted } := by
  cases h with
  | rest => exact ⟨p.aborted, rfl⟩
  | begin new => exact absurd new hborn
  | abort => exact ⟨true, rfl⟩
  | shift shift => exact absurd shift.flight? hother
  | conclude conclusion => exact absurd conclusion.flight? hother
  | gone flight => exact absurd flight hother
  | _ => exact absurd rfl hother

end

namespace Run

variable {s : ClientSettings} {past : List Moment} {c : Client} {n : Nat}

/-- A flight that has handed over a request, and has reported no outcome since, holds the place for
it and will not hand it over again. -/
theorem outstanding (run : Run s past c)
    (h : Since (Moment.Sends n) (fun m => m.reported n ≠ []) past) :
    ∃ p held, c.pursuits.get? n = some p ∧ p.assignment? = some held ∧ p.due ≤ 3 := by
  induction run with
  | start => exact absurd h not_since_nil
  | @step past c c' a effects run hstep ih =>
    have hfate := (Client.step_of_step? hstep).fate n
    rcases since_cons.mp h with hsends | ⟨hsilent, hearlier⟩
    · obtain ⟨p, held, t, _, _, hpursuit⟩ := hfate.sends hsends
      exact ⟨_, held, hpursuit, rfl, Nat.le_refl 3⟩
    · obtain ⟨p, held, hpursuit, hheld, hdue⟩ := ih hearlier
      have hborn : n ≠ c.nextFlight := Nat.ne_of_lt (run.attended.numbers n p hpursuit)
      rw [hpursuit] at hfate
      by_cases hflight : a.flight? = some n
      · rcases hfate.nearer hheld hflight with hreported | ⟨p', hpursuit', hheld', hlt⟩
        · rw [hreported] at hsilent
          exact absurd (List.cons_ne_nil _ _) hsilent
        · exact ⟨p', held, hpursuit', hheld', by omega⟩
      · obtain ⟨aborted, hpursuit'⟩ := hfate.of_others hborn hflight
        exact ⟨_, held, hpursuit', hheld, hdue⟩

/-- Between two requests that a flight hands over, it reports the outcome of the first one. -/
theorem reported_between {later between earlier : List Moment} {m m' : Moment}
    (run : Run s (later ++ m' :: (between ++ m :: earlier)) c) (hm : m.Sends n)
    (hm' : m'.Sends n) : ∃ x ∈ between, x.reported n ≠ [] := by
  obtain ⟨hrun, d, hstep, _⟩ := run.cut
  by_contra hsilent
  obtain ⟨p, held, hpursuit, _, hdue⟩ := hrun.outstanding
    ⟨between, m, earlier, rfl, hm, fun x hx hreported => hsilent ⟨x, hx, hreported⟩⟩
  obtain ⟨q, _, _, hq, hstage, _⟩ := ((Client.step_of_step? hstep).fate n).sends hm'
  rw [hpursuit] at hq
  cases hq
  have hunsent : p.due = 4 := by rw [Pursuit.due, hstage]
  omega

end Run

/-! ### Slots of the router -/

section

variable {c c' : Client} {n : Nat} {p' : Pursuit} {o : Option Pursuit} {a : Action}
  {effects : List Effect} {t : Ticket}

/-- A ticket was there before a step, or is that of the next registration. -/
theorem Client.Fate.ticket_source (h : c.Fate n c' o a effects (some p'))
    (hticket : p'.ticket? = some t) :
    (∃ p, o = some p ∧ p.ticket? = some t) ∨
      ∃ p held, a = .pursue n ∧ o = some p ∧ p.stage = .assigned held ∧
        c.router.registrations = t.channel := by
  cases h with
  | rest => exact .inl ⟨p', rfl, hticket⟩
  | begin => cases hticket
  | abort => exact .inl ⟨_, rfl, hticket⟩
  | shift shift => exact .inl ⟨_, rfl, shift.ticket?.symm.trans hticket⟩
  | assign => cases hticket
  | register stage =>
    cases hticket
    exact .inr ⟨_, _, rfl, rfl, stage, rfl⟩
  | conclude => cases hticket
  | @release _ _ _ _ next _ proceeds =>
    cases next with
    | retry =>
      cases proceeds
      cases hticket
    | finish result =>
      cases proceeds
      cases hticket
    | stop => cases proceeds
  | land => cases hticket
  | hand => cases hticket

/-- The router's count of registrations never goes down. -/
theorem Client.Step.registrations_le (hstep : c.Step a c' effects) :
    c.router.registrations ≤ c'.router.registrations := by
  rcases hstep.slots with hshrinks | ⟨_, _, _, _, _, _, hrouter, _⟩
  · exact Nat.le_of_eq hshrinks.registrations.symm
  · rw [hrouter]
    exact Nat.le_succ _

/-- A registration takes the next channel of the router. -/
theorem Moment.Registers.next {channel : Nat} (hstep : c.step? a = some (c', effects))
    (h : (⟨c, a, effects⟩ : Moment).Registers n channel) :
    c'.router.registrations = channel + 1 := by
  obtain ⟨haction, hchannel, p, held, hpursuit, hstage⟩ := h
  cases show a = .pursue n from haction
  rw [Client.step?_of_flight hpursuit rfl, Client.pursuitStep?, Client.pursue?, hstage] at hstep
  cases hstep
  exact congrArg (· + 1) hchannel

end

namespace Run

variable {s : ClientSettings} {past : List Moment} {c : Client} {n : Nat}

/-- Every channel that a flight has registered is below the count of registrations. -/
theorem channel_lt {m : Moment} {channel : Nat} (run : Run s past c) (hm : m ∈ past)
    (h : m.Registers n channel) : channel < c.router.registrations := by
  induction run with
  | start => cases hm
  | step run hstep ih =>
    rcases List.mem_cons.mp hm with rfl | hm
    · rw [h.next hstep]
      exact Nat.lt_succ_self channel
    · exact Nat.lt_of_lt_of_le (ih hm) (Client.step_of_step? hstep).registrations_le

/-- Two flights never register on one channel. -/
theorem eq_of_registers {m m' : Moment} {n' channel : Nat} (run : Run s past c) (hm : m ∈ past)
    (hm' : m' ∈ past) (h : m.Registers n channel) (h' : m'.Registers n' channel) : n = n' := by
  induction run with
  | start => cases hm
  | step run hstep ih =>
    rcases List.mem_cons.mp hm with rfl | hm <;> rcases List.mem_cons.mp hm' with rfl | hm'
    · exact Action.pursue.inj (h.1.symm.trans h'.1)
    · exact absurd h.2.1 (Nat.ne_of_gt (run.channel_lt hm' h'))
    · exact absurd h'.2.1 (Nat.ne_of_gt (run.channel_lt hm h))
    · exact ih hm hm'

/-- A ticket that a pursuit holds was registered by its own flight. -/
theorem ticket_registered {p : Pursuit} {t : Ticket} (run : Run s past c)
    (hpursuit : c.pursuits.get? n = some p) (hticket : p.ticket? = some t) :
    Seen past (Moment.Registers n t.channel) := by
  induction run generalizing p with
  | start => cases hpursuit
  | step run hstep ih =>
    have hfate := (Client.step_of_step? hstep).fate n
    rw [hpursuit] at hfate
    rcases hfate.ticket_source hticket with
      ⟨q, hq, hold⟩ | ⟨q, held, haction, hq, hstage, hchannel⟩
    · exact (ih hq hold).later
    · exact .now ⟨haction, hchannel, q, held, hq, hstage⟩

/-- A slot on a channel that a flight registered is that of its ticket. -/
theorem ticket_of_slot {id : RequestId} {slot : Slot} (run : Run s past c)
    (hslot : c.router.slots.get? id = some slot)
    (h : Seen past (Moment.Registers n slot.channel)) :
    ∃ p, c.pursuits.get? n = some p ∧ p.ticket? = some ⟨id, slot.channel⟩ := by
  obtain ⟨m, hm, hregisters⟩ := h
  obtain ⟨n', p, held, hpursuit, _, hticket, _⟩ := run.owned hslot
  obtain ⟨m', hm', hregisters'⟩ := run.ticket_registered hpursuit hticket
  cases run.eq_of_registers hm hm' hregisters hregisters'
  exact ⟨p, hpursuit, hticket⟩

/-- A place is taken with a peer that could serve the request when the peers were ranked for it. -/
theorem ranked_of_taken {later earlier : List Moment} {m : Moment} {held : Assignment}
    (run : Run s (later ++ m :: earlier) c) (htaken : m.taken? n = some held) :
    ∃ p, m.before.pursuits.get? n = some p ∧ RankedFor n p.request held.peer earlier := by
  obtain ⟨hrun, d, hstep, _⟩ := run.cut
  have hcons : taken n (m :: earlier) = held :: taken n earlier := by
    rw [taken, List.filterMap_cons, htaken, taken]
  rcases hrun.taken_step hstep n with
    ⟨hsame, _⟩ | ⟨p, seen, rest, held', hpursuit, hstage, _, hnew⟩
  · exact absurd (hcons.symm.trans hsame) (List.cons_ne_self _ _)
  · obtain rfl : held' = held := (List.cons.inj (hnew.symm.trans hcons)).1
    have htally := hrun.tallied.pursuits n p hpursuit
    exact ⟨p, hpursuit, (htally.offered seen _ hstage held'.peer List.mem_cons_self).2⟩

end Run

/-- A flight tries one peer after the other. -/
structure Client.FailoverKept (past : List Moment) (c : Client) : Prop where
  /-- A flight holds at most one place, and has reported an outcome for all others that it took. -/
  single : ∀ n, (taken n past).length =
    (reported n past).length + if (c.held? n).isSome then 1 else 0
  /-- The router has at most one slot that a flight registered. -/
  slots : ∀ n id slot id' slot', c.router.slots.get? id = some slot →
    c.router.slots.get? id' = some slot' → Seen past (Moment.Registers n slot.channel) →
    Seen past (Moment.Registers n slot'.channel) → id = id' ∧ slot = slot'
  /-- Between two requests that a flight hands to the transport, it reports an outcome. -/
  requests : ∀ n later m' between m earlier, past = later ++ m' :: (between ++ m :: earlier) →
    m.Sends n → m'.Sends n → ∃ x ∈ between, x.reported n ≠ []
  /-- A flight takes no two places with one peer. -/
  distinct : ∀ n, ((taken n past).map Assignment.peer).Nodup
  /-- A flight takes a place only with a peer that could serve its request when it ranked the peers
  last. -/
  ranked : ∀ n later m earlier held, past = later ++ m :: earlier → m.taken? n = some held →
    ∃ p, m.before.pursuits.get? n = some p ∧ RankedFor n p.request held.peer earlier
  /-- A flight that ends because all peers have failed says with how many it took a place. -/
  failed : ∀ n k, ∀ m ∈ past, m.Resolves n (.error (.allPeersFailed k)) →
    k = (taken n past).length ∧ 1 ≤ k
  /-- A flight that ends because there was no peer has taken no place. -/
  missed : ∀ n, ∀ m ∈ past, m.Resolves n (.error .noPeerAvailable) → taken n past = []

namespace Run

variable {s : ClientSettings} {past : List Moment} {c : Client}

/-- In every run, a flight tries one peer after the other and none again. -/
theorem failover_kept (run : Run s past c) : c.FailoverKept past where
  single n := by
    have hlength := congrArg List.length (run.balanced n)
    rw [List.length_map, List.length_append] at hlength
    rw [hlength, Nat.add_comm]
    cases c.held? n <;> rfl
  slots n id slot id' slot' hslot hslot' h h' := by
    obtain ⟨p, hpursuit, hticket⟩ := run.ticket_of_slot hslot h
    obtain ⟨q, hq, hticket'⟩ := run.ticket_of_slot hslot' h'
    rw [hpursuit] at hq
    cases hq
    obtain ⟨rfl, _⟩ := Ticket.mk.inj (Option.some.inj (hticket.symm.trans hticket'))
    exact ⟨rfl, Option.some.inj (hslot.symm.trans hslot')⟩
  requests n later m' between m earlier hpast hm hm' := by
    subst hpast
    exact run.reported_between hm hm'
  distinct := run.tallied.distinct
  ranked n later m earlier held hpast htaken := by
    subst hpast
    exact run.ranked_of_taken htaken
  failed n k m hm h := by
    rcases run.error_of_resolved hm h with heq | ⟨_, heq⟩ | ⟨hsome, heq⟩
    · cases heq
    · cases heq
    · cases heq
      exact ⟨rfl, List.length_pos_iff.mpr hsome⟩
  missed n m hm h := by
    rcases run.error_of_resolved hm h with heq | ⟨hnone, _⟩ | ⟨_, heq⟩
    · cases heq
    · exact hnone
    · cases heq

end Run

end

namespace Run

/-- The same where one peer declines and comes back under a new registration, another one lets the
time run off, and nobody else is left. -/
theorem failover_kept_of_return :
    ∃ past c,
      Run ⟨.default, .default, .default, .default⟩ past c ∧
        (taken 1 past).map Assignment.peer = [⟨[8]⟩, ⟨[7]⟩] ∧
        (c.callers.get? 0).bind Caller.result? = some (.error (.allPeersFailed 2)) ∧
        c.FailoverKept past := by
  let settings : ClientSettings := ⟨.default, .default, .default, .default⟩
  let header : Header := ⟨.zero, 0, .zero, .zero, .zero, .zero, []⟩
  let peer (number : UInt8) : PeerInfo := ⟨⟨[number]⟩, none, 2, [.body], ⟨0, .zero⟩⟩
  let ask : List Action := [.pursue 1, .pursue 1, .pursue 1, .pursue 1, .pursue 1, .pursue 1]
  let actions : List Action :=
    [.register (peer 7), .call (.body header), .bind 0, .enter 0] ++ ask ++
      [.accept 1, .receive ⟨[7]⟩ ⟨0⟩ .body .cannotServe, .collect 1 (.ofNanos 5), .pursue 1,
        .unregister ⟨[7]⟩, .register (peer 7), .register (peer 8)] ++ ask ++
      [.accept 1, .expire 1, .pursue 1, .pursue 1, .pursue 1, .pursue 1, .pursue 1, .despair 1,
        .pursue 1, .serve 1 0, .take 0]
  have hruns : (Moment.replay actions [] (Client.empty settings)).map (fun x =>
      ((taken 1 x.1).map Assignment.peer, (x.2.callers.get? 0).bind Caller.result?)) =
      some ([⟨[8]⟩, ⟨[7]⟩], some (.error (.allPeersFailed 2))) := by
    decide +kernel
  obtain ⟨⟨past, c⟩, hreplay, hends⟩ := Option.map_eq_some_iff.mp hruns
  obtain ⟨htaken, hresult⟩ := Prod.mk.inj hends
  have hrun : Run settings past c := Run.start.replay hreplay
  exact ⟨past, c, hrun, htaken, hresult, failover_kept hrun⟩

end Run

end LightClient
