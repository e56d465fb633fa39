/-
Module: LightClient.Proofs.Retrieval.Outcomes
Purpose: What callers return: what the store held when they entered, or what the flight brought that
  they joined, the same for all that waited for it; and no caller pays for the cancellation of
  another one.
Main exports: Caller.Served, Client.OutcomesShared, Run.eq_of_lands, Run.served,
  Run.outcome_shared
-/
import LightClient.Proofs.Retrieval.Records
import LightClient.Simulation.Libraries

namespace LightClient

open Client (Action Effect)

section

variable [ItemCache] [DelaySeries]

/-- Where a caller is, for which its flight has landed with this result while it had this place. -/
inductive Caller.Served (x : Caller) (seat : Caller.Seat) (result : Retrieved) : Prop where
  | waiting (stage : x.stage = .waiting seat)
  | handed (stage : x.stage = .handed seat result)
  | returned (stage : x.stage = .returned result)
  /-- The caller no longer wanted the result. -/
  | quit (stage : x.stage = .returned (.error .canceled)) (canceled : x.canceled = true)
  | dropped (stage : x.stage = .dropped)

namespace Caller

variable {c : Client} {n : Nat} {x x' : Caller} {a : Action} {result : Retrieved} {seat : Seat}

/-- A caller that has come to its end stays there. -/
theorem Progress.of_over (h : x.Progress c n a x') (hover : x.isOver = true) :
    x'.stage = x.stage := by
  have hgoing : ∀ {stage}, x.stage = stage → ({ x with stage := stage } : Caller).isOver = true := by
    rintro stage rfl
    exact hover
  cases h with
  | rest => rfl
  | cancel => rfl
  | shift hshift =>
    cases hshift with
    | _ stage => cases hgoing stage
  | drop going =>
    rw [hover] at going
    cases going
  | quit waits =>
    cases waits with
    | _ stage => cases hgoing stage
  | join stage => cases hgoing stage
  | stored stage => cases hgoing stage
  | begin stage => cases hgoing stage
  | hand stage => cases hgoing stage

/-- A canceled caller stays canceled. -/
theorem Progress.canceled (h : x.Progress c n a x') (hcanceled : x.canceled = true) :
    x'.canceled = true := by
  cases h with
  | cancel => rfl
  | _ => exact hcanceled

end Caller

/-- What holds of the outcomes of calls in every state that can be reached. -/
structure Client.OutcomesShared (past : List Moment) (c : Client) : Prop where
  /-- What a call has returned it returns for good. -/
  once : ∀ n result,
    (Seen past fun m => ∃ x, m.before.callers.get? n = some x ∧ x.result? = some result) →
      ∃ x, c.callers.get? n = some x ∧ x.result? = some result
  /-- A call that has entered and is still wanted returns what the store held when it entered, or
  what the flight brought that it joined; and that is neither a cancellation nor nothing. -/
  settled : ∀ n x r result, c.callers.get? n = some x → x.canceled = false → Entered past n r →
    x.result? = some result →
      Settled past n r result ∧ result ≠ .error .canceled ∧ result ≠ .error .noOutcome
  /-- A flight lands once. -/
  lands : ∀ key key' f f' result result', (Seen past fun m => m.Lands key f result) →
    (Seen past fun m => m.Lands key' f' result') → f.id = f'.id →
      key = key' ∧ f = f' ∧ result = result'
  /-- Whoever waits for a flight when it lands gets what it brings, goes away, or cancels its own
  call. -/
  served : ∀ n seat result, Landed past n seat result →
    ∃ x, c.callers.get? n = some x ∧ x.Served seat result

namespace Run

variable {s : ClientSettings} {past : List Moment} {c : Client}

/-- A flight lands once: its landings are one. -/
theorem eq_of_lands (run : Run s past c) {key key' : RequestKey} {f f' : Flight}
    {result result' : Retrieved} (h : Seen past fun m => m.Lands key f result)
    (h' : Seen past fun m => m.Lands key' f' result') (hid : f.id = f'.id) :
    key = key' ∧ f = f' ∧ result = result' := by
  obtain ⟨m, hm, hflight, hresolves⟩ := h
  obtain ⟨m', hm', hflight', hresolves'⟩ := h'
  have hsame : m = m' := by
    have hsymm : Std.Symm fun m m' : Moment =>
        ∀ result result', m.Resolves f.id result → ¬ m'.Resolves f.id result' :=
      ⟨fun _ _ h _ _ hm hm' => h _ _ hm' hm⟩
    have honce : past.Pairwise fun m m' =>
        ∀ result result', m.Resolves f.id result → ¬ m'.Resolves f.id result' :=
      run.distinct.imp fun h _ _ hlater hearlier => h.resolves _ _ _ hearlier hlater
    by_contra hne
    exact honce.forall hm hm' hne _ _ hresolves (hid ▸ hresolves')
  subst hsame
  obtain ⟨earlier, hrun⟩ := run.before hm
  have hkey := hrun.attended.key_unique hflight hflight' hid
  subst hkey
  rw [hflight] at hflight'
  cases hflight'
  obtain ⟨_, p, hp, hstage⟩ := hresolves
  obtain ⟨_, p', hp', hstage'⟩ := hresolves'
  rw [hp] at hp'
  cases hp'
  rw [hstage] at hstage'
  cases hstage'
  exact ⟨rfl, rfl, rfl⟩

/-- What a flight brings is neither a cancellation nor nothing. -/
theorem sincere_of_lands (run : Run s past c) {key : RequestKey} {f : Flight} {result : Retrieved}
    (h : Seen past fun m => m.Lands key f result) :
    result ≠ .error .canceled ∧ result ≠ .error .noOutcome := by
  obtain ⟨m, hm, hflight, _, p, hp, hstage⟩ := h
  obtain ⟨earlier, hrun⟩ := run.before hm
  obtain ⟨q, hq, _, haborted, _⟩ := hrun.attended.pursued key f hflight
  rw [hp] at hq
  cases hq
  have hresult : p.result? = some result := by rw [Pursuit.result?, hstage]
  have hsincere := (hrun.recorded.pursuits _ p hp).sincere haborted
  constructor
  · rintro rfl
    exact (hsincere _ hresult).1 rfl
  · rintro rfl
    exact (hsincere _ hresult).2 rfl

/-- A caller whose flight has landed is about to be handed what the flight brought, has been handed
it, has returned it, or has gone away. -/
theorem served_step {a : Action} {c' : Client} {effects : List Effect} (run : Run s past c)
    (hstep : c.step? a = some (c', effects)) {n : Nat} {x x' : Caller} {seat : Caller.Seat}
    {result : Retrieved} (hlanded : Landed past n seat result)
    (hcaller : c.callers.get? n = some x) (hprogress : x.Progress c n a x')
    (hserved : x.Served seat result) : x'.Served seat result := by
  -- another result of the same flight is the same result
  have hsame : ∀ result', Landed past n seat result' → result' = result := by
    rintro result' ⟨f', hid', _, hseen'⟩
    obtain ⟨f, hid, _, hseen⟩ := hlanded
    exact (run.eq_of_lands hseen' hseen (hid'.trans hid.symm)).2.2
  have hover : x.isOver = true → x'.stage = x.stage := hprogress.of_over
  cases hserved with
  | returned stage => exact .returned ((hover (by rw [Caller.isOver, stage])).trans stage)
  | quit stage canceled =>
    exact .quit ((hover (by rw [Caller.isOver, stage])).trans stage) (hprogress.canceled canceled)
  | dropped stage => exact .dropped ((hover (by rw [Caller.isOver, stage])).trans stage)
  | waiting stage =>
    have hwaiting : ∀ {stage'}, x.stage = stage' → stage' = .waiting seat := by
      rintro stage' rfl
      exact stage
    cases hprogress with
    | rest => exact .waiting stage
    | cancel => exact .waiting stage
    | shift hshift =>
      cases hshift with
      | lose stage unserved =>
        have hserved := run.attended.isServed_of_waits ⟨x, hcaller, stage⟩
        rw [unserved] at hserved
        cases hserved
      | _ stage => cases hwaiting stage
    | drop => exact .dropped rfl
    | quit _ canceled => exact .quit rfl canceled
    | join stage => cases hwaiting stage
    | stored stage => cases hwaiting stage
    | begin stage => cases hwaiting stage
    | @hand seat' p result' waiters stage pursuit key handing next =>
      cases hwaiting stage
      obtain ⟨f, hid, hwaiters, hseen⟩ := (run.recorded.pursuits _ p pursuit).handing _ _ handing
      rw [key] at hseen
      rw [hsame result' ⟨f, hid, hwaiters _ _ (Table.mem_of_get? next), hseen⟩]
      exact .handed rfl
  | handed stage =>
    have hhanded : ∀ {stage'}, x.stage = stage' → stage' = .handed seat result := by
      rintro stage' rfl
      exact stage
    cases hprogress with
    | rest => exact .handed stage
    | cancel => exact .handed stage
    | shift hshift =>
      cases hshift with
      | take stage =>
        cases hhanded stage
        exact .returned rfl
      | _ stage => cases hhanded stage
    | drop => exact .dropped rfl
    | quit _ canceled => exact .quit rfl canceled
    | join stage => cases hhanded stage
    | stored stage => cases hhanded stage
    | begin stage => cases hhanded stage
    | hand stage => cases hhanded stage

/-- A caller whose flight has landed is on its way to the result of the landing, or has it. -/
theorem served (run : Run s past c) {n : Nat} {seat : Caller.Seat} {result : Retrieved}
    (hlanded : Landed past n seat result) :
    ∃ x, c.callers.get? n = some x ∧ x.Served seat result := by
  induction run with
  | start =>
    obtain ⟨f, _, _, m, hm, _⟩ := hlanded
    cases hm
  | @step past c c' a effects run hstep ih =>
    have hrule := Client.step_of_step? hstep
    obtain ⟨f, hid, hwaiter, hseen⟩ := hlanded
    rcases seen_cons.mp hseen with ⟨hflight, haction, p, hp, hstage⟩ | hseen
    · -- the flight lands now, and those that wait for it still do
      obtain ⟨_, hwaits⟩ := (run.attended.crowded _ f hflight).2 _ n hwaiter
      rw [hid] at hwaits
      obtain ⟨x, hcaller, hwaiting⟩ := hwaits
      obtain ⟨x', hcaller', hprogress⟩ := hrule.caller_progress run.attended hcaller
      refine ⟨x', hcaller', .waiting ?_⟩
      cases hprogress with
      | rest => exact hwaiting
      | hand stage pursuit _ handing =>
        rw [hwaiting] at stage
        cases stage
        rw [hid, show c.pursuits.get? seat.flight = some _ from pursuit] at hp
        cases hp
        rw [handing] at hstage
        cases hstage
      | shift hshift => cases hshift <;> cases haction
      | _ => cases haction
    · have hlanded : Landed past n seat result := ⟨f, hid, hwaiter, hseen⟩
      obtain ⟨x, hcaller, hserved⟩ := ih hlanded
      obtain ⟨x', hcaller', hprogress⟩ := hrule.caller_progress run.attended hcaller
      exact ⟨x', hcaller', run.served_step hstep hlanded hcaller hprogress hserved⟩

/-- What a call has returned it returns for good. -/
theorem returned_once (run : Run s past c) {n : Nat} {result : Retrieved}
    (h : Seen past fun m => ∃ x, m.before.callers.get? n = some x ∧ x.result? = some result) :
    ∃ x, c.callers.get? n = some x ∧ x.result? = some result := by
  induction run with
  | start =>
    obtain ⟨m, hm, _⟩ := h
    cases hm
  | @step past c c' a effects run hstep ih =>
    have hreturned : ∃ x, c.callers.get? n = some x ∧ x.result? = some result :=
      (seen_cons.mp h).elim id ih
    obtain ⟨x, hcaller, hresult⟩ := hreturned
    obtain ⟨x', hcaller', hprogress⟩ :=
      (Client.step_of_step? hstep).caller_progress run.attended hcaller
    have hstage := Caller.stage_of_result? hresult
    refine ⟨x', hcaller', ?_⟩
    rw [Caller.result?, hprogress.of_over (by rw [Caller.isOver, hstage]), hstage]

/-- What a caller that still wants its result has returned is what it found in the store when it
entered, or what the flight brought that it joined; and it is neither a cancellation nor nothing. -/
theorem settled (run : Run s past c) {n : Nat} {x : Caller} {r : Request} {result : Retrieved}
    (hcaller : c.callers.get? n = some x) (hwanted : x.canceled = false)
    (hentered : Entered past n r) (hreturned : x.result? = some result) :
    Settled past n r result ∧ result ≠ .error .canceled ∧ result ≠ .error .noOutcome := by
  have hrecorded : x.Recorded past n := run.recorded.callers n x hcaller
  rw [Caller.Recorded, Caller.stage_of_result? hreturned] at hrecorded
  have hsettled := hrecorded hwanted r hentered
  refine ⟨hsettled, ?_⟩
  rcases hsettled with ⟨item, rfl, _⟩ | ⟨seat, _, _, f, _, _, hseen⟩
  · exact ⟨by simp, by simp⟩
  · exact run.sincere_of_lands hseen

/-- In every run, callers share the outcome of the flight that they have joined, and a cancellation
concerns nobody but the caller who asked for it. -/
theorem outcome_shared (run : Run s past c) : c.OutcomesShared past where
  once _ _ h := run.returned_once h
  settled _ _ _ _ hcaller hwanted hentered hreturned :=
    run.settled hcaller hwanted hentered hreturned
  lands _ _ _ _ _ _ h h' hid := run.eq_of_lands h h' hid
  served _ _ _ hlanded := run.served hlanded

end Run

end

namespace Run

/-- Three callers wait for one code, and one of them cancels its call. The other two get the code, the
one that came last before the other. -/
theorem outcome_shared_of_cancellation :
    ∃ past c, Run ⟨.default, .default, .default, .default⟩ past c ∧
      ((c.callers.get? 0).bind Caller.result?, (c.callers.get? 1).bind Caller.result?,
          (c.callers.get? 2).bind Caller.result?) =
        (some (.ok (.code [1])), some (.error .canceled), some (.ok (.code [1]))) ∧
      c.OutcomesShared past := by
  let settings : ClientSettings := ⟨.default, .default, .default, .default⟩
  let header : Header := ⟨.zero, 0, .zero, .zero, .zero, .zero, []⟩
  let query : Query := .code header (sha256 [1])
  let payload := Wire.Message.encode (⟨[1]⟩ : Wire.CodeMessage)
  let actions : List Action :=
    [.register ⟨⟨[7]⟩, none, 2, [.code], ⟨0, .zero⟩⟩, .call query, .bind 0, .enter 0, .call query,
      .bind 1, .enter 1, .call query, .bind 2, .enter 2, .pursue 1, .pursue 1, .pursue 1, .pursue 1,
      .pursue 1, .pursue 1, .accept 1, .cancel 1, .receive ⟨[7]⟩ ⟨0⟩ .code (.data payload),
      .collect 1 (.ofNanos 5), .pursue 1, .quit 1, .pursue 1, .serve 1 2, .serve 1 0, .take 0, .take 2]
  have hruns : (Moment.replay actions [] (Client.empty settings)).map (fun x =>
      ((x.2.callers.get? 0).bind Caller.result?, (x.2.callers.get? 1).bind Caller.result?,
        (x.2.callers.get? 2).bind Caller.result?)) =
      some (some (.ok (.code [1])), some (.error .canceled), some (.ok (.code [1]))) := by
    decide +kernel
  obtain ⟨⟨past, c⟩, hreplay, hresults⟩ := Option.map_eq_some_iff.mp hruns
  have hrun : Run settings past c := Run.start.replay hreplay
  exact ⟨past, c, hrun, hresults, outcome_shared hrun⟩

end Run

end LightClient
