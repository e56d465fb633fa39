/-
Module: LightClient.Proofs.Retrieval.SingleFlight
Purpose: No request is pursued twice at a time, and none that is answered from the store: a key has
  a flight in the table or an item in the store, but never both.
Main exports: Client.StoreStep, Client.Disjoint, Client.FlightsSingle, Run.disjoint, Run.peek_kept,
  Run.single_flight
-/
import LightClient.Proofs.ItemStore
import LightClient.Proofs.Retrieval.History
import LightClient.Proofs.Simulation.Libraries

namespace LightClient

open Client (Action Effect)

section

variable [ItemCache] [DelaySeries]

namespace Client

/-- What one step makes of the store. -/
inductive StoreStep (c : Client) : Client → Prop where
  | rest {c' : Client} (same : ∀ key, c'.store.peek key = c.store.peek key) : StoreStep c c'
  /-- A flight lands with an item. -/
  | put {key : RequestKey} {f : Flight} {item : Item} {c' : Client}
      (flight : c.flights.get? key = some f) (gone : c'.flights.get? key = none)
      (put : c'.store = c.store.put key item) : StoreStep c c'

/-- A key has a flight in the table or an item in the store, but not both. -/
def Disjoint (c : Client) : Prop :=
  c.flights.All fun key _ => c.store.peek key = none

/-- Every pursuit of the key was there before. -/
def NoneBegun (c c' : Client) (key : RequestKey) : Prop :=
  ∀ id p', c'.pursuits.get? id = some p' → p'.key = key → ∃ p, c.pursuits.get? id = some p

variable {c c' : Client} {n : Nat} {x : Caller} {p p' : Pursuit} {a : Action}
  {effects : List Effect} {key : RequestKey}

/-- Two pursuits at work for one key are the same one. -/
theorem Attended.single (h : c.Attended) {m : Nat} (hp : c.pursuits.get? n = some p)
    (hp' : c.pursuits.get? m = some p') (hkey : p.key = p'.key) (haborted : p.aborted = false)
    (haborted' : p'.aborted = false) (hlanded : p.landed = false) (hlanded' : p'.landed = false) :
    n = m := by
  obtain ⟨f, hf⟩ := h.aloft n p hp haborted hlanded
  obtain ⟨f', hf'⟩ := h.aloft m p' hp' haborted' hlanded'
  obtain ⟨hget, hid⟩ := Flights.current?_eq_some.mp hf
  obtain ⟨hget', hid'⟩ := Flights.current?_eq_some.mp hf'
  rw [hkey, hget'] at hget
  cases hget
  exact hid.symm.trans hid'

variable [ItemCache.Lawful]

/-- Only a flight that lands puts an item into the store. -/
theorem Step.store (hstep : c.Step a c' effects) : c.StoreStep c' := by
  cases hstep with
  | notify hnotified =>
    rw [notify_eq hnotified]
    exact .rest fun _ => rfl
  | caller _ hstep =>
    cases hstep with
    | drop | quit =>
      rw [depart_eq]
      exact .rest fun _ => rfl
    | stored | begin => exact .rest fun _ => ItemStore.peek_get
    | _ => exact .rest fun _ => rfl
  | @pursuit n p _ _ _ _ hstep =>
    cases hstep with
    | @release _ _ next =>
      cases next <;> exact .rest fun _ => rfl
    | @land result =>
      have hlanding := c.landing_rule n p.key result
      generalize c.land n p.key result = d at hlanding ⊢
      cases hlanding with
      | late => exact .rest fun _ => rfl
      | @timely f hcurrent =>
        obtain ⟨hflight, _⟩ := Flights.current?_eq_some.mp hcurrent
        cases result with
        | ok item => exact .put hflight ((Table.get?_erase _ _ _).trans (if_pos rfl)) rfl
        | error => exact .rest fun _ => rfl
    | hand =>
      rw [hand_eq]
      exact .rest fun _ => rfl
    | _ => exact .rest fun _ => rfl
  | _ => exact .rest fun _ => rfl

/-- A step begins a flight only for a key without a stored item, and stores an item only when it
ends the flight of its key. -/
theorem Disjoint.step (h : c.Disjoint) (hattended : c.Attended) (hstep : c.Step a c' effects) :
    c'.Disjoint := by
  intro key f' hf'
  -- a flight of the key that is there afterwards was there before, or has begun
  have hmissing : c.store.peek key = none := by
    cases hattended.flightStep hstep key with
    | rest same =>
      rw [same] at hf'
      exact h key f' hf'
    | begin _ _ _ _ _ missing _ _ _ _ => exact ItemStore.fst_get.symm.trans missing
    | join _ _ _ _ flight _ _ => exact h key _ flight
    | leave _ _ _ flight _ _ => exact h key _ (Flights.current?_eq_some.mp flight).1
    | abort _ _ _ flight _ _ _ _ => exact h key _ (Flights.current?_eq_some.mp flight).1
    | land _ _ _ flight _ _ _ => exact h key _ (Flights.current?_eq_some.mp flight).1
  cases hstep.store with
  | rest same => exact (same key).trans hmissing
  | @put landed f item _ flight gone put =>
    rw [put, Option.eq_none_iff_forall_ne_some]
    intro found hfound
    rcases ItemStore.peek_put hfound with ⟨rfl, _⟩ | ⟨_, hfound⟩
    · rw [gone] at hf'
      cases hf'
    · rw [hmissing] at hfound
      cases hfound

/-- What is in the store of a state without a flight of the key is in it still, or was dropped. -/
theorem Step.peek_of_no_flight (hstep : c.Step a c' effects) (hnone : c.flights.get? key = none)
    {found : Item} (hfound : c'.store.peek key = some found) : c.store.peek key = some found := by
  cases hstep.store with
  | rest same => exact (same key).symm.trans hfound
  | put flight _ put =>
    rw [put] at hfound
    rcases ItemStore.peek_put hfound with ⟨rfl, _⟩ | ⟨_, hfound⟩
    · rw [hnone] at flight
      cases flight
    · exact hfound

/-- A pursuit begins only for a key that has neither a flight nor an item. -/
theorem Step.none_begun (hstep : c.Step a c' effects)
    (h : c.flights.get? key = none → c.store.peek key ≠ none) : c.NoneBegun c' key := by
  rintro id p' hp' rfl
  rcases hstep.pursuit_progress hp' with ⟨p, hp, _⟩ | ⟨_, _, r, _, _, _, _, noFlight, missing, rfl⟩
  · exact ⟨p, hp⟩
  · exact absurd (ItemStore.fst_get.symm.trans missing) (h noFlight)

/-- No flight of a key begins while its item is in the store. -/
theorem Attended.no_flight_of_stored (h : c.Attended) (hstep : c.Step a c' effects)
    (hnone : c.flights.get? key = none) (hstored : c.store.peek key ≠ none) :
    c'.flights.get? key = none := by
  have hcurrent : ∀ id f, c.flights.current? key id ≠ some f := by
    intro id f hf
    rw [(Flights.current?_eq_some.mp hf).1] at hnone
    cases hnone
  cases h.flightStep hstep key with
  | rest same => exact same.trans hnone
  | begin _ _ _ _ _ missing _ _ _ _ =>
    exact absurd (ItemStore.fst_get.symm.trans missing) hstored
  | join _ _ _ _ flight _ _ =>
    rw [hnone] at flight
    cases flight
  | leave _ _ _ flight _ _ => exact absurd flight (hcurrent _ _)
  | abort _ _ _ _ _ gone _ _ => exact gone
  | land _ _ _ _ gone _ _ => exact gone

/-- A caller that enters finds its answer in the store. -/
theorem enter_of_stored {r : Request} {item : Item} (hcaller : c.callers.get? n = some x)
    (hstage : x.stage = .bound r) (hwanted : x.canceled = false)
    (hnone : c.flights.get? r.key = none) (hstored : c.store.peek r.key = some item) :
    ∃ c', c.step? (.enter n) = some (c', []) ∧
      c'.callers.get? n = some { x with stage := .returned (.ok item) } := by
  have hstep : c.step? (.enter n) = (c.callers.get? n).bind fun x => c.callerStep? n x (.enter n) :=
    rfl
  have hget : c.store.get r.key = (some item, (c.store.get r.key).2) :=
    Prod.ext (ItemStore.fst_get.trans hstored) rfl
  have henter : c.enter n r =
      { c with store := (c.store.get r.key).2 }.place n (.returned (.ok item)) := by
    rw [enter, hnone]
    simp only
    rw [hget]
  refine ⟨c.enter n r, ?_, ?_⟩
  · rw [hstep, hcaller, Option.bind_some, callerStep?, hstage]
    simp only [hwanted, Bool.false_eq_true, if_false]
  · rw [henter, place, Table.get?_modify, if_pos rfl, hcaller, Option.map_some]

/-- What holds of flights and of the store in every state that can be reached. -/
structure FlightsSingle (past : List Moment) (c : Client) : Prop where
  /-- No key has both a flight and an item. -/
  disjoint : c.Disjoint
  /-- Of all pursuits of one key, one at most is at work. -/
  single : ∀ n m p p', c.pursuits.get? n = some p → c.pursuits.get? m = some p' → p.key = p'.key →
    p.aborted = false → p'.aborted = false → p.landed = false → p'.landed = false → n = m
  /-- While a key has a flight, no step begins another pursuit of it. -/
  pending : ∀ key f, c.flights.get? key = some f →
    ∀ a c' effects, c.step? a = some (c', effects) → c.NoneBegun c' key
  /-- The item with which a flight lands is in the store right afterwards. -/
  stored : ∀ m ∈ past, ∀ key f item, m.Lands key f (.ok item) →
    ∀ d, m.After d → d.store.peek key = some item
  /-- As long as the store has not dropped the item since, it holds this item, callers that enter
  return it, and no flight or pursuit of the key begins. -/
  kept : ∀ later m earlier key f item, past = later ++ m :: earlier → m.Lands key f (.ok item) →
    (∀ m' ∈ later, m'.before.store.peek key ≠ none) → c.store.peek key ≠ none →
      c.store.peek key = some item ∧
      (∀ n x r, c.callers.get? n = some x → x.stage = .bound r → r.key = key →
        x.canceled = false → ∃ c', c.step? (.enter n) = some (c', []) ∧
          c'.callers.get? n = some { x with stage := .returned (.ok item) }) ∧
      ∀ a c' effects, c.step? a = some (c', effects) →
        c'.flights.get? key = none ∧ c.NoneBegun c' key

end Client

namespace Run

variable {s : ClientSettings} {past : List Moment} {c : Client}

/-- A flight that lands with an item puts it into the store. -/
theorem store_of_lands {m : Moment} {key : RequestKey} {f : Flight} {item : Item} {d : Client}
    {earlier : List Moment} (run : Run s earlier m.before) (hlands : m.Lands key f (.ok item))
    (hafter : m.After d) : d.store = m.before.store.put key item := by
  obtain ⟨hflight, haction, p, hp, hstage⟩ := hlands
  obtain ⟨q, hq, hkey, _⟩ := run.attended.pursued key f hflight
  rw [hp] at hq
  cases hq
  have hstep : m.before.step? (.pursue f.id) =
      (m.before.pursuits.get? f.id).bind (m.before.pursue? f.id) := rfl
  rw [hp, Option.bind_some, Client.pursue?, hstage] at hstep
  rw [Moment.After, haction, hstep] at hafter
  obtain ⟨rfl, _⟩ := Prod.mk.inj (Option.some.inj hafter)
  have hcurrent := Flights.current?_eq_some.mpr ⟨hflight, rfl⟩
  rw [hkey, Client.land, hcurrent]
  rfl

variable [ItemCache.Lawful]

/-- No key ever has both a flight and an item. -/
theorem disjoint (run : Run s past c) : c.Disjoint := by
  induction run with
  | start => exact Table.All.empty
  | step run hstep ih => exact ih.step run.attended (Client.step_of_step? hstep)

/-- What a flight has put into the store is what the store holds for the key, until it drops it. -/
theorem peek_kept {later earlier : List Moment} {m : Moment} {key : RequestKey} {f : Flight}
    {item : Item} (run : Run s (later ++ m :: earlier) c) (hlands : m.Lands key f (.ok item))
    (hkept : ∀ m' ∈ later, m'.before.store.peek key ≠ none) (hheld : c.store.peek key ≠ none) :
    c.store.peek key = some item := by
  obtain ⟨found, hfound⟩ := Option.ne_none_iff_exists'.mp hheld
  induction later generalizing c found with
  | nil =>
    cases run with
    | step run hstep =>
      rw [store_of_lands run hlands hstep] at hfound ⊢
      rcases ItemStore.peek_put hfound with ⟨_, rfl⟩ | ⟨hne, _⟩
      · exact hfound
      · exact absurd rfl hne
  | cons m' later ih =>
    cases run with
    | @step _ c₀ _ a effects run hstep =>
      have hbefore : c₀.store.peek key ≠ none := hkept _ List.mem_cons_self
      obtain ⟨found₀, hfound₀⟩ := Option.ne_none_iff_exists'.mp hbefore
      have hitem := ih run (fun m' hm' => hkept m' (List.mem_cons_of_mem _ hm')) hbefore _ hfound₀
      have hnone : c₀.flights.get? key = none := by
        rw [Option.eq_none_iff_forall_ne_some]
        exact fun f hf => hbefore (run.disjoint key f hf)
      have hsame := (Client.step_of_step? hstep).peek_of_no_flight hnone hfound
      rw [hfound, ← hsame, hitem]

/-- In every run, a request is pursued once at a time, and not at all while the store holds its
answer. -/
theorem single_flight (run : Run s past c) : c.FlightsSingle past where
  disjoint := run.disjoint
  single _ _ _ _ hp hp' hkey haborted haborted' hlanded hlanded' :=
    run.attended.single hp hp' hkey haborted haborted' hlanded hlanded'
  pending key f hf a c' effects hstep := by
    apply (Client.step_of_step? hstep).none_begun
    intro hnone
    rw [hf] at hnone
    cases hnone
  stored m hm key f item hlands d hafter := by
    obtain ⟨earlier, hrun⟩ := run.before hm
    rw [store_of_lands hrun hlands hafter]
    exact ItemStore.peek_put_self
  kept := by
    rintro later m earlier key f item rfl hlands hkept hheld
    have hitem := run.peek_kept hlands hkept hheld
    have hnone : c.flights.get? key = none := by
      rw [Option.eq_none_iff_forall_ne_some]
      exact fun f hf => hheld (run.disjoint key f hf)
    refine ⟨hitem, ?_, fun a c' effects hstep => ⟨?_, ?_⟩⟩
    · rintro n x r hcaller hstage rfl hwanted
      exact Client.enter_of_stored hcaller hstage hwanted hnone hitem
    · exact run.attended.no_flight_of_stored (Client.step_of_step? hstep) hnone hheld
    · exact (Client.step_of_step? hstep).none_begun fun _ => hheld

end Run

end

namespace Run

/-- A code is fetched for one caller and returned from the store to the next one. -/
theorem single_flight_of_second_call :
    ItemCache.Lawful ∧ ∃ past c, Run ⟨.default, .default, .default, .default⟩ past c ∧
      (c.flights, c.nextFlight, (c.callers.get? 1).bind Caller.result?) =
        ([], 2, some (.ok (.code [1]))) ∧
      c.FlightsSingle past := by
  let settings : ClientSettings := ⟨.default, .default, .default, .default⟩
  let header : Header := ⟨.zero, 0, .zero, .zero, .zero, .zero, []⟩
  let query : Query := .code header (sha256 [1])
  let payload := Wire.Message.encode (⟨[1]⟩ : Wire.CodeMessage)
  let actions : List Action :=
    [.register ⟨⟨[7]⟩, none, 2, [.code], ⟨0, .zero⟩⟩, .call query, .bind 0, .enter 0, .pursue 1,
      .pursue 1, .pursue 1, .pursue 1, .pursue 1, .pursue 1, .accept 1,
      .receive ⟨[7]⟩ ⟨0⟩ .code (.data payload), .collect 1 (.ofNanos 5), .pursue 1, .pursue 1,
      .call query, .bind 1, .enter 1]
  have hruns : (Moment.replay actions [] (Client.empty settings)).map (fun x =>
      (x.2.flights, x.2.nextFlight, (x.2.callers.get? 1).bind Caller.result?)) =
      some ([], 2, some (.ok (.code [1]))) := by
    decide +kernel
  obtain ⟨⟨past, c⟩, hreplay, hresults⟩ := Option.map_eq_some_iff.mp hruns
  have hrun : Run settings past c := Run.start.replay hreplay
  exact ⟨inferInstance, past, c, hrun, hresults, single_flight hrun⟩

end Run

end LightClient
