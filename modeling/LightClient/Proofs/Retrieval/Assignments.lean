/-
Module: LightClient.Proofs.Retrieval.Assignments
Purpose: The places with peers that a flight has taken in a run, and the outcomes that it has
  reported: each place is reported once, when it is given back, and in the order of taking.
Main exports: Client.held?, taken, reported, Exchange, Client.Fate.exchange, Run.balanced
-/
import LightClient.Proofs.Retrieval.Fates

namespace LightClient

open Client (Action Effect)

variable [ItemCache] [DelaySeries]

/-- The place with a peer that a flight holds. -/
def Client.held? (c : Client) (n : Nat) : Option Assignment :=
  (c.pursuits.get? n).bind Pursuit.assignment?

/-- The peer to which an outcome is reported. -/
def Client.Effect.reported? : Effect → Option PeerId
  | .reported peer _ => some peer
  | _ => none

namespace Moment

/-- The place with a peer that a flight takes at a moment. -/
def taken? (n : Nat) (m : Moment) : Option Assignment :=
  match m.before.held? n with
  | some _ => none
  | none => (m.before.step? m.action).bind fun x => x.1.held? n

/-- The peers to which a flight reports an outcome at a moment. -/
def reported (n : Nat) (m : Moment) : List PeerId :=
  if m.action.flight? = some n then m.effects.filterMap Effect.reported? else []

end Moment

/-- The places with peers that a flight has taken, the last one first. -/
def taken (n : Nat) (past : List Moment) : List Assignment :=
  past.filterMap (Moment.taken? n)

/-- The peers to which a flight has reported an outcome, the last one first. -/
def reported (n : Nat) (past : List Moment) : List PeerId :=
  past.flatMap (Moment.reported n)

/-- What a step does to the place that a flight holds, and the peers to which it reports an
outcome. -/
inductive Exchange : Option Assignment → Option Assignment → List PeerId → Prop where
  | rest {o : Option Assignment} : Exchange o o []
  | take {held : Assignment} : Exchange none (some held) []
  | give {held : Assignment} : Exchange (some held) none [held.peer]

section

variable {c c' : Client} {n : Nat} {p : Pursuit} {a : Action} {effects : List Effect}

/-- A pursuit that goes on by itself reports nothing. -/
theorem Pursuit.Shift.reports_none {stage : Pursuit.Stage} (h : p.Shift c n a stage effects) :
    effects.filterMap Effect.reported? = [] := by
  cases h <;> rfl

/-- A change of the registry is passed on, and nothing else happens. -/
theorem Client.changed_of_mem {x : Registry × List Registry.Event} {e : Effect}
    (h : e ∈ (c.change x).2) : ∃ event size, e = .changed event size := by
  obtain ⟨event, _, heq⟩ := List.mem_map.mp h
  exact ⟨event, _, heq.symm⟩

/-- A report is seen from outside, and so are the changes that follow from it. -/
theorem Client.mem_report {peer : PeerId} {o : Outcome} {e : Effect}
    (h : e ∈ (c.report peer o).2) :
    e = .reported peer o ∨ ∃ event size, e = .changed event size := by
  rcases List.mem_cons.mp h with rfl | hchange
  · exact .inl rfl
  · exact .inr (changed_of_mem (c := c) hchange)

/-- A place that is given back is reported to its peer, once. -/
theorem Client.filterMap_report (c : Client) (peer : PeerId) (o : Outcome) :
    (c.report peer o).2.filterMap Effect.reported? = [peer] := by
  have hchanges : (c.change (c.registry.record peer o)).2.filterMap Effect.reported? = [] := by
    apply List.filterMap_eq_nil_iff.mpr
    intro e he
    obtain ⟨_, _, rfl⟩ := changed_of_mem he
    rfl
  exact congrArg (peer :: ·) hchanges

/-- A moment without a report among its effects reports nothing for any flight. -/
theorem Moment.reported_of_none (h : effects.filterMap Effect.reported? = []) :
    (⟨c, a, effects⟩ : Moment).reported n = [] := by
  unfold Moment.reported
  split
  · exact h
  · rfl

/-- A flight takes a place only when it holds none, and gives it back with one outcome. -/
theorem Client.Fate.exchange {o o' : Option Pursuit} (h : c.Fate n c' o a effects o')
    (hnew : n = c.nextFlight → o = none) :
    Exchange (o.bind Pursuit.assignment?) (o'.bind Pursuit.assignment?)
      ((⟨c, a, effects⟩ : Moment).reported n) := by
  cases h with
  | rest other =>
    rw [Moment.reported, if_neg other]
    exact .rest
  | begin new =>
    rw [hnew new]
    exact .rest
  | abort =>
    rw [Moment.reported_of_none rfl]
    exact .rest
  | shift shift =>
    rw [Moment.reported_of_none shift.reports_none, Option.bind_some, Option.bind_some,
      shift.assignment?]
    exact .rest
  | @assign p _ _ _ _ stage =>
    have hfree : p.assignment? = none := by rw [Pursuit.assignment?, stage]
    rw [Moment.reported_of_none rfl, Option.bind_some, hfree]
    exact .take
  | @register p held stage =>
    have hheld : p.assignment? = some held := by rw [Pursuit.assignment?, stage]
    rw [Moment.reported_of_none rfl, Option.bind_some, hheld]
    exact .rest
  | conclude conclusion =>
    rw [Moment.reported_of_none rfl, Option.bind_some, conclusion.assignment?]
    exact .rest
  | @release p _ held outcome next stage proceeds =>
    subst proceeds
    have hheld : p.assignment? = some held := by rw [Pursuit.assignment?, stage]
    have hfreed : (p.proceed next).bind Pursuit.assignment? = none := by cases next <;> rfl
    -- the only report among the effects is that of the peer whose place is given back
    have hreports : (⟨c, .pursue n, (c.report held.peer outcome).2⟩ : Moment).reported n =
        [held.peer] := (if_pos rfl).trans (c.filterMap_report held.peer outcome)
    rw [hreports, Option.bind_some, hheld, hfreed]
    exact .give
  | @land p _ _ stage =>
    have hfree : p.assignment? = none := by rw [Pursuit.assignment?, stage]
    rw [Moment.reported_of_none rfl, Option.bind_some, hfree]
    exact .rest
  | @hand p _ _ _ stage =>
    have hfree : p.assignment? = none := by rw [Pursuit.assignment?, stage]
    rw [Moment.reported_of_none rfl, Option.bind_some, hfree]
    exact .rest
  | gone _ free =>
    rw [Moment.reported_of_none rfl, Option.bind_some, free]
    exact .rest

/-- A flight takes a place where its pursuit tries the next of the peers that it has ranked. -/
theorem Client.Fate.takes {o o' : Option Pursuit} {held : Assignment}
    (h : c.Fate n c' o a effects o') (hfree : o.bind Pursuit.assignment? = none)
    (hheld : o'.bind Pursuit.assignment? = some held) :
    ∃ p seen rest, o = some p ∧ p.stage = .offering seen (held.peer :: rest) ∧
      o' = some (p.assign held) := by
  cases h with
  | assign stage =>
    cases hheld
    exact ⟨_, _, _, rfl, stage, rfl⟩
  | rest => cases hfree.symm.trans hheld
  | begin => cases hheld
  | abort => cases hfree.symm.trans hheld
  | shift shift => cases (shift.assignment?.trans hfree).symm.trans hheld
  | register stage =>
    rw [Option.bind_some, Pursuit.assignment?, stage] at hfree
    cases hfree
  | conclude conclusion => cases conclusion.assignment?.symm.trans hfree
  | @release _ _ _ _ next _ proceeds =>
    subst proceeds
    cases next <;> cases hheld
  | land => cases hheld
  | hand => cases hheld
  | gone => cases hheld

/-- A flight takes a place at a moment just when it holds one after it and held none before. -/
theorem Moment.taken?_of_step (hstep : c.step? a = some (c', effects)) (n : Nat) :
    (⟨c, a, effects⟩ : Moment).taken? n =
      match c.held? n with
      | some _ => none
      | none => c'.held? n := by
  simp only [Moment.taken?, hstep, Option.bind_some]

end

namespace Run

variable {s : ClientSettings} {past : List Moment} {c c' : Client} {n : Nat} {a : Action}
  {effects : List Effect}

/-- There is no pursuit with a number that has not been given yet. -/
theorem pursuit_eq_none (run : Run s past c) (hn : c.nextFlight ≤ n) :
    c.pursuits.get? n = none := by
  cases hpursuit : c.pursuits.get? n with
  | none => rfl
  | some p => exact absurd (run.attended.numbers n p hpursuit) (Nat.not_lt.mpr hn)

/-- Every step takes a place and reports one only as the flight holds it. -/
theorem exchange (run : Run s past c) (hstep : c.step? a = some (c', effects)) (n : Nat) :
    Exchange (c.held? n) (c'.held? n) ((⟨c, a, effects⟩ : Moment).reported n) :=
  ((Client.step_of_step? hstep).fate n).exchange
    fun hn => run.pursuit_eq_none (Nat.le_of_eq hn.symm)

/-- The places that a flight has taken are the one that it holds and those for which it has reported
an outcome. -/
theorem balanced (run : Run s past c) (n : Nat) :
    (taken n past).map Assignment.peer =
      ((c.held? n).map Assignment.peer).toList ++ reported n past := by
  induction run with
  | start => rfl
  | @step past c c' a effects run hstep ih =>
    have hexchange := run.exchange hstep n
    have htaken := Moment.taken?_of_step hstep n
    rw [taken, List.filterMap_cons, htaken, reported, List.flatMap_cons, ← taken, ← reported]
    generalize c.held? n = before at hexchange ih ⊢
    generalize c'.held? n = after at hexchange ⊢
    generalize Moment.reported n ⟨c, a, effects⟩ = reports at hexchange ⊢
    cases hexchange with
    | rest => cases before <;> exact ih
    | take => exact congrArg _ ih
    | give => exact ih

/-- A step gives a flight a place with the next of the ranked peers, or no place at all. -/
theorem taken_step (run : Run s past c) (hstep : c.step? a = some (c', effects)) (n : Nat) :
    (taken n (⟨c, a, effects⟩ :: past) = taken n past ∧
        (c'.held? n = c.held? n ∨ c'.held? n = none)) ∨
      ∃ p seen rest held, c.pursuits.get? n = some p ∧
        p.stage = .offering seen (held.peer :: rest) ∧
        c'.pursuits.get? n = some (p.assign held) ∧
        taken n (⟨c, a, effects⟩ :: past) = held :: taken n past := by
  have hexchange := run.exchange hstep n
  have htakes : ∀ held, c.held? n = none → c'.held? n = some held →
      ∃ p seen rest, c.pursuits.get? n = some p ∧ p.stage = .offering seen (held.peer :: rest) ∧
        c'.pursuits.get? n = some (p.assign held) :=
    fun _ => ((Client.step_of_step? hstep).fate n).takes
  rw [taken, List.filterMap_cons, Moment.taken?_of_step hstep, ← taken]
  generalize c.held? n = before at hexchange htakes ⊢
  generalize c'.held? n = after at hexchange htakes ⊢
  generalize Moment.reported n ⟨c, a, effects⟩ = reports at hexchange
  cases hexchange with
  | rest =>
    left
    cases before <;> exact ⟨rfl, .inl rfl⟩
  | @take held =>
    obtain ⟨p, seen, rest, hpursuit, hstage, hassigned⟩ := htakes held rfl rfl
    exact .inr ⟨p, seen, rest, held, hpursuit, hstage, hassigned, rfl⟩
  | give => exact .inl ⟨rfl, .inr rfl⟩

end Run

end LightClient
