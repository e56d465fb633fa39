/-
Module: LightClient.Proofs.Retrieval.Runs
Purpose: The runs of the retrieval core, with everything that happened in them.
Main exports: Moment, Run, Run.keeps, Run.cut, Moment.replay, Run.replay
-/
import LightClient.Proofs.Retrieval.Steps

namespace LightClient

open Client (Action Effect)

variable [ItemCache] [DelaySeries]

/-- One step of a run: the state in which it was taken, what happened, and what was seen of it. -/
structure Moment where
  before : Client
  action : Action
  effects : List Effect

/-- The runs of a client: what has happened so far, the last step first, and the state now. -/
inductive Run (s : ClientSettings) : List Moment → Client → Prop where
  | start : Run s [] (Client.empty s)
  | step {past : List Moment} {c c' : Client} {a : Action} {effects : List Effect}
      (run : Run s past c) (step : c.step? a = some (c', effects)) :
      Run s (⟨c, a, effects⟩ :: past) c'

namespace Run

variable {s : ClientSettings}

/-- What holds at the start and is kept by every rule holds in every run. -/
theorem keeps {P : List Moment → Client → Prop} (start : P [] (Client.empty s))
    (step : ∀ {past : List Moment} {c c' : Client} {a : Action} {effects : List Effect},
      P past c → c.Step a c' effects → P (⟨c, a, effects⟩ :: past) c')
    {past : List Moment} {c : Client} (run : Run s past c) : P past c := by
  induction run with
  | start => exact start
  | step _ hstep ih => exact step ih (Client.step_of_step? hstep)

/-- Every step of a run was taken in a state that the steps before it had led to. -/
theorem cut {later earlier : List Moment} {m : Moment} {c : Client}
    (run : Run s (later ++ m :: earlier) c) :
    Run s earlier m.before ∧
      ∃ d, m.before.step? m.action = some (d, m.effects) ∧ Run s (m :: earlier) d := by
  induction later generalizing c with
  | nil =>
    cases run with
    | step run hstep => exact ⟨run, c, hstep, run.step hstep⟩
  | cons _ later ih =>
    cases run with
    | step run _ => exact ih run

/-- The state before any moment of a run was reached by a run. -/
theorem before {past : List Moment} {m : Moment} {c : Client} (run : Run s past c)
    (hm : m ∈ past) : ∃ earlier, Run s earlier m.before := by
  obtain ⟨later, earlier, rfl⟩ := List.append_of_mem hm
  exact ⟨earlier, run.cut.1⟩

end Run

/-- Takes the steps one after the other; none if one of them cannot be taken. -/
def Moment.replay : List Action → List Moment → Client → Option (List Moment × Client)
  | [], past, c => some (past, c)
  | a :: rest, past, c =>
    (c.step? a).bind fun x => Moment.replay rest (⟨c, a, x.2⟩ :: past) x.1

/-- Steps that can be taken one after the other make a run longer. -/
theorem Run.replay {s : ClientSettings} {actions : List Action} {past past' : List Moment}
    {c c' : Client} (run : Run s past c)
    (h : Moment.replay actions past c = some (past', c')) : Run s past' c' := by
  induction actions generalizing past c with
  | nil =>
    cases h
    exact run
  | cons a rest ih =>
    obtain ⟨⟨d, effects⟩, hstep, hrest⟩ := Option.bind_eq_some_iff.mp h
    exact ih (run.step hstep) hrest

end LightClient
