/-
Module: LightClient.Proofs.ServerPool.Delays
Purpose: What is relied on of a series of delays that grows by two: each delay is twice as long as
  the one before it, up to the longest one, and the series ends after as many as it is to have.
Main exports: DelaySeries.skip, DelaySeries.Doubling, ExactDelays, ExactDelays.doubling
-/
import Mathlib.Algebra.Group.Nat.Defs
import LightClient.ServerPool.DelaySeries

namespace LightClient

namespace DelaySeries

/-- A series without its first delays. -/
def skip [DelaySeries] (series : State) : Nat → State
  | 0 => series
  | i + 1 => (next (skip series i)).2

/-- A series that grows by two doubles its delays exactly, up to the longest one. -/
class Doubling [DelaySeries] : Prop where
  delay {first last : Nat} {times : UInt64} {i : Nat} (order : first ≤ last)
    (more : i < times.toNat) :
    (next (skip (build 2.0 first last times) i)).1 = some (min (first * 2 ^ i) last)
  /-- After the last delay there is none, however often it is asked for. -/
  none {first last : Nat} {times : UInt64} {i : Nat} (order : first ≤ last)
    (ended : times.toNat ≤ i) : (next (skip (build 2.0 first last times) i)).1 = none

end DelaySeries

/-! ### A series that doubles -/

/-- A series whose delays are not rounded. -/
structure ExactDelays where
  first : Nat
  last : Nat
  times : Nat
  /-- How many delays were taken. -/
  taken : Nat

namespace ExactDelays

def next (d : ExactDelays) : Option Nat × ExactDelays :=
  if d.taken < d.times then
    (some (min (d.first * 2 ^ d.taken) d.last), { d with taken := d.taken + 1 })
  else (none, d)

/-- Series that double, whatever their factor is said to be. -/
local instance series : DelaySeries where
  State := ExactDelays
  build _ first last times := ⟨first, last, times.toNat, 0⟩
  next := next

/-- Each call yields the delay whose turn it is, as long as one is left. -/
theorem next_eq (first last times i : Nat) :
    next ⟨first, last, times, min i times⟩ =
      (if i < times then some (min (first * 2 ^ i) last) else none,
        ⟨first, last, times, min (i + 1) times⟩) := by
  unfold next
  by_cases hmore : i < times
  · have hplace : min i times = i := by omega
    have hafter : min (i + 1) times = i + 1 := by omega
    rw [hplace, hafter, if_pos hmore, if_pos hmore]
  · have hplace : min i times = times := by omega
    have hafter : min (i + 1) times = times := by omega
    rw [hplace, hafter, if_neg (Nat.lt_irrefl times), if_neg hmore]

/-- The series counts the delays that are taken, up to the number that it has. -/
theorem skip_eq (first last times i : Nat) :
    DelaySeries.skip (⟨first, last, times, 0⟩ : ExactDelays) i =
      (⟨first, last, times, min i times⟩ : ExactDelays) := by
  induction i with
  | zero => simp [DelaySeries.skip]
  | succ i ih =>
    rw [DelaySeries.skip, ih]
    exact congrArg Prod.snd (next_eq first last times i)

theorem fst_next (first last : Nat) (times : UInt64) (i : Nat) :
    (DelaySeries.next (DelaySeries.skip (DelaySeries.build 2.0 first last times) i)).1 =
      if i < times.toNat then some (min (first * 2 ^ i) last) else none :=
  (congrArg (fun d => (DelaySeries.next d).1) (skip_eq first last times.toNat i)).trans
    (congrArg Prod.fst (next_eq first last times.toNat i))

/-- The exact series doubles from the first delay up to the last one. -/
theorem doubling : DelaySeries.Doubling where
  delay _ more := (fst_next _ _ _ _).trans (if_pos more)
  none _ ended := (fst_next _ _ _ _).trans (if_neg (Nat.not_lt.mpr ended))

end ExactDelays

end LightClient
