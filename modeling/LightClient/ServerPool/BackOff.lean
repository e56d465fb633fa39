/-
Module: LightClient.ServerPool.BackOff
Purpose: The growing intervals for which an address is left alone.
Main exports: BackOff, BackOff.begin, BackOff.again, BackOff.isActive, BackOff.milliseconds
-/
import LightClient.ServerPool.DelaySeries
import LightClient.Settings.Modules

namespace LightClient

/-- A series of intervals for one address. Times are clock readings in nanoseconds. -/
structure BackOff [DelaySeries] where
  /-- The intervals that are left. -/
  series : DelaySeries.State
  /-- The interval that runs, in nanoseconds. -/
  interval : Nat
  /-- When the interval began. -/
  since : Nat

namespace BackOff

variable [DelaySeries]

/-- The nanoseconds of an interval in the settings. -/
def nanos (ms : UInt32) : Nat :=
  1000000 * ms.toNat

/-- The series of intervals that the settings ask for: each one is twice as long as the one before
it, up to the longest one. -/
def intervals (s : PoolSettings) : DelaySeries.State :=
  DelaySeries.build 2.0 (nanos s.firstBackOffMs) (nanos s.lastBackOffMs) s.backOffIntervals

/-- The first interval of a series. It runs even if the series has none. -/
def begin (s : PoolSettings) (now : Nat) : BackOff :=
  let (delay, series) := DelaySeries.next (intervals s)
  ⟨series, delay.getD (nanos s.firstBackOffMs), now⟩

/-- The next interval of a series; the last one repeats. -/
def again (now : Nat) (b : BackOff) : BackOff :=
  let (delay, series) := DelaySeries.next b.series
  ⟨series, delay.getD b.interval, now⟩

/-- The interval in milliseconds, to the nearest. -/
def milliseconds (b : BackOff) : Nat :=
  (b.interval + 500000) / 1000000

/-- The interval has not run off yet. -/
def isActive (now : Nat) (b : BackOff) : Bool :=
  now - b.since < b.interval

end BackOff

end LightClient
