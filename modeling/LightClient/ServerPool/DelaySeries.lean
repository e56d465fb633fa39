/-
Module: LightClient.ServerPool.DelaySeries
Purpose: What the server pool asks of the series of growing delays by which it leaves an address
  alone. The series belongs to a library, so that only its operations are named here.
Main exports: DelaySeries
-/

namespace LightClient

/-- Series of growing delays. -/
class DelaySeries where
  /-- A series that some delays may have been taken from. -/
  State : Type
  /-- A series that begins with `first` nanoseconds, grows by `factor` up to `last` nanoseconds, and
  has so many delays. -/
  build (factor : Float32) (first last : Nat) (times : UInt64) : State
  /-- The next delay in nanoseconds, if there is one more, and the series without it. -/
  next : State → Option Nat × State

end LightClient
