/-
Module: LightClient.Decimal.FloatOrder
Purpose: A total order on floating-point numbers, and durations in seconds and in nanoseconds.
Main exports: Decimal.orderKey, Decimal.nanosOfSeconds, Decimal.secondsOfNanos,
  Decimal.scaleNanos
-/
import LightClient.Decimal.Shortest

namespace LightClient

namespace Decimal

/-- The place of a number in the total order of bit patterns: negative numbers from the largest
magnitude down, then negative zero, zero, and positive numbers. -/
def orderKey (x : Float) : Int :=
  let bits := x.toBits.toNat
  let half := Nat.pow 2 63
  if bits < half then (bits : Int) else (half : Int) - 1 - (bits : Int)

/-- The whole number nearest to a quotient; a half goes to the even neighbour. -/
def nearestWhole (num den : Nat) : Nat :=
  let low := num / den
  let twice := 2 * (num % den)
  if twice < den then low
  else if twice = den then low + low % 2
  else low + 1

/-- The nanoseconds nearest to a number of seconds; none if the number has no size. -/
def Shape.nanos : Shape → Nat
  | .finite b =>
    nearestWhole (b.mantissa * Nat.pow 2 b.exponent.toNat * 1000000000)
      (Nat.pow 2 (-b.exponent).toNat)
  | _ => 0

/-- A duration in nanoseconds, nearest to the given seconds. -/
def nanosOfSeconds (seconds : Float) : Nat :=
  if seconds < 0.0 then 0 else (shape seconds.toBits).nanos

/-- The seconds of a duration: whole seconds and the rest are rounded one by one. -/
def secondsOfNanos (nanos : Nat) : Float :=
  Float.ofNat (nanos / 1000000000) + Float.ofNat (nanos % 1000000000) / 1000000000.0

/-- The seconds of a duration in single precision: whole seconds and the rest are rounded one by
one. -/
def singleSecondsOfNanos (nanos : Nat) : Float32 :=
  Float32.ofNat (nanos / 1000000000) + Float32.ofNat (nanos % 1000000000) / 1000000000.0

/-- A multiple of a duration in nanoseconds, as exactly as single precision tells. -/
def scaleNanos (factor : Float32) (nanos : Nat) : Nat :=
  (singleShape (factor * singleSecondsOfNanos nanos).toBits).nanos

end Decimal

end LightClient
