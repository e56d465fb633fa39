/-
Module: LightClient.Wire.Varint
Purpose: Numbers in groups of seven bits, least significant group first.
Main exports: Varint.encode, Varint.decode?
-/
import LightClient.Bytes

namespace LightClient

namespace Varint

/-- At most `limit` groups of `n`; the high bit marks every group but the last. -/
def groups : (limit : Nat) → (n : Nat) → Bytes
  | 0, _ => []
  | limit + 1, n =>
    if n < 128 then [UInt8.ofNat n]
    else UInt8.ofNat (n % 128 + 128) :: groups limit (n / 128)

/-- A word takes at most ten groups. -/
def encode (v : UInt64) : Bytes :=
  groups 10 v.toNat

/-- Reads at most `limit` groups on top of `acc`, the first of weight `weight`.
The last group allowed has room for one bit only. -/
def read : (limit : Nat) → (weight acc : Nat) → Bytes → Option (Nat × Bytes)
  | 0, _, _, _ => none
  | _ + 1, _, _, [] => none
  | limit + 1, weight, acc, b :: rest =>
    if b < 128 then
      if limit = 0 ∧ 2 ≤ b then none else some (acc + weight * b.toNat, rest)
    else read limit (128 * weight) (acc + weight * (b.toNat - 128)) rest

/-- Reads one number and returns the bytes behind it. -/
def decode? (bs : Bytes) : Option (UInt64 × Bytes) :=
  (read 10 1 0 bs).map fun r => (UInt64.ofNat r.1, r.2)

end Varint

end LightClient
