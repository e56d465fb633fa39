/-
Module: LightClient.Proofs.Wire.Varint
Purpose: A varint is read back from its bytes, whatever follows them.
Main exports: Varint.decode?_encode, Varint.encode_append_inj, Varint.decode?_length
-/
import Mathlib.Tactic.Ring
import LightClient.Wire.Varint

namespace LightClient

namespace Varint

/-- A byte holds every number below 256. -/
theorem toNat_byte {n : Nat} (hn : n < 256) : (UInt8.ofNat n).toNat = n :=
  UInt8.toNat_ofNat_of_lt' hn

/-- A byte is below another one if its number is. -/
theorem byte_lt_iff {n m : Nat} (hn : n < 256) (hm : m < 256) :
    UInt8.ofNat n < UInt8.ofNat m ↔ n < m := by
  rw [UInt8.lt_iff_toNat_lt, toNat_byte hn, toNat_byte hm]

/-- Groups are read back on top of any accumulator. The last group allowed holds one bit, which
is why the number stays below twice a power of 128. -/
theorem read_groups (limit : Nat) {n : Nat} (weight acc : Nat) (rest : Bytes)
    (hn : n < 2 * 128 ^ limit) :
    read (limit + 1) weight acc (groups (limit + 1) n ++ rest) = some (acc + weight * n, rest) := by
  induction limit generalizing n weight acc with
  | zero =>
    have hlow : n < 128 := by omega
    have hsmall : UInt8.ofNat n < 128 := (byte_lt_iff (m := 128) (by omega) (by omega)).mpr hlow
    have hbit : ¬ (2 : UInt8) ≤ UInt8.ofNat n := by
      rw [UInt8.not_le]
      exact (byte_lt_iff (m := 2) (by omega) (by omega)).mpr (by omega)
    simp [groups, read, hlow, hsmall, hbit, toNat_byte (show n < 256 by omega)]
  | succ limit ih =>
    rw [groups]
    by_cases hlow : n < 128
    · have hsmall : UInt8.ofNat n < 128 := (byte_lt_iff (m := 128) (by omega) (by omega)).mpr hlow
      simp [hlow, read, hsmall, toNat_byte (show n < 256 by omega)]
    · have hmarked : ¬ UInt8.ofNat (n % 128 + 128) < 128 := by
        rw [show (128 : UInt8) = UInt8.ofNat 128 from rfl, byte_lt_iff (by omega) (by omega)]
        omega
      have hquot : n / 128 < 2 * 128 ^ limit := by
        rw [Nat.pow_succ] at hn
        omega
      have hsum : acc + weight * (n % 128) + 128 * weight * (n / 128) = acc + weight * n := by
        conv_rhs => rw [← Nat.mod_add_div n 128]
        ring
      rw [if_neg hlow, List.cons_append, read, if_neg hmarked, ih _ _ hquot,
        toNat_byte (by omega), Nat.add_sub_cancel, hsum]

/-- A word is read back from its bytes. -/
theorem decode?_encode (v : UInt64) (rest : Bytes) :
    decode? (encode v ++ rest) = some (v, rest) := by
  have hv : v.toNat < 2 * 128 ^ 9 := v.toNat_lt
  simp [decode?, encode, read_groups 9 1 0 rest hv]

/-- A word ends where its bytes say, so that words and what follows them are told apart. -/
theorem encode_append_inj {v w : UInt64} {r s : Bytes} (h : encode v ++ r = encode w ++ s) :
    v = w ∧ r = s := by
  have hread := congrArg decode? h
  rw [decode?_encode, decode?_encode, Option.some.injEq, Prod.mk.injEq] at hread
  exact hread

/-- The bytes behind a number are fewer. -/
theorem read_length {limit weight acc : Nat} {bs rest : Bytes} {n : Nat}
    (h : read limit weight acc bs = some (n, rest)) : rest.length < bs.length := by
  induction bs generalizing limit weight acc with
  | nil => cases limit <;> simp [read] at h
  | cons b bs ih =>
    cases limit with
    | zero => simp [read] at h
    | succ limit =>
      rw [read] at h
      split at h
      · split at h
        · cases h
        · cases h
          simp
      · have hlt := ih h
        simp only [List.length_cons]
        omega

/-- The bytes behind a word are fewer. -/
theorem decode?_length {bs rest : Bytes} {v : UInt64} (h : decode? bs = some (v, rest)) :
    rest.length < bs.length := by
  unfold decode? at h
  obtain ⟨⟨n, rest'⟩, hread, heq⟩ := Option.map_eq_some_iff.mp h
  cases heq
  exact read_length hread

/-- A number takes at least one byte. -/
theorem encode_ne_nil (v : UInt64) : encode v ≠ [] := by
  unfold encode
  rw [groups]
  split <;> exact List.cons_ne_nil _ _

end Varint

end LightClient
