/-
Module: LightClient.Bytes
Purpose: Byte strings, big-endian numbers and hexadecimal text.
Main exports: Bytes, Bytes.toHex, Bytes.ofHex?, Bytes.bigEndian, Bytes.ofBigEndian
-/

namespace LightClient

/-- A byte string: a key, a payload, an encoded message. -/
abbrev Bytes := List UInt8

namespace Bytes

/-- The lowercase hexadecimal digit of a number below 16. -/
def hexDigit (n : Nat) : Char :=
  if n < 10 then Char.ofNat (48 + n) else Char.ofNat (87 + n)

/-- The two hexadecimal digits of one byte, high nibble first. -/
def hexPair (b : UInt8) : List Char :=
  [hexDigit (b.toNat / 16), hexDigit (b.toNat % 16)]

/-- Lowercase hexadecimal text, two digits a byte. -/
def toHex (bs : Bytes) : String :=
  String.ofList (bs.flatMap hexPair)

/-- The value of a hexadecimal digit. -/
def hexValue? (c : Char) : Option Nat :=
  if c.isDigit then some (c.toNat - 48)
  else if 'a' ≤ c ∧ c ≤ 'f' then some (c.toNat - 87)
  else if 'A' ≤ c ∧ c ≤ 'F' then some (c.toNat - 55)
  else none

/-- Reads pairs of hexadecimal digits. -/
def ofHexDigits? : List Char → Option Bytes
  | [] => some []
  | [_] => none
  | a :: b :: rest => do
    let high ← hexValue? a
    let low ← hexValue? b
    let bytes ← ofHexDigits? rest
    some (UInt8.ofNat (16 * high + low) :: bytes)

/-- Reads hexadecimal text. -/
def ofHex? (s : String) : Option Bytes :=
  ofHexDigits? s.toList

/-- The last `width` base-256 digits of `n`, most significant first. -/
def bigEndian : (width : Nat) → (n : Nat) → Bytes
  | 0, _ => []
  | width + 1, n => UInt8.ofNat (n / Nat.pow 256 width) :: bigEndian width n

/-- The number whose base-256 digits are the given bytes, most significant first. -/
def ofBigEndian (bs : Bytes) : Nat :=
  bs.foldl (fun n b => 256 * n + b.toNat) 0

/-- The bytes of a text in UTF-8. -/
def ofText (s : String) : Bytes :=
  s.toUTF8.toList

/-- A number is written in as many bytes as it is given. -/
@[simp] theorem length_bigEndian (width n : Nat) : (bigEndian width n).length = width := by
  induction width with
  | zero => rfl
  | succ width ih => simp [bigEndian, ih]

end Bytes

end LightClient
