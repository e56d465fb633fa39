/-
Module: LightClient.Text.Base64Url
Purpose: The URL-safe base-64 alphabet without padding, written and strictly read.
Main exports: Base64Url.encode, Base64Url.decode?
-/
import LightClient.Bytes

namespace LightClient

namespace Base64Url

/-- The digit of a number below 64. -/
def digit (n : Nat) : Char :=
  if n < 26 then Char.ofNat (65 + n)
  else if n < 52 then Char.ofNat (71 + n)
  else if n < 62 then Char.ofNat (n - 4)
  else if n = 62 then '-'
  else '_'

/-- The number that a character is the digit of. -/
def value? (c : Char) : Option Nat :=
  if c.isUpper then some (c.toNat - 65)
  else if c.isLower then some (c.toNat - 71)
  else if c.isDigit then some (c.toNat + 4)
  else if c = '-' then some 62
  else if c = '_' then some 63
  else none

/-- Groups of three bytes become four digits; one byte left over becomes two, two become three. -/
def digits : Bytes → List Char
  | b0 :: b1 :: b2 :: rest =>
    let n := 65536 * b0.toNat + 256 * b1.toNat + b2.toNat
    digit (n / 262144) :: digit (n / 4096 % 64) :: digit (n / 64 % 64) :: digit (n % 64)
      :: digits rest
  | [b0, b1] =>
    let n := 256 * b0.toNat + b1.toNat
    [digit (n / 1024), digit (n / 16 % 64), digit (n % 16 * 4)]
  | [b0] => [digit (b0.toNat / 4), digit (b0.toNat % 4 * 16)]
  | [] => []

/-- Reads digit values back; the bits that fill up the last digit have to be zero. -/
def bytes? : List Nat → Option Bytes
  | v0 :: v1 :: v2 :: v3 :: rest =>
    (bytes? rest).map fun tail =>
      UInt8.ofNat (4 * v0 + v1 / 16) :: UInt8.ofNat (v1 % 16 * 16 + v2 / 4)
        :: UInt8.ofNat (v2 % 4 * 64 + v3) :: tail
  | [v0, v1, v2] =>
    if v2 % 4 = 0 then
      some [UInt8.ofNat (4 * v0 + v1 / 16), UInt8.ofNat (v1 % 16 * 16 + v2 / 4)]
    else none
  | [v0, v1] => if v1 % 16 = 0 then some [UInt8.ofNat (4 * v0 + v1 / 16)] else none
  | [_] => none
  | [] => some []

def encode (bs : Bytes) : String :=
  String.ofList (digits bs)

/-- The byte string of a text; no padding, no foreign character and no stray bit is accepted. -/
def decode? (s : String) : Option Bytes :=
  (s.toList.mapM value?).bind bytes?

end Base64Url

end LightClient
