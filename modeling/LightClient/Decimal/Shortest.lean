/-
Module: LightClient.Decimal.Shortest
Purpose: The fewest decimal digits that determine a binary floating-point number, and their
  positional text.
Main exports: Decimal.Tie, Decimal.Binary.shortest, Decimal.positional
-/

namespace LightClient

namespace Decimal

/-- A positive binary floating-point number: `mantissa * 2 ^ exponent`, and whether the next smaller
number is only half as far away as the next larger one. -/
structure Binary where
  mantissa : Nat
  exponent : Int
  narrowBelow : Bool
  deriving Repr, DecidableEq

/-- What a floating-point number is. -/
inductive Shape where
  | nan
  | infinite
  | zero
  | finite (b : Binary)
  deriving Repr, DecidableEq

/-- Takes a bit pattern with fields of the given widths apart, the sign aside. -/
def shapeOf (fractionBits exponentBits bits : Nat) : Shape :=
  let fraction := bits % Nat.pow 2 fractionBits
  let exponent := bits / Nat.pow 2 fractionBits % Nat.pow 2 exponentBits
  let least : Int := 2 - (Nat.pow 2 (exponentBits - 1) : Nat) - (fractionBits : Nat)
  if exponent = Nat.pow 2 exponentBits - 1 then
    if fraction = 0 then .infinite else .nan
  else if exponent = 0 then
    if fraction = 0 then .zero else .finite ⟨fraction, least, false⟩
  else
    .finite ⟨fraction + Nat.pow 2 fractionBits, least + ((exponent : Int) - 1),
      fraction == 0 && exponent != 1⟩

/-- Takes the bit pattern of a number apart, its sign aside. -/
def shape (bits : UInt64) : Shape :=
  shapeOf 52 11 bits.toNat

/-- Takes the bit pattern of a number in single precision apart, its sign aside. -/
def singleShape (bits : UInt32) : Shape :=
  shapeOf 23 8 bits.toNat

/-- A decimal number: `digits * 10 ^ exponent`. -/
structure Digits where
  digits : Nat
  exponent : Int
  deriving Repr, DecidableEq

/-- Which of two equally near decimal numbers is taken. -/
inductive Tie where
  /-- The larger one. -/
  | up
  /-- The one whose last digit is even. -/
  | even
  deriving Repr, DecidableEq

/-- Decides between two equally near decimal numbers with the same last place, the smaller one
first. -/
def Tie.pick : Tie → Digits → Digits → Digits
  | .up, _, e => e
  | .even, d, e => if d.digits % 2 = 0 then d else e

namespace Binary

/-- Four times the number, as a quotient. -/
def fourfold (b : Binary) : Nat × Nat :=
  (4 * b.mantissa * Nat.pow 2 b.exponent.toNat, Nat.pow 2 (-b.exponent).toNat)

/-- Four times the distance to the ends of the range of reals that are nearest to the number,
downwards and upwards, over the denominator of `fourfold`. -/
def reach (b : Binary) : Nat × Nat :=
  let unit := Nat.pow 2 b.exponent.toNat
  (if b.narrowBelow then unit else 2 * unit, 2 * unit)

/-- The distance between four times the number and four times a decimal number, and whether the
decimal number is the larger one. The distance is over the product of the denominator of `fourfold`
and `10 ^ (-exponent)`. -/
def distance (b : Binary) (d : Digits) : Nat × Bool :=
  let (num, den) := b.fourfold
  let x := num * Nat.pow 10 (-d.exponent).toNat
  let y := 4 * d.digits * Nat.pow 10 d.exponent.toNat * den
  if x ≤ y then (y - x, true) else (x - y, false)

/-- The decimal number reads back as the binary one. A number with an even mantissa also owns the
ends of its range. -/
def reads (b : Binary) (d : Digits) : Bool :=
  let (gap, above) := b.distance d
  let (down, up) := b.reach
  let room := (if above then up else down) * Nat.pow 10 (-d.exponent).toNat
  gap < room || (gap == room && b.mantissa % 2 == 0)

/-- The decimal exponent of the first digit of the number. -/
def magnitude (b : Binary) : Int :=
  let (num, den) := b.fourfold
  let whole := num / (4 * den)
  if 0 < whole then
    ((Nat.toDigits 10 whole).length : Int) - 1
  else
    let steps : Nat := ((List.range 400).find? fun t => 4 * den ≤ num * Nat.pow 10 (t + 1)).getD 0
    Int.negSucc steps

/-- The two neighbours of the number among the decimal numbers with the given last place. -/
def neighbours (b : Binary) (place : Int) : List Digits :=
  let (num, den) := b.fourfold
  let low := num * Nat.pow 10 (-place).toNat / (4 * den * Nat.pow 10 place.toNat)
  [⟨low, place⟩, ⟨low + 1, place⟩]

/-- Of the neighbours that read back, the nearer one. -/
def nearest (b : Binary) (tie : Tie) (place : Int) : Option Digits :=
  match (b.neighbours place).filter b.reads with
  | [d, e] =>
    let below := (b.distance d).1
    let above := (b.distance e).1
    if below < above then some d else if above < below then some e else some (tie.pick d e)
  | [d] => some d
  | _ => none

/-- The shortest decimal number that reads back. The first place tried is the one before the first
digit, where a number just below a power of ten has its neighbour; seventeen digits always read
back. -/
def shortest (b : Binary) (tie : Tie) : Digits :=
  let start := b.magnitude + 1
  ((List.range 18).findSome? fun (n : Nat) => b.nearest tie (start - (n : Int))).getD ⟨0, 0⟩

end Binary

/-- The text of a decimal number with all its places and no exponent. -/
def Digits.text (d : Digits) : String :=
  let digits := Nat.toDigits 10 d.digits
  if 0 ≤ d.exponent then
    String.ofList (digits ++ List.replicate d.exponent.toNat '0')
  else
    let places := (-d.exponent).toNat
    let padded := List.replicate (places + 1 - digits.length) '0' ++ digits
    let whole := padded.length - places
    String.ofList (padded.take whole ++ '.' :: padded.drop whole)

/-- The shortest positional text that reads back as the number, with the sign of a zero. A tie
goes up. -/
def positional (x : Float) : String :=
  let bits := x.toBits
  let sign := if Nat.pow 2 63 ≤ bits.toNat then "-" else ""
  match shape bits with
  | .nan => "NaN"
  | .infinite => sign ++ "inf"
  | .zero => sign ++ "0"
  | .finite b => sign ++ (b.shortest .up).text

end Decimal

end LightClient
