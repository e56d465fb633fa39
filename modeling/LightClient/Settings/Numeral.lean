/-
Module: LightClient.Settings.Numeral
Purpose: Numbers as they are written in settings, and what they stand for.
Main exports: Settings.Numeral, Settings.Numeral.integer?, Settings.Numeral.real?,
  Settings.Numeral.ofReal?, Settings.Numeral.text
-/
import LightClient.Decimal.Shortest

namespace LightClient

namespace Settings

/-- A number as it is written. -/
structure Numeral where
  negative : Bool
  /-- The digits before the point. -/
  whole : List Nat
  /-- The digits behind the point; there are none if there is no point. -/
  fraction : List Nat
  exponent : Option Int
  deriving Repr, DecidableEq

namespace Numeral

/-- Appends digits to a number for as long as it fits 64 bits. The digits from the first one on
that does not fit are left over. -/
def gather : Nat → List Nat → Nat × List Nat
  | n, [] => (n, [])
  | n, d :: rest => if 10 * n + d < UInt64.size then gather (10 * n + d) rest else (n, d :: rest)

/-- The digits of a numeral that count, and the power of ten they are scaled by. Digits before the
point that do not fit 64 bits only add to the scale, and digits behind it that do not fit are
dropped. -/
def scaled (x : Numeral) : Nat × Int :=
  let (n, left) := gather 0 x.whole
  let (m, dropped) := gather n x.fraction
  let places := x.fraction.length - dropped.length
  (m, x.exponent.getD 0 + (left.length : Int) - (places : Int))

/-- The power of ten nearest to `10 ^ n`. -/
def tenTo (n : Nat) : Float :=
  Float.ofScientific 1 false n

/-- Divides by a power of ten. Powers beyond the range of floating-point numbers are taken in
pieces. -/
def divideByTenTo (f : Float) (n : Nat) : Float :=
  if n ≤ 308 then f / tenTo n
  else if f == 0.0 then f
  else divideByTenTo (f / tenTo 308) (n - 308)
termination_by n

/-- The floating-point number of a numeral: the digits and the scaled number are rounded one after
the other, so that it can be next to the nearest one. There is none beyond the range. -/
def real? (x : Numeral) : Option Float :=
  let (digits, exponent) := x.scaled
  let f := Float.ofNat digits
  let magnitude? :=
    if exponent < 0 then some (divideByTenTo f exponent.natAbs)
    else if exponent ≤ 308 ∧ (f * tenTo exponent.natAbs).isFinite then
      some (f * tenTo exponent.natAbs)
    else if f == 0.0 then some f
    else none
  magnitude?.map fun f => if x.negative then -f else f

/-- The whole number of a numeral that has neither point nor exponent and fits 64 bits, signed or
not. Negative zero is none. -/
def integer? (x : Numeral) : Option Int :=
  if x.fraction.isEmpty && x.exponent.isNone then
    match gather 0 x.whole with
    | (n, []) =>
      if !x.negative then some n
      else if 0 < n ∧ n ≤ Nat.pow 2 63 then some (-n)
      else none
    | _ => none
  else none

/-- How the digits of a positive number are written: those of numbers up to sixteen places before
the point and of numbers with up to four zeros behind it stand around a point, and all others have
an exponent. -/
def ofDigits (negative : Bool) (d : Decimal.Digits) : Numeral :=
  let digits := (Nat.toDigits 10 d.digits).map fun c => c.toNat - 48
  let point := (digits.length : Int) + d.exponent
  if 0 ≤ d.exponent ∧ point ≤ 16 then
    ⟨negative, digits ++ List.replicate d.exponent.toNat 0, [0], none⟩
  else if 0 < point ∧ point ≤ 16 then
    ⟨negative, digits.take point.toNat, digits.drop point.toNat, none⟩
  else if -5 < point ∧ point ≤ 0 then
    ⟨negative, [0], List.replicate (-point).toNat 0 ++ digits, none⟩
  else
    ⟨negative, digits.take 1, digits.drop 1, some (point - 1)⟩

/-- How a floating-point number is written: with the fewest digits that determine it. A tie goes to
the even digit. -/
def ofReal? (x : Float) : Option Numeral :=
  let bits := x.toBits
  let negative := Nat.pow 2 63 ≤ bits.toNat
  match Decimal.shape bits with
  | .zero => some ⟨negative, [0], [0], none⟩
  | .finite b => some (ofDigits negative (b.shortest .even))
  | .nan => none
  | .infinite => none

/-- The characters of digits. -/
def digitText (ds : List Nat) : List Char :=
  ds.map Nat.digitChar

def text (x : Numeral) : String :=
  let sign := if x.negative then ['-'] else []
  let fraction := if x.fraction.isEmpty then [] else '.' :: digitText x.fraction
  let exponent := match x.exponent with
    | some e => 'e' :: (toString e).toList
    | none => []
  String.ofList (sign ++ digitText x.whole ++ fraction ++ exponent)

end Numeral

end Settings

end LightClient
