/-
Module: LightClient.Settings.Value
Purpose: The tree of values that settings are written as, and how records are read from it.
Main exports: Settings.Value, Settings.Value.ofNumeral?, Settings.Value.part?,
  Settings.Value.word32?, Settings.Value.word64?, Settings.Value.real?
-/
import LightClient.Settings.Numeral

namespace LightClient

namespace Settings

/-- A value in a settings file. -/
inductive Value where
  | null
  | truth (b : Bool)
  | whole (n : Int)
  | real (x : Float)
  | text (s : String)
  | list (items : List Value)
  | table (fields : List (String × Value))
  deriving Inhabited

namespace Value

/-- The value of a numeral: a whole number if it is one, and otherwise a floating-point number. -/
def ofNumeral? (x : Numeral) : Option Value :=
  match x.integer? with
  | some n => some (whole n)
  | none => x.real?.map real

/-- A whole number of 32 bits. -/
def word32? : Value → Option UInt32
  | whole n => if 0 ≤ n ∧ n < UInt32.size then some (UInt32.ofNat n.toNat) else none
  | _ => none

/-- A whole number of 64 bits. -/
def word64? : Value → Option UInt64
  | whole n => if 0 ≤ n ∧ n < UInt64.size then some (UInt64.ofNat n.toNat) else none
  | _ => none

/-- A floating-point number. Settings are written out before their parts are read, so that the
number is read once more from its numeral; a whole number is taken as the nearest one. -/
def real? : Value → Option Float
  | real x => (Numeral.ofReal? x).bind Numeral.real?
  | whole n => some (Float.ofInt n)
  | _ => none

/-- The parts of a record with the given field names. A table gives them by name and may have other
fields too; a list gives them in order and may end early, but not go on. -/
def parts? (names : List String) : Value → Option (List (String × Value))
  | table fields => some fields
  | list items => if items.length ≤ names.length then some (names.zip items) else none
  | _ => none

/-- Reads one part of a record; a missing one has its default. -/
def part? {α : Type} (parts : List (String × Value)) (name : String) (read : Value → Option α)
    (default : α) : Option α :=
  match parts.lookup name with
  | some v => read v
  | none => some default

end Value

end Settings

end LightClient
