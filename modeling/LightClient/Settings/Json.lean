/-
Module: LightClient.Settings.Json
Purpose: The text form of settings values: JSON, read strictly and written without blanks.
Main exports: Settings.Json.parse?, Settings.Json.write
-/
import LightClient.Bytes
import LightClient.Settings.Value

namespace LightClient

namespace Settings

namespace Json

def skipBlanks (cs : List Char) : List Char :=
  cs.dropWhile fun c => c = ' ' || c = '\n' || c = '\t' || c = '\r'

/-- The number that four hexadecimal digits stand for. -/
def hexNumber? (digits : List Char) : Option Nat :=
  digits.foldlM (fun n c => (Bytes.hexValue? c).map fun v => 16 * n + v) 0

/-- The character that a backslash and a letter stand for. -/
def escaped? (c : Char) : Option Char :=
  if c = '"' ∨ c = '\\' ∨ c = '/' then some c
  else if c = 'n' then some '\n'
  else if c = 't' then some '\t'
  else if c = 'r' then some '\r'
  else if c = 'b' then some '\x08'
  else if c = 'f' then some '\x0c'
  else none

/-- The first half of a character outside the basic plane. -/
def isHighHalf (n : Nat) : Bool :=
  0xd800 ≤ n && n < 0xdc00

/-- The second half of a character outside the basic plane. -/
def isLowHalf (n : Nat) : Bool :=
  0xdc00 ≤ n && n < 0xe000

/-- Reads the rest of a text up to its closing quote; `acc` holds what was read, backwards. -/
def readText (acc : List Char) : List Char → Option (String × List Char)
  | [] => none
  | '"' :: rest => some (String.ofList acc.reverse, rest)
  | '\\' :: 'u' :: a :: b :: c :: d :: '\\' :: 'u' :: e :: f :: g :: h :: rest =>
    match hexNumber? [a, b, c, d], hexNumber? [e, f, g, h] with
    | some m, some n =>
      if isHighHalf m then
        if isLowHalf n then
          readText (Char.ofNat (0x10000 + 0x400 * (m - 0xd800) + (n - 0xdc00)) :: acc) rest
        else none
      else if isLowHalf m then none
      else readText (Char.ofNat m :: acc) ('\\' :: 'u' :: e :: f :: g :: h :: rest)
    | _, _ => none
  | '\\' :: 'u' :: a :: b :: c :: d :: rest =>
    match hexNumber? [a, b, c, d] with
    | some m =>
      if isHighHalf m || isLowHalf m then none else readText (Char.ofNat m :: acc) rest
    | none => none
  | '\\' :: c :: rest =>
    match escaped? c with
    | some d => readText (d :: acc) rest
    | none => none
  | c :: rest => if c.toNat < 32 then none else readText (c :: acc) rest

/-- Splits off the digits at the start; there has to be one. -/
def takeDigits? (cs : List Char) : Option (List Nat × List Char) :=
  match cs.takeWhile Char.isDigit with
  | [] => none
  | ds => some (ds.map fun c => c.toNat - 48, cs.dropWhile Char.isDigit)

/-- Splits off the part behind the point, if there is a point. -/
def takeFraction? (cs : List Char) : Option (List Nat × List Char) :=
  match cs with
  | '.' :: rest => takeDigits? rest
  | _ => some ([], cs)

/-- Splits off a whole number with the given sign. -/
def takeWhole? (sign : Int) (cs : List Char) : Option (Option Int × List Char) :=
  (takeDigits? cs).map fun r =>
    let n : Nat := r.1.foldl (fun n d => 10 * n + d) 0
    (some (sign * (n : Int)), r.2)

/-- Splits off the exponent, if there is one. -/
def takeExponent? (cs : List Char) : Option (Option Int × List Char) :=
  match cs with
  | c :: rest =>
    if c = 'e' ∨ c = 'E' then
      match rest with
      | '-' :: rest => takeWhole? (-1) rest
      | '+' :: rest => takeWhole? 1 rest
      | rest => takeWhole? 1 rest
    else some (none, cs)
  | [] => some (none, [])

def readNumber (cs : List Char) : Option (Value × List Char) := do
  let negative := cs.head? == some '-'
  let (whole, rest) ← takeDigits? (if negative then cs.drop 1 else cs)
  if whole.head? = some 0 ∧ 1 < whole.length then none
  else
    let (fraction, rest) ← takeFraction? rest
    let (exponent, rest) ← takeExponent? rest
    let v ← Value.ofNumeral? ⟨negative, whole, fraction, exponent⟩
    some (v, rest)

mutual

/-- Reads a value; every nested value takes a step. -/
def readValue : (steps : Nat) → List Char → Option (Value × List Char)
  | 0, _ => none
  | steps + 1, cs =>
    match skipBlanks cs with
    | '[' :: rest =>
      match skipBlanks rest with
      | ']' :: rest => some (.list [], rest)
      | rest => (readItems steps rest).map fun r => (.list r.1, r.2)
    | '\x7b' :: rest =>
      match skipBlanks rest with
      | '\x7d' :: rest => some (.table [], rest)
      | rest => (readFields steps rest).map fun r => (.table r.1, r.2)
    | '"' :: rest => (readText [] rest).map fun r => (.text r.1, r.2)
    | 't' :: 'r' :: 'u' :: 'e' :: rest => some (.truth true, rest)
    | 'f' :: 'a' :: 'l' :: 's' :: 'e' :: rest => some (.truth false, rest)
    | 'n' :: 'u' :: 'l' :: 'l' :: rest => some (.null, rest)
    | rest => readNumber rest

/-- Reads the values of a list up to its closing bracket. -/
def readItems : (steps : Nat) → List Char → Option (List Value × List Char)
  | 0, _ => none
  | steps + 1, cs => do
    let (v, rest) ← readValue steps cs
    match skipBlanks rest with
    | ',' :: rest => (readItems steps rest).map fun r => (v :: r.1, r.2)
    | ']' :: rest => some ([v], rest)
    | _ => none

/-- Reads the fields of a table up to its closing brace. Of fields with the same name the last one
counts. -/
def readFields : (steps : Nat) → List Char → Option (List (String × Value) × List Char)
  | 0, _ => none
  | steps + 1, cs =>
    match skipBlanks cs with
    | '"' :: rest => do
      let (k, rest) ← readText [] rest
      match skipBlanks rest with
      | ':' :: rest => do
        let (v, rest) ← readValue steps rest
        match skipBlanks rest with
        | ',' :: rest =>
          (readFields steps rest).map fun r =>
            (if r.1.any fun f => f.1 == k then r.1 else (k, v) :: r.1, r.2)
        | '\x7d' :: rest => some ([(k, v)], rest)
        | _ => none
      | _ => none
    | _ => none

end

/-- The value of a text that holds nothing else. Every step takes a character. -/
def parse? (s : String) : Option Value :=
  let cs := s.toList
  match readValue (cs.length + 1) cs with
  | some (v, rest) => if skipBlanks rest = [] then some v else none
  | none => none

/-- The characters that stand for one character in a text. -/
def escape (c : Char) : List Char :=
  if c = '"' then ['\\', '"']
  else if c = '\\' then ['\\', '\\']
  else if c.toNat < 32 then '\\' :: 'u' :: '0' :: '0' :: Bytes.hexPair (UInt8.ofNat c.toNat)
  else [c]

/-- A text in quotes. -/
def writeText (s : String) : String :=
  String.ofList ('"' :: s.toList.flatMap escape ++ ['"'])

mutual

def write : Value → String
  | .null => "null"
  | .truth true => "true"
  | .truth false => "false"
  | .whole n => toString n
  | .real x => ((Numeral.ofReal? x).map Numeral.text).getD "null"
  | .text s => writeText s
  | .list items => "[" ++ ",".intercalate (writeItems items) ++ "]"
  | .table fields => "\x7b" ++ ",".intercalate (writeFields fields) ++ "\x7d"

def writeItems : List Value → List String
  | [] => []
  | v :: rest => write v :: writeItems rest

def writeFields : List (String × Value) → List String
  | [] => []
  | (k, v) :: rest => (writeText k ++ ":" ++ write v) :: writeFields rest

end

end Json

end Settings

end LightClient
