/-
Module: LightClient.Wire.Field
Purpose: The tagged fields a message is written as, and their layout in bytes.
Main exports: Wire.Field, Wire.encode, Wire.decode?
-/
import LightClient.Wire.Varint

namespace LightClient

namespace Wire

/-- The content of a field. -/
inductive Payload where
  | number (value : UInt64)
  | bytes (data : Bytes)
  /-- A fixed-width number or a group; no message here has one, so its content is skipped. -/
  | foreign
  deriving Repr, DecidableEq

structure Field where
  number : Nat
  payload : Payload
  deriving Repr, DecidableEq

/-- The varint that announces a field: its number and three bits for its layout. -/
def key (number layout : Nat) : Bytes :=
  Varint.encode (UInt64.ofNat (8 * number + layout))

def Field.encode (f : Field) : Bytes :=
  match f.payload with
  | .number v => key f.number 0 ++ Varint.encode v
  | .bytes b => key f.number 2 ++ Varint.encode (UInt64.ofNat b.length) ++ b
  | .foreign => []

def encode (fs : List Field) : Bytes :=
  fs.flatMap Field.encode

/-- Reads the announcement of a field: number, layout, and the bytes behind it. -/
def readKey (bs : Bytes) : Option (Nat × Nat × Bytes) := do
  let (k, rest) ← Varint.decode? bs
  if k.toNat < UInt32.size ∧ 8 ≤ k.toNat then
    some (k.toNat / 8, k.toNat % 8, rest)
  else
    none

/-- Splits off exactly `n` bytes. -/
def split (n : Nat) (bs : Bytes) : Option (Bytes × Bytes) :=
  if n ≤ bs.length then some (bs.take n, bs.drop n) else none

/-- Reads the content of a field whose layout is neither the start nor the end of a group. -/
def readPayload (layout : Nat) (bs : Bytes) : Option (Payload × Bytes) :=
  match layout with
  | 0 => (Varint.decode? bs).map fun r => (.number r.1, r.2)
  | 1 => (split 8 bs).map fun r => (.foreign, r.2)
  | 2 => do
    let (n, rest) ← Varint.decode? bs
    let (data, rest) ← split n.toNat rest
    some (.bytes data, rest)
  | 5 => (split 4 bs).map fun r => (.foreign, r.2)
  | _ => none

/-- Reads fields up to the end of the bytes. `opened` holds the numbers of the groups that are
open, innermost first; inside groups fields are skipped, and a field may lie in fewer than `depth`
groups. Every field takes a byte, so the number of bytes bounds the `steps`. -/
def readFields (depth : Nat) : (steps : Nat) → (opened : List Nat) → Bytes →
    Option (List Field)
  | _, [], [] => some []
  | _, _ :: _, [] => none
  | 0, _, _ :: _ => none
  | steps + 1, opened, bs => do
    let (number, layout, rest) ← readKey bs
    if layout = 4 then
      match opened with
      | [] => none
      | [outer] =>
        if number = outer then
          (readFields depth steps [] rest).map (Field.mk number .foreign :: ·)
        else none
      | inner :: outer => if number = inner then readFields depth steps outer rest else none
    else if opened.length < depth then
      if layout = 3 then
        readFields depth steps (number :: opened) rest
      else do
        let (payload, rest) ← readPayload layout rest
        match opened with
        | [] => (readFields depth steps [] rest).map (Field.mk number payload :: ·)
        | _ :: _ => readFields depth steps opened rest
    else none

/-- Reads the fields of a message whose unknown groups may nest `depth` deep. -/
def decode? (depth : Nat) (bs : Bytes) : Option (List Field) :=
  readFields depth bs.length [] bs

end Wire

end LightClient
