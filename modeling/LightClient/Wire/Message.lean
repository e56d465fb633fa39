/-
Module: LightClient.Wire.Message
Purpose: What makes a record a message, and the codec every message shares.
Main exports: Wire.Message, Wire.Message.encode, Wire.Message.merge?, Wire.Message.decode?
-/
import LightClient.Wire.Field

namespace LightClient

namespace Wire

/-- The number a payload holds, if it holds one. -/
def Payload.number? : Payload → Option UInt64
  | .number v => some v
  | _ => none

/-- The bytes a payload holds, if it holds some. -/
def Payload.bytes? : Payload → Option Bytes
  | .bytes b => some b
  | _ => none

/-- A number is written unless it is zero. -/
def numberField (number : Nat) (v : UInt64) : List Field :=
  if v = 0 then [] else [⟨number, .number v⟩]

/-- A byte string is written unless it is empty. -/
def bytesField (number : Nat) (b : Bytes) : List Field :=
  if b = [] then [] else [⟨number, .bytes b⟩]

/-- Every element of a list of byte strings is written, the empty ones too. -/
def bytesFields (number : Nat) (bs : List Bytes) : List Field :=
  bs.map fun b => ⟨number, .bytes b⟩

/-- A record that can be written as fields in the order of their numbers, and that takes fields up
one by one. A field of a known number and the wrong layout is refused, one of an unknown number is
passed over, a repeated one replaces or extends what was there. -/
class Message (α : Type) where
  /-- The message without any field. -/
  blank : α
  /-- The fields a message is written as. -/
  fields : α → List Field
  /-- Takes up one field; `depth` bounds the groups nested in messages inside it. -/
  absorb : (depth : Nat) → α → Field → Option α

namespace Message

def encode {α : Type} [Message α] (m : α) : Bytes :=
  Wire.encode (fields m)

/-- Takes up all fields found in the bytes. -/
def merge? {α : Type} [Message α] (depth : Nat) (m : α) (bs : Bytes) : Option α :=
  (Wire.decode? depth bs).bind fun fs => fs.foldlM (absorb depth) m

/-- Reads a message; unknown groups may nest a hundred deep. -/
def decode? {α : Type} [Message α] (bs : Bytes) : Option α :=
  merge? 100 blank bs

/-- The field that holds a message. -/
def field {α : Type} [Message α] (number : Nat) (m : α) : Field :=
  ⟨number, .bytes (encode m)⟩

/-- Reads a message that is a field of another one, on top of what is there already. -/
def nested? {α : Type} [Message α] (depth : Nat) (m : α) (p : Payload) : Option α :=
  p.bytes?.bind (merge? (depth - 1) m)

end Message

end Wire

end LightClient
