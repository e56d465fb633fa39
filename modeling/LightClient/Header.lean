/-
Module: LightClient.Header
Purpose: Block headers, their canonical bytes and their hash; block bodies.
Main exports: Header, Header.encode, Header.decode, Header.hash, Body
-/
import LightClient.Digest
import LightClient.Wire.Payloads

namespace LightClient

/-- A block header. The roots it holds are what bodies, receipts and state are checked against. -/
structure Header where
  parentHash : Digest
  number : UInt64
  stateRoot : Digest
  transactionsRoot : Digest
  receiptsRoot : Digest
  ommersHash : Digest
  extra : Bytes
  deriving DecidableEq, Inhabited

/-- Why bytes are no header. -/
inductive HeaderFault where
  | undecodable
  | notADigest (field : String)
  deriving Repr, DecidableEq

namespace HeaderFault

def message : HeaderFault → String
  | undecodable => "could not decode header"
  | notADigest field => "header field " ++ field ++ " is not a hash"

end HeaderFault

namespace Header

/-- The message a header is sent as. -/
def toMessage (h : Header) : Wire.HeaderMessage :=
  ⟨h.parentHash.bytes, h.number, h.stateRoot.bytes, h.transactionsRoot.bytes,
   h.receiptsRoot.bytes, h.ommersHash.bytes, h.extra⟩

/-- Reads one digest of a message. -/
def digestField (name : String) (bs : Bytes) : Except HeaderFault Digest :=
  match Digest.ofBytes? bs with
  | some d => .ok d
  | none => .error (.notADigest name)

/-- The header in a message; the first field that is no digest is the fault. -/
def ofMessage (m : Wire.HeaderMessage) : Except HeaderFault Header := do
  let parentHash ← digestField "parent_hash" m.parentHash
  let stateRoot ← digestField "state_root" m.stateRoot
  let transactionsRoot ← digestField "transactions_root" m.transactionsRoot
  let receiptsRoot ← digestField "receipts_root" m.receiptsRoot
  let ommersHash ← digestField "ommers_hash" m.ommersHash
  .ok ⟨parentHash, m.number, stateRoot, transactionsRoot, receiptsRoot, ommersHash, m.extra⟩

/-- The canonical bytes, which the hash commits to. -/
def encode (h : Header) : Bytes :=
  Wire.Message.encode h.toMessage

def decode (bs : Bytes) : Except HeaderFault Header :=
  match Wire.Message.decode? bs with
  | some m => ofMessage m
  | none => .error .undecodable

def hash (h : Header) : Digest :=
  sha256 h.encode

end Header

/-- The transactions and ommer headers of a block, each encoded. -/
structure Body where
  transactions : List Bytes
  ommers : List Bytes
  deriving Repr, DecidableEq, Inhabited

end LightClient
