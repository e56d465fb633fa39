/-
Module: LightClient.Item
Purpose: Data that has been proven against a trusted root.
Main exports: Item
-/
import LightClient.Header
import LightClient.Request

namespace LightClient

inductive Item where
  /-- Headers in ascending order. -/
  | headers (headers : List Header)
  | body (body : Body)
  /-- Encoded receipts in the order of the transactions. -/
  | receipts (receipts : List Bytes)
  /-- The value of a state or storage key; none if the key is proven absent. -/
  | state (value : Option Bytes)
  | code (code : Bytes)
  /-- The canonical header of a block, and the total difficulty of the chain up to it. -/
  | canonicalHeader (header : Header) (totalDifficulty : Nat)
  /-- The compressed bits of one bloom bit index over a section. -/
  | bloomBits (bits : Bytes)
  deriving DecidableEq

namespace Item

/-- The item is of the kind that a request asks for. -/
def answers : Item → Request → Bool
  | headers _, .headerRange .. => true
  | body _, .body .. => true
  | receipts _, .receipts .. => true
  | state _, .stateProof .. => true
  | code _, .code .. => true
  | canonicalHeader .., .helperTrieProof .canonicalHash .. => true
  | bloomBits _, .helperTrieProof .bloom .. => true
  | _, _ => false

end Item

end LightClient
