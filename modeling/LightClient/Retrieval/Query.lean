/-
Module: LightClient.Retrieval.Query
Purpose: What a caller can ask for, and the answers that need no peer.
Main exports: Query, Query.answeredBy, Query.expect, Query.atOnce
-/
import LightClient.Error
import LightClient.Item

namespace LightClient

/-- What a caller asks for, in terms of what the caller already trusts. -/
inductive Query where
  /-- The `count` headers that end at a trusted hash. -/
  | headers (anchor : Digest) (anchorNumber count : UInt64)
  | body (header : Header)
  | receipts (header : Header)
  | account (header : Header) (key : Bytes)
  | storage (header : Header) (storageRoot : Digest) (key : Bytes)
  | code (header : Header) (codeHash : Digest)
  /-- The canonical header of an old block. -/
  | canonicalHeader (number : UInt64)
  /-- The bits of one bloom bit index over an old section. -/
  | bloomBits (bit : UInt16) (sectionIndex : UInt64)
  deriving DecidableEq

namespace Query

/-- An item is of the kind a query asks for. -/
def answeredBy : Query → Item → Bool
  | headers .., .headers _ => true
  | body _, .body _ => true
  | receipts _, .receipts _ => true
  | account .., .state _ => true
  | storage .., .state _ => true
  | code .., .code _ => true
  | canonicalHeader _, .canonicalHeader .. => true
  | bloomBits .., .bloomBits _ => true
  | _, _ => false

/-- Takes an item for the answer to a query, and refuses one of another kind. -/
def expect (q : Query) (item : Item) : Except RetrievalError Item :=
  if q.answeredBy item then .ok item else .error .unexpectedItem

/-- The answer that is known without asking anybody: the code with the digest of nothing is
empty. -/
def atOnce : Query → Option Item
  | code _ codeHash => if codeHash = sha256 [] then some (.code []) else none
  | _ => none

end Query

end LightClient
