/-
Module: LightClient.Error
Purpose: What is wrong with a reply, and why a retrieval fails.
Main exports: Flaw, Flaw.message, RetrievalError, RetrievalError.message
-/
import LightClient.Header
import LightClient.Peer
import LightClient.Text.Quoted
import LightClient.Trie.Node

namespace LightClient

/-- Why a reply does not prove what was asked for. -/
inductive Flaw where
  | undecodable
  | headerCount (expected : UInt64) (got : Nat)
  | header (fault : HeaderFault)
  | beforeGenesis
  | headerNumber (index : Nat) (number expected : UInt64)
  | brokenLink (number : UInt64)
  | anchor
  | transactionsRoot
  | ommersHash
  | receiptsRoot
  | proof (error : Trie.ProofError)
  | codeHash
  | blockAbsent
  | blockValue
  | missingHeader
  | canonicalHash
  | canonicalNumber
  | bitsAbsent
  /-- A flaw that only has a text. -/
  | stated (text : String)
  deriving DecidableEq

namespace Flaw

def message : Flaw → String
  | undecodable => "undecodable reply: malformed message"
  | headerCount expected got =>
    "expected " ++ toString expected.toNat ++ " headers, got " ++ toString got
  | header fault => fault.message ++ " (src: None)"
  | beforeGenesis => "header range starts before genesis"
  | headerNumber index number expected =>
    "header " ++ toString index ++ " has number " ++ toString number.toNat ++ ", expected " ++
      toString expected.toNat
  | brokenLink number => "header " ++ toString number.toNat ++ " does not link to its parent"
  | anchor => "last header does not hash to the anchor"
  | transactionsRoot => "transactions root mismatch"
  | ommersHash => "ommers hash mismatch"
  | receiptsRoot => "receipts root mismatch"
  | proof error => error.message
  | codeHash => "code hash mismatch"
  | blockAbsent => "canonical hash trie proves the block absent"
  | blockValue => "malformed canonical hash trie value"
  | missingHeader => "missing header"
  | canonicalHash => "header does not match the canonical hash"
  | canonicalNumber => "header number does not match the requested block"
  | bitsAbsent => "bloom trie proves the bits absent"
  | stated text => text

end Flaw

/-- Why a retrieval, or one attempt at it, fails. -/
inductive RetrievalError where
  /-- No eligible peer is there right now. -/
  | noPeerAvailable
  /-- A peer took the request and did not answer in time. -/
  | timeout (peer : PeerId)
  /-- A peer's reply did not prove what was asked for. -/
  | invalidProof (peer : PeerId) (flaw : Flaw)
  /-- A peer left while it was being asked. -/
  | peerGone (peer : PeerId)
  /-- Every eligible peer was asked, and none answered well. -/
  | allPeersFailed (attempts : Nat)
  /-- The caller gave up. -/
  | canceled
  /-- No confirmed root of the section is known. -/
  | noTrustedRoot (trie : HelperTrie) (sectionIndex : UInt64)
  /-- A header range that no chain has. -/
  | invalidRange (count anchorNumber : UInt64)
  /-- A section that ends behind the last possible block. -/
  | sectionPastLastBlock (sectionIndex size : UInt64)
  /-- An answer of another kind than the one asked for. -/
  | unexpectedItem
  /-- A retrieval that was given up without telling its callers. -/
  | noOutcome
  /-- Any other failure, with the text of the failure behind it. -/
  | other (context : String) (source : Option String)
  deriving DecidableEq

namespace RetrievalError

/-- The text of a failure that has no kind of its own, and of what is behind it. -/
def detail? : RetrievalError → Option (String × Option String)
  | invalidRange count anchorNumber =>
    some ("invalid header range: " ++ toString count.toNat ++ " headers ending at " ++
      toString anchorNumber.toNat, none)
  | sectionPastLastBlock index size =>
    some ("section " ++ toString index.toNat ++ " of size " ++ toString size.toNat ++
      " is past the last block", none)
  | unexpectedItem => some ("unexpected verified item: another kind", none)
  | noOutcome => some ("retrieval ended without an outcome", none)
  | other context source => some (context, source)
  | _ => none

def message (e : RetrievalError) : String :=
  match e with
  | noPeerAvailable => "no peer available to serve the request"
  | timeout peer => "request to peer " ++ peer.text ++ " timed out"
  | invalidProof peer flaw => "invalid proof from peer " ++ peer.text ++ ": " ++ flaw.message
  | peerGone peer => "peer " ++ peer.text ++ " went away while serving the request"
  | allPeersFailed attempts => "all peers failed after " ++ toString attempts ++ " attempts"
  | canceled => "request canceled"
  | noTrustedRoot trie index =>
    "no trusted " ++ trie.title ++ " root for section " ++ toString index.toNat
  | _ =>
    match e.detail? with
    | some (context, source) => context ++ " (src: " ++ source.getD "None" ++ ")"
    | none => ""

/-- A name and its named parts, as written in logs. -/
def record (name : String) (parts : List (String × String)) : String :=
  name ++ " \x7b " ++ ", ".intercalate (parts.map fun p => p.1 ++ ": " ++ p.2) ++ " \x7d"

/-- The form of an error in logs. -/
def label (e : RetrievalError) : String :=
  match e with
  | noPeerAvailable => "NoPeerAvailable"
  | timeout peer => record "Timeout" [("peer", peer.label)]
  | invalidProof peer flaw =>
    record "InvalidProof" [("peer", peer.label), ("ctx", Quoted.quote flaw.message)]
  | peerGone peer => record "PeerGone" [("peer", peer.label)]
  | allPeersFailed attempts => record "AllPeersFailed" [("attempts", toString attempts)]
  | canceled => "Canceled"
  | noTrustedRoot trie index =>
    record "NoTrustedRoot" [("kind", trie.title), ("section", toString index.toNat)]
  | _ =>
    match e.detail? with
    | some (context, source) =>
      record "Other" [("ctx", Quoted.quote context), ("src", source.getD "None")]
    | none => ""

/-- Errors that concern one peer only; another peer may still answer. -/
def isPeerLocal : RetrievalError → Bool
  | timeout _ => true
  | invalidProof .. => true
  | peerGone _ => true
  | _ => false

end RetrievalError

end LightClient
