/-
Module: LightClient.Verify
Purpose: The check of a reply against the trusted root of its request.
Main exports: Request.check, verify
-/
import LightClient.Error
import LightClient.HelperTrie
import LightClient.Item
import LightClient.Trie.OrderedList

namespace LightClient

namespace Verify

/-- Reads the message that a reply of the asked kind is. -/
def message {α : Type} [Wire.Message α] (data : Bytes) : Except Flaw α :=
  match Wire.Message.decode? data with
  | some m => .ok m
  | none => .error .undecodable

def header (m : Wire.HeaderMessage) : Except Flaw Header :=
  match Header.ofMessage m with
  | .ok h => .ok h
  | .error fault => .error (.header fault)

/-- The number of the first of `count` headers that end at `anchorNumber`, unless the range would
start below zero. -/
def firstNumber? (anchorNumber count : UInt64) : Option UInt64 :=
  if count = 0 then none
  else if anchorNumber < count - 1 then none
  else some (anchorNumber - (count - 1))

/-- Checks headers from the given index on: numbers go up by one from `first`, and each header
names the one before it as its parent. -/
def checkLinks (first : UInt64) : (index : Nat) → (previous : Option Header) → List Header →
    Except Flaw Unit
  | _, _, [] => .ok ()
  | index, previous, h :: rest =>
    let expected := first + UInt64.ofNat index
    if h.number ≠ expected then .error (.headerNumber index h.number expected)
    else if previous.any fun p => h.parentHash ≠ p.hash then .error (.brokenLink h.number)
    else checkLinks first (index + 1) (some h) rest

/-- Checks a header range: the right number of headers, linked to each other, the last of which
hashes to the anchor. -/
def headerRange (anchor : Digest) (anchorNumber count : UInt64) (data : Bytes) :
    Except Flaw Item := do
  let m : Wire.HeaderListMessage ← message data
  if UInt64.ofNat m.headers.length ≠ count then
    .error (.headerCount count m.headers.length)
  else
    let headers ← m.headers.mapM header
    match firstNumber? anchorNumber count with
    | none => .error .beforeGenesis
    | some first =>
      checkLinks first 0 none headers
      match headers.getLast? with
      | some last => if last.hash = anchor then .ok (.headers headers) else .error .anchor
      | none => .error .anchor

/-- Checks a block body against the two roots of the header. -/
def body (transactionsRoot ommersHash : Digest) (data : Bytes) : Except Flaw Item := do
  let m : Wire.BodyMessage ← message data
  if Trie.orderedRoot m.transactions ≠ transactionsRoot then .error .transactionsRoot
  else if Trie.orderedRoot m.ommers ≠ ommersHash then .error .ommersHash
  else .ok (.body ⟨m.transactions, m.ommers⟩)

/-- Checks receipts against the root of the header. -/
def receipts (receiptsRoot : Digest) (data : Bytes) : Except Flaw Item := do
  let m : Wire.ReceiptsMessage ← message data
  if Trie.orderedRoot m.receipts ≠ receiptsRoot then .error .receiptsRoot
  else .ok (.receipts m.receipts)

/-- What the nodes of a proof say about a key. -/
def proven (root : Digest) (key : Bytes) (nodes : List Bytes) : Except Flaw (Option Bytes) :=
  match Trie.verifyProof root key nodes with
  | .ok value => .ok value
  | .error e => .error (.proof e)

/-- Checks the proof of a state or storage key. -/
def stateProof (root : Digest) (key : Bytes) (data : Bytes) : Except Flaw Item := do
  let m : Wire.ProofMessage ← message data
  let value ← proven root key m.nodes
  .ok (.state value)

/-- Checks code against its hash. -/
def code (codeHash : Digest) (data : Bytes) : Except Flaw Item := do
  let m : Wire.CodeMessage ← message data
  if sha256 m.code ≠ codeHash then .error .codeHash else .ok (.code m.code)

/-- Checks the proof of a canonical hash, and the header that has this hash. -/
def canonicalHash (root : Digest) (key : Bytes) (data : Bytes) : Except Flaw Item := do
  let m : Wire.ProofMessage ← message data
  match ← proven root key m.nodes with
  | none => .error .blockAbsent
  | some value =>
    match HelperTrie.parseBlockValue value with
    | none => .error .blockValue
    | some (hash, totalDifficulty) =>
      match m.header with
      | none => .error .missingHeader
      | some hm =>
        let h ← header hm
        if h.hash ≠ hash then .error .canonicalHash
        else if HelperTrie.blockKey h.number ≠ key then .error .canonicalNumber
        else .ok (.canonicalHeader h totalDifficulty)

/-- Checks the proof of bloom bits. -/
def bloomBits (root : Digest) (key : Bytes) (data : Bytes) : Except Flaw Item := do
  let m : Wire.ProofMessage ← message data
  match ← proven root key m.nodes with
  | none => .error .bitsAbsent
  | some bits => .ok (.bloomBits bits)

end Verify

/-- What a reply proves, or what is wrong with it. -/
def Request.check (r : Request) (data : Bytes) : Except Flaw Item :=
  match r with
  | .headerRange anchor anchorNumber count => Verify.headerRange anchor anchorNumber count data
  | .body _ _ transactionsRoot ommersHash => Verify.body transactionsRoot ommersHash data
  | .receipts _ _ receiptsRoot => Verify.receipts receiptsRoot data
  | .stateProof _ _ root key => Verify.stateProof root key data
  | .code _ _ codeHash => Verify.code codeHash data
  | .helperTrieProof .canonicalHash _ root key _ => Verify.canonicalHash root key data
  | .helperTrieProof .bloom _ root key _ => Verify.bloomBits root key data

/-- Checks a reply and blames the peer that sent it for what is wrong. -/
def verify (r : Request) (peer : PeerId) (data : Bytes) : Except RetrievalError Item :=
  match r.check data with
  | .ok item => .ok item
  | .error flaw => .error (.invalidProof peer flaw)

end LightClient
