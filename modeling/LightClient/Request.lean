/-
Module: LightClient.Request
Purpose: Requests for data bound to a trusted root, their bytes, and who can serve them.
Main exports: Request, Request.encode, Request.minHead, PeerInfo.canServe
-/
import LightClient.Peer
import LightClient.Wire.Payloads

namespace LightClient

/-- Data to retrieve, together with the trusted root it is checked against. -/
inductive Request where
  /-- The `count` headers that end at a trusted hash. -/
  | headerRange (anchor : Digest) (anchorNumber count : UInt64)
  /-- The body of a block. -/
  | body (blockHash : Digest) (blockNumber : UInt64) (transactionsRoot ommersHash : Digest)
  /-- The receipts of a block. -/
  | receipts (blockHash : Digest) (blockNumber : UInt64) (receiptsRoot : Digest)
  /-- One key of a state or storage trie. -/
  | stateProof (blockHash : Digest) (blockNumber : UInt64) (root : Digest) (key : Bytes)
  /-- The code of a contract. -/
  | code (blockHash : Digest) (blockNumber : UInt64) (codeHash : Digest)
  /-- One key of a helper trie; only peers whose head is at least `minHead` know its section. -/
  | helperTrieProof (trie : HelperTrie) (sectionIndex : UInt64) (root : Digest) (key : Bytes)
      (minHead : UInt64)
  deriving DecidableEq

namespace Request

def kind : Request → RequestKind
  | headerRange .. => .headerRange
  | body .. => .body
  | receipts .. => .receipts
  | stateProof .. => .stateProof
  | code .. => .code
  | helperTrieProof .. => .helperTrieProof

/-- The lowest head a peer must have announced to have the data. -/
def minHead : Request → UInt64
  | headerRange _ anchorNumber _ => anchorNumber
  | body _ number .. => number
  | receipts _ number _ => number
  | stateProof _ number .. => number
  | code _ number _ => number
  | helperTrieProof _ _ _ _ head => head

/-- The bytes a peer is sent. Trusted roots that a peer can find by itself are left out. -/
def encode : Request → Bytes
  | headerRange anchor anchorNumber count =>
    Wire.Message.encode (⟨anchor.bytes, anchorNumber, count⟩ : Wire.HeaderRangeParams)
  | body blockHash number .. =>
    Wire.Message.encode (⟨blockHash.bytes, number⟩ : Wire.BlockParams)
  | receipts blockHash number _ =>
    Wire.Message.encode (⟨blockHash.bytes, number⟩ : Wire.BlockParams)
  | stateProof blockHash number root key =>
    Wire.Message.encode
      (⟨some ⟨blockHash.bytes, number⟩, root.bytes, key⟩ : Wire.StateParams)
  | code blockHash number codeHash =>
    Wire.Message.encode (⟨some ⟨blockHash.bytes, number⟩, codeHash.bytes⟩ : Wire.CodeParams)
  | helperTrieProof trie index _ key _ =>
    Wire.Message.encode (⟨trie.wire, index, key⟩ : Wire.HelperTrieParams)

end Request

namespace PeerInfo

/-- A peer can serve a request if it serves the kind, speaks a version that knows it, and has
announced a head that is far enough. -/
def canServe (p : PeerInfo) (r : Request) : Bool :=
  r.kind ∈ p.serves && r.kind.minVersion ≤ p.version.toNat && r.minHead ≤ p.head.number

end PeerInfo

end LightClient
