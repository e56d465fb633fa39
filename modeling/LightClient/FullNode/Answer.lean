/-
Module: LightClient.FullNode.Answer
Purpose: The replies of an honest full node to encoded requests.
Main exports: SampleChain.answer
-/
import LightClient.FullNode.SampleChain

namespace LightClient

namespace SampleChain

/-- The block that a request names by both hash and number. If blocks share a hash, it stands for the
last one. -/
def block? (c : SampleChain) (p : Wire.BlockParams) : Option Block := do
  let hash ← Digest.ofBytes? p.blockHash
  let b ← c.blocks.reverse.find? fun b => b.hash = hash
  if b.header.number = p.blockNumber then some b else none

/-- The reply to a header range request: a range that is not empty, ends at a block of the chain
and does not start before the first one. -/
def answerHeaderRange (c : SampleChain) (data : Bytes) : Option Bytes := do
  let p : Wire.HeaderRangeParams ← Wire.Message.decode? data
  let last ← c.blocks[p.anchorNumber.toNat]?
  -- There is a block with the number of the anchor, so that the number after it is a word.
  let next := p.anchorNumber + 1
  if last.hash.bytes ≠ p.anchor ∨ p.count = 0 ∨ next < p.count then none
  else
    let range := (c.blocks.take (p.anchorNumber.toNat + 1)).drop (next - p.count).toNat
    some (Wire.Message.encode
      (⟨range.map fun b => b.header.toMessage⟩ : Wire.HeaderListMessage))

def answerBody (c : SampleChain) (data : Bytes) : Option Bytes := do
  let p ← Wire.Message.decode? data
  let b ← c.block? p
  some (Wire.Message.encode (⟨b.body.transactions, b.body.ommers⟩ : Wire.BodyMessage))

def answerReceipts (c : SampleChain) (data : Bytes) : Option Bytes := do
  let p ← Wire.Message.decode? data
  let b ← c.block? p
  some (Wire.Message.encode (⟨b.receipts⟩ : Wire.ReceiptsMessage))

def trie? (c : SampleChain) (root : Digest) : Option Trie :=
  if root = c.state.root then some c.state
  else if root = c.storage.root then some c.storage
  else none

def answerStateProof (c : SampleChain) (data : Bytes) : Option Bytes := do
  let p : Wire.StateParams ← Wire.Message.decode? data
  let block ← p.block
  let _ ← c.block? block
  let root ← Digest.ofBytes? p.root
  let trie ← c.trie? root
  some (Wire.Message.encode (⟨trie.prove p.key, none⟩ : Wire.ProofMessage))

def answerCode (c : SampleChain) (data : Bytes) : Option Bytes := do
  let p : Wire.CodeParams ← Wire.Message.decode? data
  let block ← p.block
  let _ ← c.block? block
  let hash ← Digest.ofBytes? p.codeHash
  if hash = c.codeHash then some (Wire.Message.encode (⟨c.code⟩ : Wire.CodeMessage)) else none

/-- The header that goes with a proof from a helper trie: the one of the block that the key of a
canonical hash trie names. -/
def provenHeader? (c : SampleChain) (trie : HelperTrie) (key : Bytes) :
    Option (Option Wire.HeaderMessage) :=
  match trie with
  | .bloom => some none
  | .canonicalHash =>
    if key.length = 8 then
      (c.blocks[Bytes.ofBigEndian key]?).map fun b => some b.header.toMessage
    else none

def answerHelperTrie (c : SampleChain) (data : Bytes) : Option Bytes := do
  let p : Wire.HelperTrieParams ← Wire.Message.decode? data
  let kind ← HelperTrie.ofWire? p.trie
  let trie ← c.helperTrie? kind p.sectionIndex
  let header ← c.provenHeader? kind p.key
  some (Wire.Message.encode (⟨trie.prove p.key, header⟩ : Wire.ProofMessage))

/-- The reply to an encoded request, if the chain has what it asks for. -/
def answer (c : SampleChain) (kind : RequestKind) (data : Bytes) : Option Bytes :=
  match kind with
  | .headerRange => c.answerHeaderRange data
  | .body => c.answerBody data
  | .receipts => c.answerReceipts data
  | .stateProof => c.answerStateProof data
  | .code => c.answerCode data
  | .helperTrieProof => c.answerHelperTrie data

end SampleChain

end LightClient
