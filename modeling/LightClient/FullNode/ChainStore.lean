/-
Module: LightClient.FullNode.ChainStore
Purpose: A chain the way a full node keeps it: a list for each thing that it has of its blocks, with
  an index of their hashes, and the tries. The replies read out of it, where every access to a list
  and every sum is checked.
Main exports: ChainStore, ChainStore.generate, ChainStore.answer
-/
import LightClient.FullNode.SampleChain
import LightClient.Table
import LightClient.Trie.Cursor

namespace LightClient

/-- A chain in memory. What it has of one block is found at the same place of the lists. -/
structure ChainStore where
  sectionSize : UInt64
  headers : List Header
  bodies : List Body
  receipts : List (List Bytes)
  totalDifficulties : List Nat
  state : Trie
  storage : Trie
  code : Bytes
  /-- The canonical hash tries of the complete sections. -/
  canonicalHash : List Trie
  /-- The bloom tries of the complete sections. -/
  bloom : List Trie
  /-- The numbers of the blocks with the hashes. -/
  numbers : Table Digest UInt64

namespace ChainStore

/-! ### Generating a chain -/

/-- The store before the first block. -/
def start (sectionSize : UInt64) (salt : String) : ChainStore :=
  { sectionSize := sectionSize
    headers := []
    bodies := []
    receipts := []
    totalDifficulties := []
    state := SampleChain.makeState salt
    storage := SampleChain.makeStorage salt
    code := SampleChain.dashed ["code", salt]
    canonicalHash := []
    bloom := []
    numbers := [] }

/-- The store with one block more, made on top of the last one. -/
def append (salt : String) (s : ChainStore) (number : Nat) : ChainStore :=
  let parent := (s.headers.getLast?.map Header.hash).getD Digest.zero
  let parentDifficulty := s.totalDifficulties.getLast?.getD 0
  let b := SampleChain.makeBlock salt s.state.root number parent parentDifficulty
  { s with
    headers := s.headers ++ [b.header]
    bodies := s.bodies ++ [b.body]
    receipts := s.receipts ++ [b.receipts]
    totalDifficulties := s.totalDifficulties ++ [b.totalDifficulty]
    numbers := s.numbers.insert b.header.hash (UInt64.ofNat number) }

/-- The entry of the canonical hash trie for the block at a place. -/
def canonicalHashEntry (s : ChainStore) (place : Nat) : Except Overrun (Bytes × Bytes) := do
  let header ← Checked.item s.headers place
  let totalDifficulty ← Checked.item s.totalDifficulties place
  .ok (HelperTrie.blockKey (UInt64.ofNat place), HelperTrie.blockValue header.hash totalDifficulty)

def canonicalHashTrie (s : ChainStore) (index : UInt64) : Except Overrun Trie := do
  let first ← Checked.mul index s.sectionSize
  let following ← Checked.add index 1
  let past ← Checked.mul following s.sectionSize
  let places := List.range' first.toNat (past.toNat - first.toNat)
  let entries ← places.mapM s.canonicalHashEntry
  .ok (Trie.build entries)

/-- The chain of a length, with helper tries over sections of a size. -/
def generate (length sectionSize : UInt64) (salt : String) : Except Overrun ChainStore := do
  let s := (List.range length.toNat).foldl (append salt) (start sectionSize salt)
  let sections ← Checked.div length sectionSize
  let indices := List.range sections.toNat
  let canonicalHash ← indices.mapM fun i => s.canonicalHashTrie (UInt64.ofNat i)
  .ok { s with
    canonicalHash := canonicalHash
    bloom := indices.map fun i => Trie.build (SampleChain.bloomEntries salt i) }

/-! ### Replies -/

/-- The number of the block that a request names by both hash and number. -/
def blockNumber? (s : ChainStore) (p : Wire.BlockParams) : Option UInt64 := do
  let hash ← Digest.ofBytes? p.blockHash
  let number ← s.numbers.get? hash
  if number = p.blockNumber then some number else none

def answerHeaderRange (s : ChainStore) (data : Bytes) : Attempt Bytes := do
  let p : Wire.HeaderRangeParams ← Wire.Message.decode? data
  let last ← s.headers[p.anchorNumber.toNat]?
  if last.hash.bytes ≠ p.anchor ∨ p.count = 0 then failure
  else
    let next ← Checked.add p.anchorNumber 1
    if next < p.count then failure
    else
      let first ← Checked.sub next p.count
      let range ← Checked.range s.headers first.toNat p.anchorNumber.toNat
      return Wire.Message.encode (⟨range.map Header.toMessage⟩ : Wire.HeaderListMessage)

def answerBody (s : ChainStore) (data : Bytes) : Attempt Bytes := do
  let p : Wire.BlockParams ← Wire.Message.decode? data
  let number ← s.blockNumber? p
  let body ← (Checked.item s.bodies number.toNat : Except Overrun Body)
  return Wire.Message.encode (⟨body.transactions, body.ommers⟩ : Wire.BodyMessage)

def answerReceipts (s : ChainStore) (data : Bytes) : Attempt Bytes := do
  let p : Wire.BlockParams ← Wire.Message.decode? data
  let number ← s.blockNumber? p
  let receipts ← (Checked.item s.receipts number.toNat : Except Overrun (List Bytes))
  return Wire.Message.encode (⟨receipts⟩ : Wire.ReceiptsMessage)

def trie? (s : ChainStore) (root : Digest) : Option Trie :=
  if root = s.state.root then some s.state
  else if root = s.storage.root then some s.storage
  else none

def answerStateProof (s : ChainStore) (data : Bytes) : Attempt Bytes := do
  let p : Wire.StateParams ← Wire.Message.decode? data
  let block ← p.block
  let _ ← s.blockNumber? block
  let root ← Digest.ofBytes? p.root
  let trie ← s.trie? root
  let nodes ← trie.gather p.key
  return Wire.Message.encode (⟨nodes, none⟩ : Wire.ProofMessage)

def answerCode (s : ChainStore) (data : Bytes) : Attempt Bytes := do
  let p : Wire.CodeParams ← Wire.Message.decode? data
  let block ← p.block
  let _ ← s.blockNumber? block
  let hash ← Digest.ofBytes? p.codeHash
  if hash = sha256 s.code then return Wire.Message.encode (⟨s.code⟩ : Wire.CodeMessage)
  else failure

def answerHelperTrie (s : ChainStore) (data : Bytes) : Attempt Bytes := do
  let p : Wire.HelperTrieParams ← Wire.Message.decode? data
  let kind ← HelperTrie.ofWire? p.trie
  match kind with
  | .canonicalHash =>
    let trie ← s.canonicalHash[p.sectionIndex.toNat]?
    if p.key.length = 8 then
      let header ← s.headers[Bytes.ofBigEndian p.key]?
      let nodes ← trie.gather p.key
      return Wire.Message.encode (⟨nodes, some header.toMessage⟩ : Wire.ProofMessage)
    else failure
  | .bloom =>
    let trie ← s.bloom[p.sectionIndex.toNat]?
    let nodes ← trie.gather p.key
    return Wire.Message.encode (⟨nodes, none⟩ : Wire.ProofMessage)

/-- The reply to an encoded request, if the chain has what it asks for. -/
def answer (s : ChainStore) (kind : RequestKind) (data : Bytes) : Attempt Bytes :=
  match kind with
  | .headerRange => s.answerHeaderRange data
  | .body => s.answerBody data
  | .receipts => s.answerReceipts data
  | .stateProof => s.answerStateProof data
  | .code => s.answerCode data
  | .helperTrieProof => s.answerHelperTrie data

end ChainStore

end LightClient
