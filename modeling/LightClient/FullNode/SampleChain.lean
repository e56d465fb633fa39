/-
Module: LightClient.FullNode.SampleChain
Purpose: A chain made up from a salt, with the tries a full node keeps beside it.
Main exports: Block, SampleChain, SampleChain.generate, SampleChain.head
-/
import LightClient.Header
import LightClient.HelperTrie
import LightClient.Peer
import LightClient.Trie.OrderedList

namespace LightClient

/-- A block with everything a full node has of it. -/
structure Block where
  header : Header
  /-- The hash of the header. -/
  hash : Digest
  body : Body
  receipts : List Bytes
  totalDifficulty : Nat

/-- A chain in memory. All blocks have the same state. -/
structure SampleChain where
  sectionSize : Nat
  blocks : List Block
  state : Trie
  storage : Trie
  code : Bytes
  /-- The canonical hash tries of the complete sections. -/
  canonicalHash : List Trie
  /-- The bloom tries of the complete sections. -/
  bloom : List Trie

namespace SampleChain

/-- The bytes of a text made of parts with dashes between them. -/
def dashed (parts : List String) : Bytes :=
  Bytes.ofText ("-".intercalate parts)

def accountKey (i : Nat) : Bytes :=
  (sha256 (dashed ["account", toString i])).bytes

def slotKey (i : Nat) : Bytes :=
  (sha256 (dashed ["slot", toString i])).bytes

/-- The storage of the contract: eight slots. -/
def makeStorage (salt : String) : Trie :=
  Trie.build ((List.range 8).map fun i => (slotKey i, dashed ["slot", salt, toString i]))

/-- The state: sixteen accounts. -/
def makeState (salt : String) : Trie :=
  Trie.build ((List.range 16).map fun i => (accountKey i, dashed ["balance", salt, toString i]))

/-- The items of one kind in a block; blocks have one, two and three of them in turn. -/
def makeItems (kind salt : String) (number : Nat) : List Bytes :=
  (List.range (1 + number % 3)).map fun i => dashed [kind, salt, toString number, toString i]

/-- The block with a number on top of a parent. -/
def makeBlock (salt : String) (stateRoot : Digest) (number : Nat) (parent : Digest)
    (parentDifficulty : Nat) : Block :=
  let body : Body := ⟨makeItems "tx" salt number, []⟩
  let receipts := makeItems "receipt" salt number
  let header : Header :=
    { parentHash := parent
      number := UInt64.ofNat number
      stateRoot := stateRoot
      transactionsRoot := Trie.orderedRoot body.transactions
      receiptsRoot := Trie.orderedRoot receipts
      ommersHash := Trie.orderedRoot body.ommers
      extra := dashed ["block", salt, toString number] }
  ⟨header, header.hash, body, receipts, parentDifficulty + 1000 + number⟩

/-- The given count of blocks from a number on. -/
def makeBlocks (salt : String) (stateRoot : Digest) : (count : Nat) → (number : Nat) →
    (parent : Digest) → (parentDifficulty : Nat) → List Block
  | 0, _, _, _ => []
  | count + 1, number, parent, parentDifficulty =>
    let b := makeBlock salt stateRoot number parent parentDifficulty
    b :: makeBlocks salt stateRoot count (number + 1) b.hash b.totalDifficulty

/-- The entries of the canonical hash trie of some blocks. -/
def canonicalHashEntries (blocks : List Block) : List (Bytes × Bytes) :=
  blocks.map fun b =>
    (HelperTrie.blockKey b.header.number, HelperTrie.blockValue b.hash b.totalDifficulty)

/-- The entries of the bloom trie of a section: eight bits. -/
def bloomEntries (salt : String) (index : Nat) : List (Bytes × Bytes) :=
  (List.range 8).map fun bit =>
    (HelperTrie.bitKey (UInt16.ofNat bit) (UInt64.ofNat index),
      dashed ["bloom", salt, toString index, toString bit])

/-- The chain of a length, with helper tries over sections of a size. -/
def generate (length sectionSize : Nat) (salt : String) : SampleChain :=
  let state := makeState salt
  let blocks := makeBlocks salt state.root length 0 Digest.zero 0
  let sections := List.range (length / sectionSize)
  { sectionSize := sectionSize
    blocks := blocks
    state := state
    storage := makeStorage salt
    code := dashed ["code", salt]
    canonicalHash := sections.map fun s =>
      Trie.build (canonicalHashEntries ((blocks.drop (s * sectionSize)).take sectionSize))
    bloom := sections.map fun s => Trie.build (bloomEntries salt s) }

/-- The chain of a length; there is none if sections are to be empty. -/
def generate? (length sectionSize : Nat) (salt : String) : Option SampleChain :=
  if sectionSize = 0 then none else some (generate length sectionSize salt)

def length (c : SampleChain) : Nat :=
  c.blocks.length

/-- The number of complete sections. -/
def sections (c : SampleChain) : Nat :=
  c.canonicalHash.length

/-- The head a peer with this chain announces. -/
def head (c : SampleChain) : Head :=
  match c.blocks.getLast? with
  | some b => ⟨b.header.number, b.hash⟩
  | none => ⟨0, Digest.zero⟩

def codeHash (c : SampleChain) : Digest :=
  sha256 c.code

def account? (c : SampleChain) (i : Nat) : Option Bytes :=
  c.state.get (accountKey i)

def slot? (c : SampleChain) (i : Nat) : Option Bytes :=
  c.storage.get (slotKey i)

def helperTrie? (c : SampleChain) (trie : HelperTrie) (index : UInt64) : Option Trie :=
  match trie with
  | .canonicalHash => c.canonicalHash[index.toNat]?
  | .bloom => c.bloom[index.toNat]?

/-- The compressed bits of a bloom bit index over a section. -/
def bloomBits? (c : SampleChain) (bit : UInt16) (index : UInt64) : Option Bytes :=
  (c.helperTrie? .bloom index).bind fun t => t.get (HelperTrie.bitKey bit index)

end SampleChain

end LightClient
