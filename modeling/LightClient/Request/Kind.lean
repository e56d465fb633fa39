/-
Module: LightClient.Request.Kind
Purpose: The kinds of data a peer can be asked for, and the two helper tries.
Main exports: RequestKind, HelperTrie
-/

namespace LightClient

/-- What a request asks for. -/
inductive RequestKind where
  | headerRange
  | body
  | receipts
  | stateProof
  | code
  | helperTrieProof
  deriving Repr, DecidableEq, Inhabited

namespace RequestKind

/-- Every kind, in the order of the tags. -/
def all : List RequestKind :=
  [headerRange, body, receipts, stateProof, code, helperTrieProof]

/-- The tag that starts the canonical form of a request. -/
def tag : RequestKind → UInt8
  | headerRange => 1
  | body => 2
  | receipts => 3
  | stateProof => 4
  | code => 5
  | helperTrieProof => 6

/-- The name used in settings and announcements. -/
def name : RequestKind → String
  | headerRange => "headerRange"
  | body => "body"
  | receipts => "receipts"
  | stateProof => "stateProof"
  | code => "code"
  | helperTrieProof => "helperTrieProof"

/-- The name used in logs. -/
def title : RequestKind → String
  | headerRange => "HeaderRange"
  | body => "Body"
  | receipts => "Receipts"
  | stateProof => "StateProof"
  | code => "Code"
  | helperTrieProof => "HelperTrieProof"

/-- The lowest protocol version whose peers know this kind. -/
def minVersion : RequestKind → Nat
  | helperTrieProof => 2
  | _ => 1

/-- How many base timeouts a peer gets to answer: proofs take twice as long. -/
def timeoutFactor : RequestKind → Nat
  | stateProof => 2
  | helperTrieProof => 2
  | _ => 1

def ofName? (s : String) : Option RequestKind :=
  all.find? fun k => k.name == s

end RequestKind

/-- A trie that is built over one section of the chain. -/
inductive HelperTrie where
  /-- Block number to block hash and total difficulty. -/
  | canonicalHash
  /-- Bloom bit index and section to compressed bloom bits. -/
  | bloom
  deriving Repr, DecidableEq, Inhabited

namespace HelperTrie

def all : List HelperTrie :=
  [canonicalHash, bloom]

/-- The number that names the trie in a request. -/
def wire : HelperTrie → UInt32
  | canonicalHash => 1
  | bloom => 2

/-- The trie that a number names. -/
def ofWire? (v : UInt32) : Option HelperTrie :=
  all.find? fun t => t.wire == v

/-- The name used in settings. -/
def name : HelperTrie → String
  | canonicalHash => "cht"
  | bloom => "bloomTrie"

/-- The name used in logs and messages. -/
def title : HelperTrie → String
  | canonicalHash => "Cht"
  | bloom => "BloomTrie"

def ofName? (s : String) : Option HelperTrie :=
  all.find? fun t => t.name == s

end HelperTrie

end LightClient
