/-
Module: LightClient.HelperTrie
Purpose: Keys and values of the helper tries, and the blocks a section covers.
Main exports: HelperTrie.blockKey, HelperTrie.blockValue, HelperTrie.parseBlockValue,
  HelperTrie.bitKey
-/
import LightClient.Digest
import LightClient.Request.Kind

namespace LightClient

namespace HelperTrie

/-- The key of a block in a canonical hash trie. -/
def blockKey (number : UInt64) : Bytes :=
  Bytes.bigEndian 8 number.toNat

/-- The value of a block in a canonical hash trie: its hash, and the total difficulty in 16
bytes. -/
def blockValue (hash : Digest) (totalDifficulty : Nat) : Bytes :=
  hash.bytes ++ Bytes.bigEndian 16 totalDifficulty

/-- Splits the value of a block into hash and total difficulty. -/
def parseBlockValue (value : Bytes) : Option (Digest × Nat) :=
  if value.length = 48 then
    (Digest.ofBytes? (value.take 32)).map fun hash => (hash, Bytes.ofBigEndian (value.drop 32))
  else
    none

/-- The key of a bloom bit of a section in a bloom trie. -/
def bitKey (bit : UInt16) (sectionIndex : UInt64) : Bytes :=
  Bytes.bigEndian 2 bit.toNat ++ Bytes.bigEndian 8 sectionIndex.toNat

end HelperTrie

end LightClient
