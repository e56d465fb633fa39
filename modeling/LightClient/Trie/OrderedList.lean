/-
Module: LightClient.Trie.OrderedList
Purpose: Roots that commit to a list of byte strings, such as the transactions of a block.
Main exports: Trie.orderedKey, Trie.orderedValue, Trie.orderedRoot
-/
import LightClient.Trie.Build

namespace LightClient

namespace Trie

def orderedKey (index : Nat) : Bytes :=
  Bytes.bigEndian 4 index

/-- The value of an item: its length first, so that an empty item takes its place too. -/
def orderedValue (item : Bytes) : Bytes :=
  Bytes.bigEndian 4 item.length ++ item

def orderedEntries (items : List Bytes) : List (Bytes × Bytes) :=
  items.zipIdx.map fun p => (orderedKey p.2, orderedValue p.1)

def orderedRoot (items : List Bytes) : Digest :=
  (build (orderedEntries items)).root

end Trie

end LightClient
