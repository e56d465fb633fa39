/-
Module: LightClient.FullNode.Sections
Purpose: The section roots that a full node's own chain confirms.
Main exports: SectionRoots.ofChain
-/
import LightClient.FullNode.SampleChain
import LightClient.SectionRoots

namespace LightClient

namespace SectionRoots

/-- Confirmed roots of all complete sections of a chain. -/
def ofChain (c : SampleChain) : SectionRoots :=
  (List.range c.sections).foldl
    (fun r i =>
      HelperTrie.all.foldl
        (fun r trie =>
          match c.helperTrie? trie (UInt64.ofNat i) with
          | some t => set r trie (UInt64.ofNat i) t.root true
          | none => r)
        r)
    []

end SectionRoots

end LightClient
