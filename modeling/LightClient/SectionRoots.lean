/-
Module: LightClient.SectionRoots
Purpose: The roots of helper trie sections that the client trusts.
Main exports: TrustedRoot, SectionRoots, SectionRoots.set, SectionRoots.find?, SectionRoots.accept
-/
import LightClient.Error
import LightClient.Table

namespace LightClient

/-- The root of a section. Proofs may be checked against confirmed roots only. -/
structure TrustedRoot where
  sectionIndex : UInt64
  root : Digest
  confirmed : Bool
  deriving DecidableEq

/-- The known roots of sections. -/
abbrev SectionRoots := Table (HelperTrie × UInt64) TrustedRoot

namespace SectionRoots

def set (r : SectionRoots) (trie : HelperTrie) (index : UInt64) (root : Digest)
    (confirmed : Bool) : SectionRoots :=
  Table.insert r (trie, index) ⟨index, root, confirmed⟩

def find? (r : SectionRoots) (trie : HelperTrie) (index : UInt64) : Option TrustedRoot :=
  Table.get? r (trie, index)

/-- What a lookup of a section's root may come to. -/
abbrev Answer := Except RetrievalError (Option TrustedRoot)

/-- Takes the root out of an answer: only a confirmed root of this very section will do. -/
def accept (trie : HelperTrie) (index : UInt64) : Answer → Except RetrievalError Digest
  | .error e => .error e
  | .ok (some r) =>
    if r.confirmed ∧ r.sectionIndex = index then .ok r.root
    else .error (.noTrustedRoot trie index)
  | .ok none => .error (.noTrustedRoot trie index)

end SectionRoots

end LightClient
