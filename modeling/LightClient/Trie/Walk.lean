/-
Module: LightClient.Trie.Walk
Purpose: The walk along a key from a root, and the check of a proof.
Main exports: Trie.Walk, Trie.walk, Trie.verifyProof
-/
import LightClient.Trie.Node

namespace LightClient

namespace Trie

/-- A finished walk: the bytes of the nodes seen, in order, and what they say about the key. -/
structure Walk where
  visited : List Bytes
  result : Except ProofError (Option Bytes)

namespace Walk

/-- The walk that starts one node earlier. -/
def through (raw : Bytes) (w : Walk) : Walk :=
  { w with visited := raw :: w.visited }

end Walk

/-- Walks from the node named `expected` along the nibbles that are left of the key. -/
def walkFrom (lookup : Digest → Option Bytes) (expected : Digest) (rest : Bytes) : Walk :=
  match lookup expected with
  | none => ⟨[], .error (.missingNode expected)⟩
  | some raw =>
    match _hnode : Node.decode expected raw with
    | .error e => ⟨[raw], .error e⟩
    | .ok (.leaf path value) => ⟨[raw], .ok (if rest = path then some value else none)⟩
    | .ok (.extension path child) =>
      if _hpath : path.isPrefixOf rest then
        (walkFrom lookup child (rest.drop path.length)).through raw
      else
        ⟨[raw], .ok none⟩
    | .ok (.branch children value) =>
      match rest with
      | [] => ⟨[raw], .ok value⟩
      | n :: rest =>
        match (children[n.toNat]?).join with
        | none => ⟨[raw], .ok none⟩
        | some child => (walkFrom lookup child rest).through raw
termination_by rest.length
decreasing_by
  · have hne := Node.path_ne_nil_of_decode _hnode
    have hle : path.length ≤ rest.length := (List.isPrefixOf_iff_prefix.mp _hpath).length_le
    have hpos : 0 < path.length := List.length_pos_iff.mpr hne
    simp only [List.length_drop]
    omega
  · simp

/-- Walks the whole key from a root; the root of the empty trie needs no node. -/
def walk (lookup : Digest → Option Bytes) (root : Digest) (key : Bytes) : Walk :=
  if root = emptyRoot then ⟨[], .ok none⟩ else walkFrom lookup root (nibbles key)

/-- Nodes filed under their digests. -/
abbrev NodeIndex := List (Digest × Bytes)

namespace NodeIndex

/-- The node filed under a digest. -/
def find (index : NodeIndex) (name : Digest) : Option Bytes :=
  index.lookup name

/-- Files nodes under their digests, the last one first. -/
def ofNodes (nodes : List Bytes) : NodeIndex :=
  (nodes.map fun raw => (sha256 raw, raw)).reverse

end NodeIndex

/-- What the given nodes prove about a key below a trusted root: its value, its absence, or
nothing. -/
def verifyProof (root : Digest) (key : Bytes) (nodes : List Bytes) :
    Except ProofError (Option Bytes) :=
  let index := NodeIndex.ofNodes nodes
  (walk index.find root key).result

end Trie

end LightClient
