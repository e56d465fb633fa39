/-
Module: LightClient.Trie.Node
Purpose: Trie nodes, their bytes, and the layout rules that bytes have to keep to be a node.
Main exports: Trie.Node, Trie.Node.encode, Trie.Node.decode, Trie.ProofError, Trie.nibbles
-/
import LightClient.Digest
import LightClient.Wire.Payloads

namespace LightClient

namespace Trie

/-- The nibbles of a key, high nibble first. -/
def nibbles (key : Bytes) : Bytes :=
  key.flatMap fun b => [b / 16, b % 16]

/-- The root of a trie without entries. -/
def emptyRoot : Digest :=
  sha256 []

/-- A node of a trie; nodes refer to each other by the digest of their bytes. -/
inductive Node where
  /-- The end of a key: the nibbles that are left of it, and its value. -/
  | leaf (path : Bytes) (value : Bytes)
  /-- Nibbles that all keys below share. -/
  | extension (path : Bytes) (child : Digest)
  /-- One child for each next nibble, and the value of the key that ends here. -/
  | branch (children : Vector (Option Digest) 16) (value : Option Bytes)
  deriving DecidableEq

/-- A layout rule that a node breaks. -/
inductive LayoutFault where
  | notNibbles
  | unknownType
  | leafWithChildren
  | leafWithoutValue
  | extensionWithoutPath
  | extensionChildCount
  | branchWithPath
  | branchChildCount
  | childNotDigest
  deriving Repr, DecidableEq

namespace LayoutFault

def message : LayoutFault → String
  | notNibbles => "path contains a non-nibble"
  | unknownType => "unknown node type"
  | leafWithChildren => "leaf with children"
  | leafWithoutValue => "leaf without value"
  | extensionWithoutPath => "extension without path"
  | extensionChildCount => "extension needs exactly one child"
  | branchWithPath => "branch with path"
  | branchChildCount => "branch needs 16 children"
  | childNotDigest => "child is not a hash"

end LayoutFault

/-- Why nodes prove nothing about a key. -/
inductive ProofError where
  | missingNode (node : Digest)
  | undecodable (node : Digest)
  | malformed (node : Digest) (fault : LayoutFault)
  deriving DecidableEq

namespace ProofError

def message : ProofError → String
  | missingNode node => "missing trie node " ++ node.text
  | undecodable node => "undecodable trie node " ++ node.text
  | malformed node fault => "malformed trie node " ++ node.text ++ ": " ++ fault.message

end ProofError

namespace Node

/-- The message a node is written as; a branch writes an empty child where it has none. -/
def toMessage : Node → Wire.NodeMessage
  | leaf path value => ⟨Wire.NodeType.leaf.number, path, [], value⟩
  | extension path child => ⟨Wire.NodeType.extension.number, path, [child.bytes], []⟩
  | branch children value =>
    ⟨Wire.NodeType.branch.number, [],
     children.toList.map fun c => (c.map Digest.bytes).getD [], value.getD []⟩

def encode (n : Node) : Bytes :=
  Wire.Message.encode n.toMessage

/-- Reads a child of a branch, which is empty or a digest. -/
def child? (bs : Bytes) : Option (Option Digest) :=
  if bs = [] then some none else (Digest.ofBytes? bs).map some

def leafOfMessage (m : Wire.NodeMessage) : Except LayoutFault Node :=
  if m.children ≠ [] then .error .leafWithChildren
  else if m.value = [] then .error .leafWithoutValue
  else .ok (leaf m.path m.value)

def extensionOfMessage (m : Wire.NodeMessage) : Except LayoutFault Node :=
  if m.path = [] then .error .extensionWithoutPath
  else match m.children with
    | [c] =>
      match Digest.ofBytes? c with
      | some child => .ok (extension m.path child)
      | none => .error .childNotDigest
    | _ => .error .extensionChildCount

def branchOfMessage (m : Wire.NodeMessage) : Except LayoutFault Node :=
  if m.path ≠ [] then .error .branchWithPath
  else if m.children.length = 16 then
    match m.children.mapM child? with
    | some children =>
      if h : children.length = 16 then
        .ok (branch ⟨children.toArray, h⟩ (if m.value = [] then none else some m.value))
      else .error .branchChildCount
    | none => .error .childNotDigest
  else .error .branchChildCount

def ofMessage (m : Wire.NodeMessage) : Except LayoutFault Node :=
  if m.path.any fun n => 16 ≤ n then .error .notNibbles
  else match Wire.NodeType.ofNumber m.type with
    | .unspecified => .error .unknownType
    | .leaf => leafOfMessage m
    | .extension => extensionOfMessage m
    | .branch => branchOfMessage m

/-- Reads the node that is known by the digest `name` from its bytes. -/
def decode (name : Digest) (bs : Bytes) : Except ProofError Node :=
  match Wire.Message.decode? bs with
  | none => .error (.undecodable name)
  | some m =>
    match ofMessage m with
    | .ok n => .ok n
    | .error fault => .error (.malformed name fault)

/-- Nodes that have bytes of their own: nibbles for a path, no empty value, and no empty path in
an extension. -/
def WellFormed : Node → Prop
  | leaf path value => (∀ n ∈ path, n < 16) ∧ value ≠ []
  | extension path _ => (∀ n ∈ path, n < 16) ∧ path ≠ []
  | branch _ value => value ≠ some []

theorem path_ne_nil_of_ofMessage {m : Wire.NodeMessage} {path : Bytes} {child : Digest}
    (h : ofMessage m = .ok (extension path child)) : path ≠ [] := by
  unfold ofMessage at h
  split at h
  · cases h
  · split at h
    · cases h
    · unfold leafOfMessage at h
      split at h
      · cases h
      · split at h <;> cases h
    · unfold extensionOfMessage at h
      split at h
      · cases h
      · rename_i hpath
        split at h
        · split at h
          · cases h
            exact hpath
          · cases h
        · cases h
    · unfold branchOfMessage at h
      split at h
      · cases h
      · split at h
        · split at h
          · split at h <;> cases h
          · cases h
        · cases h

/-- An extension that was read has a path, so that a walk through it moves on. -/
theorem path_ne_nil_of_decode {name : Digest} {bs path : Bytes} {child : Digest}
    (h : decode name bs = .ok (extension path child)) : path ≠ [] := by
  unfold decode at h
  split at h
  · cases h
  · rename_i m _
    cases hm : ofMessage m with
    | error fault => simp [hm] at h
    | ok n =>
      simp only [hm, Except.ok.injEq] at h
      subst h
      exact path_ne_nil_of_ofMessage hm

end Node

end Trie

end LightClient
