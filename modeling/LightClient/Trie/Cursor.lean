/-
Module: LightClient.Trie.Cursor
Purpose: The walk along a key as a loop with a position in the key, where every access to the key
  and to the children of a branch is checked.
Main exports: Trie.Cursor, Trie.Node.move, Trie.Cursor.round, Trie.Cursor.loop, Trie.traverse,
  Trie.gather
-/
import LightClient.Checked
import LightClient.Trie.Build

namespace LightClient

namespace Trie

/-- Where the loop of a walk stands: so many nibbles of the key lie behind it, and this node is
next. -/
structure Cursor where
  position : Nat
  expected : Digest
  deriving DecidableEq

/-- Where a node sends the loop. -/
inductive Move where
  /-- The walk ends with a value or an absence. -/
  | stop (value : Option Bytes)
  /-- The walk goes on at a child. -/
  | go (next : Cursor)

/-- The move at a node, for the nibbles of the whole key. -/
def Node.move (nibbles : Bytes) (position : Nat) : Node → Except Overrun Move
  | .leaf path value => do
    let rest ← Checked.rest nibbles position
    .ok (.stop (if rest = path then some value else none))
  | .extension path child => do
    let rest ← Checked.rest nibbles position
    if path.isPrefixOf rest then .ok (.go ⟨position + path.length, child⟩) else .ok (.stop none)
  | .branch children value =>
    if position = nibbles.length then .ok (.stop value)
    else do
      let nibble ← Checked.item nibbles position
      match ← Checked.item children.toList nibble.toNat with
      | none => .ok (.stop none)
      | some child => .ok (.go ⟨position + 1, child⟩)

/-- What one round of the loop comes to. -/
inductive Round where
  /-- The walk is over. -/
  | last (w : Walk)
  /-- The walk goes on behind the node with these bytes. -/
  | further (raw : Bytes) (next : Cursor)

/-- A move to a child passes nibbles of the key, and never more than it has. -/
theorem Node.position_lt_of_move {name : Digest} {raw nibbles : Bytes} {position : Nat} {n : Node}
    {next : Cursor} (hnode : Node.decode name raw = .ok n)
    (hmove : n.move nibbles position = .ok (.go next)) :
    position < next.position ∧ next.position ≤ nibbles.length := by
  cases n with
  | leaf path value =>
    obtain ⟨rest, _, h⟩ := bind_eq_ok.mp hmove
    cases h
  | extension path child =>
    obtain ⟨rest, hrest, h⟩ := bind_eq_ok.mp hmove
    obtain ⟨hposition, rfl⟩ := Checked.rest_eq_ok.mp hrest
    split at h
    next hprefix =>
      cases h
      have hpath := List.length_pos_iff.mpr (Node.path_ne_nil_of_decode hnode)
      have hle := (List.isPrefixOf_iff_prefix.mp hprefix).length_le
      rw [List.length_drop] at hle
      simp only
      omega
    next => cases h
  | branch children value =>
    simp only [move] at hmove
    split at hmove
    next => cases hmove
    next =>
      obtain ⟨nibble, hnibble, h⟩ := bind_eq_ok.mp hmove
      obtain ⟨child, _, h⟩ := bind_eq_ok.mp h
      have hlt := (List.getElem?_eq_some_iff.mp (Checked.item_eq_ok.mp hnibble)).1
      split at h
      next => cases h
      next =>
        cases h
        exact ⟨Nat.lt_succ_self position, hlt⟩

namespace Cursor

variable (lookup : Digest → Option Bytes) (nibbles : Bytes)

/-- One round of the loop: the node that is next is looked up and read, and says where to go. -/
def round (c : Cursor) : Except Overrun Round :=
  match lookup c.expected with
  | none => .ok (.last ⟨[], .error (.missingNode c.expected)⟩)
  | some raw =>
    match Node.decode c.expected raw with
    | .error e => .ok (.last ⟨[raw], .error e⟩)
    | .ok n => do
      match ← n.move nibbles c.position with
      | .stop value => .ok (.last ⟨[raw], .ok value⟩)
      | .go next => .ok (.further raw next)

variable {lookup nibbles}

/-- A round after which the walk goes on brings it forward in the key. -/
theorem position_lt_of_round {c next : Cursor} {raw : Bytes}
    (h : c.round lookup nibbles = .ok (.further raw next)) :
    c.position < next.position ∧ next.position ≤ nibbles.length := by
  unfold round at h
  split at h
  next => cases h
  next found _ =>
    split at h
    next => cases h
    next n hnode =>
      obtain ⟨move, hmove, h⟩ := bind_eq_ok.mp h
      split at h
      next => cases h
      next =>
        cases h
        exact Node.position_lt_of_move hnode hmove

variable (lookup nibbles)

/-- The loop: round after round until the walk is over. -/
def loop (c : Cursor) : Except Overrun Walk :=
  match _hround : c.round lookup nibbles with
  | .error overrun => .error overrun
  | .ok (.last w) => .ok w
  | .ok (.further raw next) => (loop next).map (Walk.through raw)
termination_by nibbles.length - c.position
decreasing_by
  have h := position_lt_of_round _hround
  omega

end Cursor

/-- The walk along a whole key. The root of a trie without entries, which is the digest of nothing,
needs no node. -/
def traverse (empty : Digest) (lookup : Digest → Option Bytes) (root : Digest) (key : Bytes) :
    Except Overrun Walk :=
  if root = empty then .ok ⟨[], .ok none⟩
  else Cursor.loop lookup (nibbles key) ⟨0, root⟩

/-- The nodes that prove the value or the absence of a key. -/
def gather (t : Trie) (key : Bytes) : Except Overrun (List Bytes) :=
  (traverse emptyRoot t.nodes.find t.root key).map Walk.visited

end Trie

end LightClient
