/-
Module: LightClient.Proofs.Trie.Traversal
Purpose: The loop of a walk ends, whatever nodes it is given: each round passes nibbles of the key or
  is the last one, and none reaches beyond the key or beyond the children of a branch. What the loop
  comes to is the walk.
Main exports: Trie.Node.exists_move, Trie.Cursor.exists_round, Trie.Cursor.Reaches,
  Trie.Cursor.exists_last, Trie.traverse_eq, Trie.gather_eq, Trie.traverse_ends
-/
import LightClient.Proofs.Trie.Content
import LightClient.Trie.Cursor

namespace LightClient

namespace Trie

section Loop

variable {lookup : Digest → Option Bytes} {nibbles : Bytes}

/-! ### Rounds of the loop against steps of the walk -/

/-- A move of the loop follows a turn of the walk: it ends with the same, or it goes on at the same
child with the same nibbles left. -/
inductive Move.Follows (nibbles : Bytes) : Turn → Move → Prop where
  | stop (value : Option Bytes) : Follows nibbles (.stop value) (.stop value)
  | go (next : Cursor) : Follows nibbles (.go next.expected (nibbles.drop next.position)) (.go next)

/-- Within the key, a node has a move that follows its turn. -/
theorem Node.exists_move (hnibbles : ∀ n ∈ nibbles, n < 16) {position : Nat}
    (hposition : position ≤ nibbles.length) (n : Node) :
    ∃ m, n.move nibbles position = .ok m ∧ m.Follows nibbles (n.turn (nibbles.drop position)) := by
  have hrest := Checked.rest_eq_ok.mpr ⟨hposition, rfl⟩
  cases n with
  | leaf path value => exact ⟨_, bind_eq_ok.mpr ⟨_, hrest, rfl⟩, .stop _⟩
  | extension path child =>
    simp only [turn]
    split
    next hprefix =>
      refine ⟨_, bind_eq_ok.mpr ⟨_, hrest, if_pos hprefix⟩, ?_⟩
      rw [List.drop_drop]
      exact .go ⟨position + path.length, child⟩
    next hother => exact ⟨_, bind_eq_ok.mpr ⟨_, hrest, if_neg hother⟩, .stop none⟩
  | branch children value =>
    by_cases hend : position = nibbles.length
    · rw [hend, List.drop_length, move, if_pos rfl]
      exact ⟨_, rfl, .stop value⟩
    · have hlt : position < nibbles.length := Nat.lt_of_le_of_ne hposition hend
      have hnibble := Checked.item_eq_ok.mpr (List.getElem?_eq_getElem hlt)
      -- a nibble is the index of one of the sixteen children
      have hsmall : nibbles[position].toNat < children.toList.length := by
        rw [Vector.length_toList]
        exact UInt8.lt_iff_toNat_lt.mp (hnibbles _ (List.getElem_mem hlt))
      have hchild := Checked.item_eq_ok.mpr (List.getElem?_eq_getElem hsmall)
      have hjoin : (children[nibbles[position].toNat]?).join =
          children.toList[nibbles[position].toNat] := by
        rw [Vector.getElem?_eq_getElem (by simpa using hsmall), Option.join_some,
          Vector.getElem_toList]
      rw [move, if_neg hend, List.drop_eq_getElem_cons hlt]
      simp only [turn, hjoin]
      cases hslot : children.toList[nibbles[position].toNat] with
      | none =>
        rw [hslot] at hchild
        exact ⟨_, bind_eq_ok.mpr ⟨_, hnibble, bind_eq_ok.mpr ⟨_, hchild, rfl⟩⟩, .stop none⟩
      | some child =>
        rw [hslot] at hchild
        exact ⟨_, bind_eq_ok.mpr ⟨_, hnibble, bind_eq_ok.mpr ⟨_, hchild, rfl⟩⟩,
          .go ⟨position + 1, child⟩⟩

/-- A round of the loop follows the walk: it is the last one, or the walk goes on where the round
leads. -/
inductive Round.Follows (lookup : Digest → Option Bytes) (nibbles : Bytes) : Walk → Round → Prop where
  | last (w : Walk) (single : w.visited.length ≤ 1) : Follows lookup nibbles w (.last w)
  | further (raw : Bytes) (next : Cursor) : Follows lookup nibbles
      ((walkFrom lookup next.expected (nibbles.drop next.position)).through raw) (.further raw next)

namespace Cursor

variable {start c : Cursor} {passed : List Bytes}

/-- Within the key, every round comes to something, and follows the walk. -/
theorem exists_round (hnibbles : ∀ n ∈ nibbles, n < 16) (hc : c.position ≤ nibbles.length) :
    ∃ r, c.round lookup nibbles = .ok r ∧
      r.Follows lookup nibbles (walkFrom lookup c.expected (nibbles.drop c.position)) := by
  rw [walkFrom_eq]
  unfold round
  cases lookup c.expected with
  | none => exact ⟨_, rfl, .last _ (Nat.zero_le 1)⟩
  | some raw =>
    simp only
    cases Node.decode c.expected raw with
    | error e => exact ⟨_, rfl, .last _ (Nat.le_refl 1)⟩
    | ok n =>
      obtain ⟨m, hmove, hfollows⟩ := n.exists_move hnibbles hc
      simp only [hmove]
      generalize n.turn (nibbles.drop c.position) = turn at hfollows
      cases hfollows with
      | stop value => exact ⟨_, rfl, .last _ (Nat.le_refl 1)⟩
      | go next => exact ⟨_, rfl, .further raw next⟩

/-! ### Where the loop gets to -/

/-- Round after round, the loop gets to a cursor, behind the nodes that it has visited. -/
inductive Reaches (lookup : Digest → Option Bytes) (nibbles : Bytes) (start : Cursor) :
    List Bytes → Cursor → Prop where
  | start : Reaches lookup nibbles start [] start
  | round {passed : List Bytes} {c next : Cursor} {raw : Bytes}
      (before : Reaches lookup nibbles start passed c)
      (hround : c.round lookup nibbles = .ok (.further raw next)) :
      Reaches lookup nibbles start (passed ++ [raw]) next

/-- Wherever the loop gets to, it is still within the key, and each node that it has visited has
brought it forward. -/
theorem Reaches.within (hstart : start.position ≤ nibbles.length)
    (h : Reaches lookup nibbles start passed c) :
    start.position + passed.length ≤ c.position ∧ c.position ≤ nibbles.length := by
  induction h with
  | start => exact ⟨Nat.le_refl _, hstart⟩
  | round before hround ih =>
    obtain ⟨hforward, hwithin⟩ := position_lt_of_round hround
    rw [List.length_append, List.length_singleton]
    exact ⟨by omega, hwithin⟩

theorem Reaches.after {next : Cursor} {raw : Bytes}
    (hround : start.round lookup nibbles = .ok (.further raw next))
    (h : Reaches lookup nibbles next passed c) :
    Reaches lookup nibbles start (raw :: passed) c := by
  induction h with
  | start => exact .round .start hround
  | round _ hround' ih => exact .round ih hround'

/-- The loop gets to a last round, and comes to what it has visited by then and what this round comes
to, as the walk along what is left of the key does. -/
theorem exists_last (hnibbles : ∀ n ∈ nibbles, n < 16) (hstart : start.position ≤ nibbles.length) :
    ∃ passed c w, Reaches lookup nibbles start passed c ∧
      c.round lookup nibbles = .ok (.last w) ∧ w.visited.length ≤ 1 ∧
      loop lookup nibbles start = .ok ⟨passed ++ w.visited, w.result⟩ ∧
      walkFrom lookup start.expected (nibbles.drop start.position) =
        ⟨passed ++ w.visited, w.result⟩ := by
  -- Each round passes nibbles of the key, so the induction is on how many of them are left.
  induction hleft : nibbles.length - start.position using Nat.strongRecOn generalizing start with
  | ind left ih =>
    subst hleft
    obtain ⟨r, hround, hfollows⟩ := @exists_round lookup _ _ hnibbles hstart
    generalize walkFrom lookup start.expected (nibbles.drop start.position) = walked at hfollows
    rw [loop, hround]
    cases hfollows with
    | last _ single => exact ⟨[], start, walked, .start, hround, single, rfl, rfl⟩
    | further raw next =>
      obtain ⟨hforward, hwithin⟩ := position_lt_of_round hround
      obtain ⟨passed, c, w, hreaches, hlast, hsingle, hloop, hwalk⟩ := ih _ (by omega) hwithin rfl
      refine ⟨raw :: passed, c, w, hreaches.after hround, hlast, hsingle, ?_, ?_⟩
      · simp only [hloop]
        rfl
      · rw [hwalk]
        rfl

/-- What the loop comes to is the walk along what is left of the key. -/
theorem loop_eq (hnibbles : ∀ n ∈ nibbles, n < 16) (hstart : start.position ≤ nibbles.length) :
    loop lookup nibbles start =
      .ok (walkFrom lookup start.expected (nibbles.drop start.position)) := by
  obtain ⟨_, _, _, _, _, _, hloop, hwalk⟩ := @exists_last lookup _ _ hnibbles hstart
  rw [hloop, hwalk]

end Cursor

end Loop

/-! ### The whole walk -/

/-- The loop comes to the walk: it ends, and nothing it does reaches too far. -/
theorem traverse_eq (lookup : Digest → Option Bytes) (root : Digest) (key : Bytes) :
    traverse emptyRoot lookup root key = .ok (walk lookup root key) := by
  unfold traverse walk
  split
  next => rfl
  next => exact Cursor.loop_eq (nibbles_lt key) (Nat.zero_le _)

/-- The nodes that the cursor gathers are those that the trie proves a key with. -/
theorem gather_eq (t : Trie) (key : Bytes) : t.gather key = .ok (t.prove key) := by
  rw [gather, traverse_eq]
  rfl

/-- A walk always ends, whatever is found under the digests that it comes across, also if nodes refer
to each other in a circle, and whatever digest stands for the trie without entries. It visits at most
one node for each nibble of the key and one more, and comes to a value, an absence or an error. At
each round on the way there the position lies within the key, and the round reaches neither beyond
the key nor beyond the children of a branch. -/
theorem traverse_ends (empty : Digest) (lookup : Digest → Option Bytes) (root : Digest)
    (key : Bytes) :
    (∃ w, traverse empty lookup root key = .ok w ∧ w.visited.length ≤ 2 * key.length + 1 ∧
        (empty = emptyRoot → w = walk lookup root key)) ∧
      (∀ passed c, Cursor.Reaches lookup (nibbles key) ⟨0, root⟩ passed c →
        passed.length ≤ c.position ∧ c.position ≤ (nibbles key).length ∧
          ∃ r, c.round lookup (nibbles key) = .ok r) ∧
      ∃ passed c w, Cursor.Reaches lookup (nibbles key) ⟨0, root⟩ passed c ∧
        c.round lookup (nibbles key) = .ok (.last w) ∧
        (root ≠ empty →
          traverse empty lookup root key = .ok ⟨passed ++ w.visited, w.result⟩) := by
  have hstart : (⟨0, root⟩ : Cursor).position ≤ (nibbles key).length := Nat.zero_le _
  obtain ⟨passed, c, w, hreaches, hlast, hsingle, hloop, hwalk⟩ :=
    @Cursor.exists_last lookup _ _ (nibbles_lt key) hstart
  have hbound := hreaches.within hstart
  rw [length_nibbles] at hbound
  refine ⟨?_, ?_, passed, c, w, hreaches, hlast, fun hroot => (if_neg hroot).trans hloop⟩
  · by_cases hroot : root = empty
    · refine ⟨⟨[], .ok none⟩, if_pos hroot, Nat.zero_le _, ?_⟩
      rintro rfl
      exact (if_pos hroot).symm
    · refine ⟨_, (if_neg hroot).trans hloop, ?_, ?_⟩
      · simp only [List.length_append]
        omega
      · rintro rfl
        rw [walk, if_neg hroot]
        exact hwalk.symm
  · intro passed c h
    obtain ⟨hforward, hwithin⟩ := h.within hstart
    obtain ⟨r, hround, _⟩ := @Cursor.exists_round lookup _ _ (nibbles_lt key) hwithin
    exact ⟨(Nat.le_add_left _ _).trans hforward, hwithin, r, hround⟩

set_option maxRecDepth 100000 in
/-- A branch that is found under every digest, so that it is below each of its own nibbles again: the
walk goes round in a circle until the key is over, and visits as many nodes as it ever may. -/
theorem traverse_ends_in_circle :
    let ring := Node.encode (.branch (Vector.replicate 16 (some (sha256 [1]))) none)
    ∃ w, traverse emptyRoot (fun _ => some ring) (sha256 [1]) [0xab, 0xcd] = .ok w ∧
      w.visited = List.replicate 5 ring ∧ w.result = .ok none ∧
      w.visited.length = 2 * [0xab, (0xcd : UInt8)].length + 1 := by
  intro ring
  obtain ⟨⟨w, hw, _, hwalk⟩, _⟩ :=
    traverse_ends emptyRoot (fun _ => some ring) (sha256 [1]) [0xab, 0xcd]
  have hvisited : (walk (fun _ => some ring) (sha256 [1]) [0xab, 0xcd]).visited =
      List.replicate 5 ring := by decide +kernel
  have hresult : (walk (fun _ => some ring) (sha256 [1]) [0xab, 0xcd]).result = .ok none := by
    decide +kernel
  rw [← hwalk rfl] at hvisited hresult
  exact ⟨w, hw, hvisited, hresult, by rw [hvisited]; rfl⟩

end Trie

end LightClient
