/-
Module: LightClient.Proofs.Trie.Codec
Purpose: Exactly the well-formed nodes are read back from their bytes, nothing else is ever read,
  and a trie is built of nothing else.
Main exports: Trie.Node.wellFormed_of_decode, Trie.Planted.wellFormed, Trie.nodes_coded_exactly
-/
import LightClient.Proofs.Trie.Content

namespace LightClient

namespace Trie

/-! ### What is read -/

namespace Node

variable {m : Wire.NodeMessage} {n : Node}

theorem wellFormed_of_leafOfMessage (hpath : ∀ x ∈ m.path, x < 16)
    (h : leafOfMessage m = .ok n) : n.WellFormed := by
  unfold leafOfMessage at h
  split at h
  · cases h
  · split at h
    · cases h
    next hvalue =>
      cases h
      exact ⟨hpath, hvalue⟩

theorem wellFormed_of_extensionOfMessage (hpath : ∀ x ∈ m.path, x < 16)
    (h : extensionOfMessage m = .ok n) : n.WellFormed := by
  unfold extensionOfMessage at h
  split at h
  · cases h
  next hsome =>
    split at h
    · split at h
      · cases h
        exact ⟨hpath, hsome⟩
      · cases h
    · cases h

theorem wellFormed_of_branchOfMessage (h : branchOfMessage m = .ok n) : n.WellFormed := by
  unfold branchOfMessage at h
  split at h
  · cases h
  · split at h
    · split at h
      · split at h
        · cases h
          -- an empty value is read as none
          show (if m.value = [] then none else some m.value) ≠ some []
          split
          · exact nofun
          next hvalue => exact fun heq => hvalue (Option.some.inj heq)
        · cases h
      · cases h
    · cases h

theorem wellFormed_of_ofMessage (h : ofMessage m = .ok n) : n.WellFormed := by
  unfold ofMessage at h
  split at h
  · cases h
  next hany =>
    have hpath : ∀ x ∈ m.path, x < 16 := by
      intro x hx
      by_contra hlarge
      exact hany (List.any_eq_true.mpr ⟨x, hx, decide_eq_true (UInt8.not_lt.mp hlarge)⟩)
    split at h
    · cases h
    · exact wellFormed_of_leafOfMessage hpath h
    · exact wellFormed_of_extensionOfMessage hpath h
    · exact wellFormed_of_branchOfMessage h

/-- Whatever the bytes are, a node that is read from them is well-formed. -/
theorem wellFormed_of_decode {name : Digest} {bs : Bytes} (h : decode name bs = .ok n) :
    n.WellFormed := by
  unfold decode at h
  split at h
  · cases h
  next m _ =>
    cases hm : ofMessage m with
    | error fault =>
      rw [hm] at h
      cases h
    | ok found =>
      rw [hm] at h
      cases h
      exact wellFormed_of_ofMessage hm

end Node

/-! ### What a trie is built of -/

/-- Entries that a trie can hold are planted as well-formed nodes only. -/
theorem Planted.wellFormed {entries : List (Bytes × Bytes)} {n : Node} (h : Planted entries n)
    (hproper : Proper entries) : n.WellFormed := by
  induction h with
  | leaf path value => exact hproper _ List.mem_cons_self
  | extension many shared =>
    exact ⟨hproper.commonPath (List.ne_nil_of_length_pos (by omega)), shared⟩
  | belowExtension many shared _ ih => exact ih (hproper.dropPath _)
  | branch many parting =>
    -- the value of a branch is one of the entries, none of which is empty
    intro hempty
    exact (hproper _ (mem_of_lookup hempty)).2 rfl
  | belowBranch many parting _ _ ih => exact ih (hproper.under _)

/-- Nodes and their bytes determine each other. A well-formed node is read back from its bytes,
whatever digest it is known by, as long as the lengths in it are words, as those of anything that
memory holds; a node that is read back is well-formed, and so is any that is read from any bytes. No
two well-formed nodes have the same bytes. The nodes of a trie are those that are planted where it
grows, and all of them are well-formed, whatever the entries are. -/
theorem nodes_coded_exactly :
    (∀ (n : Node) (name : Digest), n.Fits → (Node.decode name n.encode = .ok n ↔ n.WellFormed)) ∧
      (∀ a b : Node, a.WellFormed → b.WellFormed → a.encode = b.encode → a = b) ∧
      (∀ (name : Digest) (bs : Bytes) (n : Node),
        Node.decode name bs = .ok n → n.WellFormed) ∧
      ∀ entries : List (Bytes × Bytes),
        (∀ entry, entry ∈ (build entries).nodes ↔
          ∃ n, Planted (content entries) n ∧ entry = (sha256 n.encode, n.encode)) ∧
        ∀ n, Planted (content entries) n → n.WellFormed := by
  refine ⟨fun n name hfits => ?_, fun a b => Node.encode_inj, fun name bs n =>
    Node.wellFormed_of_decode, fun entries => ⟨fun entry => mem_nodes_grow_iff, fun n hn => ?_⟩⟩
  · exact ⟨Node.wellFormed_of_decode, fun hform => Node.decode_encode name hform hfits⟩
  · exact hn.wellFormed (proper_content entries)

/-- Below the branch where the empty key has its value, the rest of the other key is planted as a
leaf, which is read back; a leaf whose path goes on with a number that is no nibble is not. -/
theorem nodes_coded_exactly_of_prefix_key :
    let entries : List (Bytes × Bytes) := [([], [1]), ([0x12], [2]), ([], [])]
    let n : Node := .leaf [2] [2]
    let bad : Node := .leaf [16] [2]
    n.Fits ∧ n.WellFormed ∧ Node.decode Digest.zero n.encode = .ok n ∧
      Planted (content entries) n ∧ (sha256 n.encode, n.encode) ∈ (build entries).nodes ∧
      bad.Fits ∧ Node.decode Digest.zero bad.encode ≠ .ok bad := by
  intro entries n bad
  obtain ⟨hread, _, _, hbuilt⟩ := nodes_coded_exactly
  obtain ⟨hnodes, hform⟩ := hbuilt entries
  have hcontent : content entries = [([], [1]), ([1, 2], [2])] := by decide
  have hplanted : Planted (content entries) n := by
    rw [hcontent]
    exact @Planted.belowBranch _ n 1 (by decide) (by decide) (by decide) (.leaf [2] [2])
  have hfits : n.Fits := ⟨by decide, by decide⟩
  have hbad : bad.Fits := ⟨by decide, by decide⟩
  refine ⟨hfits, hform n hplanted, (hread n Digest.zero hfits).mpr (hform n hplanted), hplanted,
    (hnodes _).mpr ⟨n, hplanted, rfl⟩, hbad, fun h => ?_⟩
  have hnibble := ((hread bad Digest.zero hbad).mp h).1 16 List.mem_cons_self
  exact absurd hnibble (by decide)

end Trie

end LightClient
