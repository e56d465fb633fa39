/-
Module: LightClient.Proofs.Retrieval.SectionBounds
Purpose: The section that a query is tied to and the last block of this section, which a peer has to
  have to serve the request, in exact numbers; the sections that are refused.
Main exports: lastBlock, sectionEnd_ok_iff, sectionEnd_error_iff, block_in_section, Query.BoundTo,
  Query.section_bounds
-/
import Mathlib.Algebra.Group.Nat.Defs
import LightClient.Retrieval.Binding

namespace LightClient

/-! ### The last block of a section -/

/-- The number of the last block of a section, which may be greater than that of any block. -/
def lastBlock (index size : UInt64) : Nat :=
  (index.toNat + 1) * size.toNat - 1

section

variable {index size : UInt64}

/-- The sections up to one have as many blocks as come up to its last block. -/
theorem lastBlock_add_one (hsize : 0 < size.toNat) :
    lastBlock index size + 1 = (index.toNat + 1) * size.toNat :=
  Nat.sub_add_cancel (Nat.mul_pos (Nat.succ_pos _) hsize)

/-- A section has an end if the block after it has a number, and its end is its last block. -/
theorem sectionEnd_ok_iff (hsize : 0 < size.toNat) {last : UInt64} :
    sectionEnd index size = .ok last ↔
      lastBlock index size + 1 < 2 ^ 64 ∧ last.toNat = lastBlock index size := by
  unfold sectionEnd
  rw [← lastBlock_add_one hsize]
  by_cases hfits : lastBlock index size + 1 < 2 ^ 64
  · have hword : (UInt64.ofNat (lastBlock index size)).toNat = lastBlock index size :=
      UInt64.toNat_ofNat_of_lt' (Nat.lt_of_succ_lt hfits)
    rw [if_pos (show _ < UInt64.size from hfits), Nat.add_sub_cancel, Except.ok.injEq,
      ← UInt64.toNat_inj, hword]
    exact ⟨fun h => ⟨hfits, h.symm⟩, fun h => h.2.symm⟩
  · rw [if_neg (show ¬ _ < UInt64.size from hfits)]
    exact ⟨nofun, fun h => absurd h.1 hfits⟩

/-- A section is refused if the block after it has no number. -/
theorem sectionEnd_error_iff (hsize : 0 < size.toNat) {e : RetrievalError} :
    sectionEnd index size = .error e ↔
      2 ^ 64 ≤ lastBlock index size + 1 ∧ e = .sectionPastLastBlock index size := by
  unfold sectionEnd
  rw [← lastBlock_add_one hsize]
  by_cases hfits : lastBlock index size + 1 < 2 ^ 64
  · rw [if_pos (show _ < UInt64.size from hfits)]
    exact ⟨nofun, fun h => absurd h.1 (Nat.not_le.mpr hfits)⟩
  · rw [if_neg (show ¬ _ < UInt64.size from hfits), Except.error.injEq]
    exact ⟨fun h => ⟨Nat.not_lt.mp hfits, h.symm⟩, fun h => h.2.symm⟩

/-- A block is in the section whose index is its number divided by the size. -/
theorem block_in_section (hsize : 0 < size.toNat) (number : UInt64) :
    (number / size).toNat = number.toNat / size.toNat ∧
      (number / size).toNat * size.toNat ≤ number.toNat ∧
      number.toNat ≤ lastBlock (number / size) size := by
  have hindex : (number / size).toNat = number.toNat / size.toNat := UInt64.toNat_div _ _
  have hend : lastBlock (number / size) size + 1 =
      number.toNat / size.toNat * size.toNat + size.toNat := by
    rw [lastBlock_add_one hsize, hindex, Nat.succ_mul]
  have hbefore : number.toNat < number.toNat / size.toNat * size.toNat + size.toNat :=
    Nat.lt_div_mul_add hsize
  refine ⟨hindex, ?_, by omega⟩
  rw [hindex]
  exact Nat.div_mul_le_self _ _

end

/-! ### Queries about sections -/

namespace Query

/-- A query is tied to a section with a root: it comes to a request for the section under this root,
which takes a peer that has the last block, or it is refused. It is refused if the section goes on
past the last of all blocks, which it then says, and also if the section ends with this block. -/
structure BoundTo (q : Query) (s : RetrievalSettings)
    (lookup : HelperTrie → UInt64 → SectionRoots.Answer) (trie : HelperTrie)
    (index size : UInt64) (root : Digest) (key : Bytes) : Prop where
  requested : lastBlock index size < 2 ^ 64 - 1 →
    ∃ minHead, q.request s lookup = .ok (.helperTrieProof trie index root key minHead) ∧
      minHead.toNat = lastBlock index size
  refused : q.request s lookup = .error (.sectionPastLastBlock index size) ↔
    2 ^ 64 - 1 ≤ lastBlock index size
  exact_iff : (q.request s lookup = .error (.sectionPastLastBlock index size) ↔
      2 ^ 64 - 1 < lastBlock index size) ↔
    lastBlock index size ≠ 2 ^ 64 - 1

/-- A query that is tied to a section comes to a request under the root that the lookup gives. -/
theorem request_of_perSection {q : Query} {s : RetrievalSettings}
    {lookup : HelperTrie → UInt64 → SectionRoots.Answer} {trie : HelperTrie}
    {index minHead : UInt64} {root : Digest} {key : Bytes}
    (hbinding : q.binding s = .ok (.perSection trie index key minHead))
    (hroot : SectionRoots.accept trie index (lookup trie index) = .ok root) :
    q.request s lookup = .ok (.helperTrieProof trie index root key minHead) := by
  simp only [request, hbinding, Bind.bind, Except.bind, hroot]

/-- A query that needs the end of a section is tied to it if the root of the section is confirmed. -/
theorem boundTo_of_binding {q : Query} {s : RetrievalSettings}
    {lookup : HelperTrie → UInt64 → SectionRoots.Answer} {trie : HelperTrie}
    {index size : UInt64} {root : Digest} {key : Bytes} (hsize : 0 < size.toNat)
    (hbinding : q.binding s = (do
      let last ← sectionEnd index size
      .ok (.perSection trie index key last)))
    (hroot : lookup trie index = .ok (some ⟨index, root, true⟩)) :
    q.BoundTo s lookup trie index size root key := by
  have haccept : SectionRoots.accept trie index (lookup trie index) = .ok root := by
    rw [hroot]
    exact if_pos ⟨rfl, rfl⟩
  cases hend : sectionEnd index size with
  | ok last =>
    obtain ⟨hfits, hlast⟩ := (sectionEnd_ok_iff hsize).mp hend
    rw [hend] at hbinding
    have hrequest : q.request s lookup = .ok (.helperTrieProof trie index root key last) :=
      request_of_perSection hbinding haccept
    have hrefused : q.request s lookup = .error (.sectionPastLastBlock index size) ↔
        2 ^ 64 - 1 ≤ lastBlock index size := by
      simp only [hrequest, reduceCtorEq, false_iff]
      omega
    refine ⟨fun _ => ⟨last, hrequest, hlast⟩, hrefused, ?_⟩
    rw [hrefused]
    omega
  -- the end of the section is past the last block, so that no request is made
  | error e =>
    obtain ⟨hpast, rfl⟩ := (sectionEnd_error_iff hsize).mp hend
    rw [hend] at hbinding
    have hrequest : q.request s lookup = .error (.sectionPastLastBlock index size) := by
      rw [request, hbinding]
      rfl
    have hrefused : q.request s lookup = .error (.sectionPastLastBlock index size) ↔
        2 ^ 64 - 1 ≤ lastBlock index size := by
      simp only [hrequest, true_iff]
      omega
    refine ⟨fun hfits => absurd hpast (by omega), hrefused, ?_⟩
    rw [hrefused]
    omega

/-- Section bounds are exact, up to the one section that ends with the last of all blocks: a query
for a canonical header is tied to the section that has the block, and a query for bloom bits to the
section it names; the request takes a peer that has the last block of the section, and a section
is refused if its last block is past the last of all blocks or is this block. -/
theorem section_bounds {s : RetrievalSettings}
    {lookup : HelperTrie → UInt64 → SectionRoots.Answer}
    (hheaders : 0 < s.canonicalHashSection.toNat) (hbits : 0 < s.bloomSection.toNat) :
    (∀ (number index : UInt64) (root : Digest), index = number / s.canonicalHashSection →
      lookup .canonicalHash index = .ok (some ⟨index, root, true⟩) →
      (canonicalHeader number).BoundTo s lookup .canonicalHash index s.canonicalHashSection root
          (HelperTrie.blockKey number) ∧
        index.toNat = number.toNat / s.canonicalHashSection.toNat ∧
        index.toNat * s.canonicalHashSection.toNat ≤ number.toNat ∧
        number.toNat ≤ lastBlock index s.canonicalHashSection) ∧
    ∀ (bit : UInt16) (index : UInt64) (root : Digest),
      lookup .bloom index = .ok (some ⟨index, root, true⟩) →
      (bloomBits bit index).BoundTo s lookup .bloom index s.bloomSection root
        (HelperTrie.bitKey bit index) := by
  constructor
  · rintro number index root rfl hroot
    exact ⟨boundTo_of_binding hheaders rfl hroot, block_in_section hheaders number⟩
  · intro bit index root hroot
    exact boundTo_of_binding hbits rfl hroot

/-- The block before the last section of the usual size is asked for in the section it ends. -/
theorem section_bounds_below_last_section :
    let s := RetrievalSettings.default
    let lookup : HelperTrie → UInt64 → SectionRoots.Answer :=
      fun _ index => .ok (some ⟨index, Digest.zero, true⟩)
    ∃ minHead,
      (canonicalHeader 18446744073709518847).request s lookup =
          .ok (.helperTrieProof .canonicalHash 562949953421310 Digest.zero
            (HelperTrie.blockKey 18446744073709518847) minHead) ∧
        minHead.toNat = 18446744073709518847 := by
  intro s lookup
  have hbounds := (@section_bounds s lookup (by decide) (by decide)).1 18446744073709518847
    562949953421310 Digest.zero (by decide) rfl
  exact hbounds.1.requested (by decide)

/-- The last of all blocks is refused with the usual size of sections: the section it ends is said to
be past it, although its last block is a block. -/
theorem section_bounds_fails_at_top :
    let s := RetrievalSettings.default
    let lookup : HelperTrie → UInt64 → SectionRoots.Answer :=
      fun _ index => .ok (some ⟨index, Digest.zero, true⟩)
    (canonicalHeader 18446744073709551615).request s lookup =
        .error (.sectionPastLastBlock 562949953421311 32768) ∧
      lastBlock 562949953421311 32768 = 18446744073709551615 ∧
      ¬ ((canonicalHeader 18446744073709551615).request s lookup =
          .error (.sectionPastLastBlock 562949953421311 32768) ↔
        2 ^ 64 - 1 < lastBlock 562949953421311 32768) := by
  intro s lookup
  have hindex : (18446744073709551615 : UInt64) / 32768 = 562949953421311 := by decide
  have hbound : (canonicalHeader 18446744073709551615).BoundTo s lookup .canonicalHash
      (18446744073709551615 / 32768) 32768 Digest.zero
      (HelperTrie.blockKey 18446744073709551615) :=
    boundTo_of_binding (by decide) rfl rfl
  rw [hindex] at hbound
  have hrefused := hbound.refused.mpr (by decide)
  have hlast : lastBlock 562949953421311 32768 = 18446744073709551615 := by decide
  refine ⟨hrefused, hlast, fun h => ?_⟩
  have hpast := h.mp hrefused
  rw [hlast] at hpast
  exact absurd hpast (by decide)

end Query

end LightClient
