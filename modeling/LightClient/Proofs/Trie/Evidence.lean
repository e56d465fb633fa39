/-
Module: LightClient.Proofs.Trie.Evidence
Purpose: What nodes prove below a root depends only on which nodes there are: their order and their
  repetition do not count, more nodes never take a proof or a fault back, and a node that is
  reported as missing is not among them. The root may be any digest, of a trie or not.
Main exports: Trie.verifyProof_extend, Trie.verifyProof_congr, Trie.verifyProof_missing,
  Trie.verifyProof_determined
-/
import Mathlib.Data.List.Chain
import LightClient.Proofs.Trie.Walks

namespace LightClient

namespace Trie

variable {root : Digest} {key : Bytes} {nodes more : List Bytes}

/-- Without a collision, what is found among some nodes is found among more of them as well. -/
theorem find_ofNodes_extend (hno : ¬ Collision more) (hsub : ∀ raw ∈ nodes, raw ∈ more)
    (name : Digest) (raw : Bytes) (h : (NodeIndex.ofNodes nodes).find name = some raw) :
    (NodeIndex.ofNodes more).find name = some raw := by
  obtain ⟨hmem, rfl⟩ := filedIn_ofNodes nodes name raw h
  exact find_ofNodes_of_mem hno (hsub raw hmem)

/-- Without a collision, the same nodes are filed alike, in whatever order they come. -/
theorem find_ofNodes_congr (hno : ¬ Collision nodes) (hsame : ∀ raw, raw ∈ nodes ↔ raw ∈ more) :
    (NodeIndex.ofNodes nodes).find = (NodeIndex.ofNodes more).find := by
  have hno' : ¬ Collision more := fun h => hno (h.mono fun raw => (hsame raw).mpr)
  funext name
  apply Option.ext
  intro raw
  constructor
  · exact find_ofNodes_extend hno' (fun raw => (hsame raw).mp) name raw
  · exact find_ofNodes_extend hno (fun raw => (hsame raw).mpr) name raw

/-- What nodes say without missing one is said by more nodes as well. -/
theorem verifyProof_extend (hno : ¬ Collision more) (hsub : ∀ raw ∈ nodes, raw ∈ more)
    (hend : ∀ name, verifyProof root key nodes ≠ .error (.missingNode name)) :
    verifyProof root key more = verifyProof root key nodes :=
  walk_extend (filedIn_ofNodes nodes) (find_ofNodes_extend hno hsub) hend

/-- The same nodes say the same, faults included. -/
theorem verifyProof_congr (hno : ¬ Collision nodes) (hsame : ∀ raw, raw ∈ nodes ↔ raw ∈ more) :
    verifyProof root key nodes = verifyProof root key more := by
  rw [verifyProof, verifyProof, find_ofNodes_congr hno hsame]

/-- No node has the digest of the one that is reported as missing. -/
theorem verifyProof_missing {name : Digest}
    (h : verifyProof root key nodes = .error (.missingNode name)) :
    ∀ raw ∈ nodes, sha256 raw ≠ name := by
  intro raw hraw hname
  have hmem : (name, raw) ∈ NodeIndex.ofNodes nodes :=
    List.mem_reverse.mpr (List.mem_map.mpr ⟨raw, hraw, by rw [hname]⟩)
  obtain ⟨found, hfound⟩ := NodeIndex.exists_find hmem
  rw [walk_missing h] at hfound
  cases hfound

/-- What nodes prove depends on which nodes there are and on nothing else. As long as no two of them
collide, the same nodes in another order, or some of them twice, come to the same value, absence or
fault; more nodes come to the same, unless a node was missing; and a node that is missing has a
digest that none of the nodes has. -/
theorem verifyProof_determined (root : Digest) (key : Bytes)
    (hno : ¬ Collision (nodes ++ more)) :
    ((∀ raw, raw ∈ nodes ↔ raw ∈ more) →
        verifyProof root key nodes = verifyProof root key more) ∧
      ((∀ raw ∈ nodes, raw ∈ more) →
        (∀ name, verifyProof root key nodes ≠ .error (.missingNode name)) →
        verifyProof root key more = verifyProof root key nodes) ∧
      ∀ name, verifyProof root key nodes = .error (.missingNode name) →
        ∀ raw ∈ nodes, sha256 raw ≠ name := by
  have hnodes : ¬ Collision nodes := fun h => hno (h.mono fun _ => List.mem_append_left _)
  have hmore : ¬ Collision more := fun h => hno (h.mono fun _ => List.mem_append_right _)
  exact ⟨verifyProof_congr hnodes, verifyProof_extend hmore, fun _ => verifyProof_missing⟩

set_option maxRecDepth 100000 in
/-- A leaf without a value below an extension, such as no trie is built with: it is at fault whatever
stands beside it, and where it is left out it is missing. -/
theorem verifyProof_determined_of_fault :
    let hollow : Bytes := [8, 1, 18, 1, 0]
    let top := Node.encode (.extension [1] (sha256 hollow))
    let fault : ProofError := .malformed (sha256 hollow) .leafWithoutValue
    verifyProof (sha256 top) [0x10] [top, hollow] = .error fault ∧
      verifyProof (sha256 top) [0x10] [hollow, top, hollow] = .error fault ∧
      verifyProof (sha256 top) [0x10] [hollow, [0], top] = .error fault ∧
      verifyProof (sha256 top) [0x10] [top] = .error (.missingNode (sha256 hollow)) ∧
      sha256 top ≠ sha256 hollow := by
  intro hollow top fault
  have hfault : verifyProof (sha256 top) [0x10] [top, hollow] = .error fault := by decide +kernel
  have hmissing : verifyProof (sha256 top) [0x10] [top] = .error (.missingNode (sha256 hollow)) := by
    decide +kernel
  obtain ⟨hsame, -, -⟩ := @verifyProof_determined [top, hollow] [hollow, top, hollow] (sha256 top)
    [0x10] (by decide +kernel)
  obtain ⟨-, hextend, -⟩ := @verifyProof_determined [top, hollow] [hollow, [0], top] (sha256 top)
    [0x10] (by decide +kernel)
  obtain ⟨-, -, habsent⟩ := @verifyProof_determined [top] [] (sha256 top) [0x10] (by decide +kernel)
  refine ⟨hfault, ?_, ?_, hmissing, habsent _ hmissing top List.mem_cons_self⟩
  · rw [← hsame fun raw => by simp [or_comm], hfault]
  · rw [hextend (by simp) (by simp [hfault, fault]), hfault]

end Trie

end LightClient
