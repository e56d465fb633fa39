/-
Module: LightClient.Proofs.FullNode.Blocks
Purpose: How the blocks of a generated chain hang together: numbers from zero up, each block on top
  of the one before, and every root the root of what the block holds.
Main exports: SampleChain.Made, SampleChain.made_of_getElem?, SampleChain.isChain_blocks,
  SampleChain.totalDifficulty_lt, SampleChain.toNat_number, SampleChain.strings,
  SampleChain.block?_eq_some, SampleChain.block?_eq
-/
import Mathlib.Data.List.Chain
import Mathlib.Tactic.Ring
import LightClient.FullNode.Answer
import LightClient.Proofs.Bytes
import LightClient.Proofs.Header
import LightClient.Proofs.Trie.Proving

namespace LightClient

namespace SampleChain

/-- A text made of parts takes the parts and at most a dash behind each. -/
theorem length_dashed_le (parts : List String) :
    (dashed parts).length ≤ (parts.map fun p => p.utf8ByteSize + 1).sum := by
  rw [dashed, Bytes.length_ofText]
  induction parts with
  | nil => simp
  | cons p rest ih =>
    cases rest with
    | nil => simp [String.intercalate_singleton]
    | cons q rest =>
      have hdash : ("-" : String).utf8ByteSize = 1 := by decide
      rw [String.intercalate_cons_cons]
      simp only [String.utf8ByteSize_append, List.map_cons, List.sum_cons] at ih ⊢
      omega

/-! ### Single blocks -/

/-- What holds of the block with a number in a generated chain: it has this number, its roots are
those of what it holds, and nothing in it is much longer than the salt. -/
structure Made (salt : String) (stateRoot : Digest) (number : Nat) (b : Block) : Prop where
  hash_eq : b.hash = b.header.hash
  number_eq : b.header.number = UInt64.ofNat number
  stateRoot_eq : b.header.stateRoot = stateRoot
  transactionsRoot_eq : b.header.transactionsRoot = Trie.orderedRoot b.body.transactions
  ommersHash_eq : b.header.ommersHash = Trie.orderedRoot b.body.ommers
  receiptsRoot_eq : b.header.receiptsRoot = Trie.orderedRoot b.receipts
  extra_le : b.header.extra.length ≤ salt.utf8ByteSize + 64
  transactions_le : ∀ x ∈ b.body.transactions, x.length ≤ salt.utf8ByteSize + 64
  ommers_eq : b.body.ommers = []
  receipts_le : ∀ x ∈ b.receipts, x.length ≤ salt.utf8ByteSize + 64

/-- The items of a sample block are hardly longer than the salt. -/
theorem length_of_mem_makeItems {kind salt : String} {number : Nat} {x : Bytes}
    (hkind : kind.utf8ByteSize ≤ 16) (hnumber : number < 2 ^ 64)
    (h : x ∈ makeItems kind salt number) : x.length ≤ salt.utf8ByteSize + 64 := by
  obtain ⟨i, hi, rfl⟩ := List.mem_map.mp h
  have hi : i < 10 ^ 1 := by
    have hrange := List.mem_range.mp hi
    omega
  have hnumber : (toString number).utf8ByteSize ≤ 20 :=
    Bytes.utf8ByteSize_toString_le (by omega) (by omega)
  have hindex : (toString i).utf8ByteSize ≤ 1 := Bytes.utf8ByteSize_toString_le (by omega) hi
  have hlength := length_dashed_le [kind, salt, toString number, toString i]
  simp only [List.map_cons, List.map_nil, List.sum_cons, List.sum_nil] at hlength
  omega

/-- A sample block has the properties of one. -/
theorem made_makeBlock (salt : String) (stateRoot : Digest) {number : Nat}
    (hnumber : number < 2 ^ 64) (parent : Digest) (parentDifficulty : Nat) :
    Made salt stateRoot number (makeBlock salt stateRoot number parent parentDifficulty) where
  hash_eq := rfl
  number_eq := rfl
  stateRoot_eq := rfl
  transactionsRoot_eq := rfl
  ommersHash_eq := rfl
  receiptsRoot_eq := rfl
  extra_le := by
    have hdigits : (toString number).utf8ByteSize ≤ 20 :=
      Bytes.utf8ByteSize_toString_le (by omega) (by omega)
    have hname : ("block" : String).utf8ByteSize = 5 := by decide
    have hlength := length_dashed_le ["block", salt, toString number]
    simp only [List.map_cons, List.map_nil, List.sum_cons, List.sum_nil] at hlength
    show (dashed ["block", salt, toString number]).length ≤ _
    omega
  transactions_le := fun _ => length_of_mem_makeItems (by decide) hnumber
  ommers_eq := rfl
  receipts_le := fun _ => length_of_mem_makeItems (by decide) hnumber

/-! ### Blocks on top of each other -/

variable {salt : String} {stateRoot : Digest}

theorem length_makeBlocks (count number : Nat) (parent : Digest) (parentDifficulty : Nat) :
    (makeBlocks salt stateRoot count number parent parentDifficulty).length = count := by
  induction count generalizing number parent parentDifficulty with
  | zero => rfl
  | succ count ih => rw [makeBlocks, List.length_cons, ih]

/-- Blocks are made with numbers that go up by one, and their difficulties add up. -/
theorem exists_makeBlock {count number i : Nat} {parent : Digest} {parentDifficulty : Nat}
    {b : Block}
    (h : (makeBlocks salt stateRoot count number parent parentDifficulty)[i]? = some b) :
    (∃ parent' difficulty, b = makeBlock salt stateRoot (number + i) parent' difficulty) ∧
      2 * b.totalDifficulty = 2 * parentDifficulty + (i + 1) * (2000 + 2 * number + i) := by
  induction count generalizing number parent parentDifficulty i with
  | zero => cases h
  | succ count ih =>
    rw [makeBlocks] at h
    cases i with
    | zero =>
      cases h
      refine ⟨⟨parent, parentDifficulty, rfl⟩, ?_⟩
      simp only [makeBlock]
      ring
    | succ i =>
      obtain ⟨⟨parent', difficulty, hb⟩, htotal⟩ := ih h
      refine ⟨⟨parent', difficulty, ?_⟩, ?_⟩
      · rw [hb, Nat.add_right_comm, Nat.add_assoc]
      · rw [htotal]
        simp only [makeBlock]
        ring

/-- The first of some blocks names the given parent. -/
theorem parentHash_of_mem_head? {count number : Nat} {parent : Digest} {parentDifficulty : Nat}
    {b : Block}
    (h : b ∈ (makeBlocks salt stateRoot count number parent parentDifficulty).head?) :
    b.header.parentHash = parent := by
  cases count with
  | zero => cases h
  | succ count =>
    cases h
    rfl

/-- Every block names the one before it as its parent. -/
theorem isChain_makeBlocks (count number : Nat) (parent : Digest) (parentDifficulty : Nat) :
    (makeBlocks salt stateRoot count number parent parentDifficulty).IsChain
      fun a b => b.header.parentHash = a.header.hash := by
  induction count generalizing number parent parentDifficulty with
  | zero => exact List.isChain_nil
  | succ count ih =>
    rw [makeBlocks, List.isChain_cons]
    constructor
    · intro b hb
      exact parentHash_of_mem_head? hb
    · exact ih _ _ _

/-! ### Generated chains -/

section Generated

variable {length size n : Nat} {b : Block}

/-- A chain has as many blocks as it is generated with. -/
theorem length_blocks : (generate length size salt).blocks.length = length :=
  length_makeBlocks length 0 Digest.zero 0

/-- A generated chain has no block at a place past its length. -/
theorem lt_of_getElem?_blocks (h : (generate length size salt).blocks[n]? = some b) :
    n < length := by
  rw [← @length_blocks salt length size]
  exact (List.getElem?_eq_some_iff.mp h).1

/-- The block at a place of a generated chain is made for this place. -/
theorem made_of_getElem? (hlength : length < 2 ^ 64)
    (h : (generate length size salt).blocks[n]? = some b) :
    Made salt (generate length size salt).state.root n b := by
  have hn := lt_of_getElem?_blocks h
  obtain ⟨⟨parent, difficulty, rfl⟩, _⟩ := exists_makeBlock h
  rw [Nat.zero_add]
  exact made_makeBlock salt _ (by omega) parent difficulty

/-- Every block of a generated chain was made for its place. -/
theorem exists_made (hlength : length < 2 ^ 64) (h : b ∈ (generate length size salt).blocks) :
    ∃ n, Made salt (generate length size salt).state.root n b := by
  obtain ⟨n, hn⟩ := List.mem_iff_getElem?.mp h
  exact ⟨n, made_of_getElem? hlength hn⟩

/-- The code is not much longer than the salt. -/
theorem length_code_le : (generate length size salt).code.length ≤ salt.utf8ByteSize + 64 := by
  have hname : ("code" : String).utf8ByteSize = 4 := by decide
  have hcode := length_dashed_le ["code", salt]
  simp only [List.map_cons, List.map_nil, List.sum_cons, List.sum_nil] at hcode
  show (dashed ["code", salt]).length ≤ _
  omega

/-- The total difficulty of a chain that is no longer than its block numbers allow fits 16
bytes. -/
theorem totalDifficulty_lt (hlength : length < 2 ^ 64)
    (h : (generate length size salt).blocks[n]? = some b) : b.totalDifficulty < 2 ^ 128 := by
  have hn := lt_of_getElem?_blocks h
  obtain ⟨_, htotal⟩ := exists_makeBlock h
  have hbound : (n + 1) * (2000 + 2 * 0 + n) ≤ 2 ^ 64 * (2000 + 2 ^ 64) :=
    Nat.mul_le_mul (by omega) (by omega)
  omega

/-- Each block of a generated chain names the one before it. -/
theorem isChain_blocks :
    (generate length size salt).blocks.IsChain fun a b => b.header.parentHash = a.header.hash :=
  isChain_makeBlocks length 0 Digest.zero 0

/-- The number of a block, which fits a word, is its place. -/
theorem toNat_number (hlength : length < 2 ^ 64)
    (h : (generate length size salt).blocks[n]? = some b) : b.header.number.toNat = n := by
  have hn := lt_of_getElem?_blocks h
  rw [(made_of_getElem? hlength h).number_eq]
  exact UInt64.toNat_ofNat_of_lt' (show n < 2 ^ 64 by omega)

/-- A number stands for one place of the chain. -/
theorem eq_of_number_eq (hlength : length < 2 ^ 64) {m : Nat} {a : Block}
    (ha : (generate length size salt).blocks[m]? = some a)
    (hb : (generate length size salt).blocks[n]? = some b)
    (h : a.header.number = b.header.number) : a = b := by
  have hplaces : m = n := by rw [← toNat_number hlength ha, ← toNat_number hlength hb, h]
  subst hplaces
  exact Option.some.inj (ha.symm.trans hb)

end Generated

/-! ### Finding a block by its hash -/

def tries (c : SampleChain) : List Trie :=
  c.state :: c.storage :: (c.canonicalHash ++ c.bloom)

/-- The byte strings whose digests a chain is known by: its headers, the nodes of all its tries and
its code, and the empty string, whose digest is the root of the empty trie. -/
def strings (c : SampleChain) : List Bytes :=
  c.blocks.map (fun b => b.header.encode) ++ c.tries.flatMap Trie.encodings ++ [c.code, []]

/-- The header of every block is among the strings of the chain. -/
theorem encode_mem_strings {c : SampleChain} {n : Nat} {b : Block} (h : c.blocks[n]? = some b) :
    b.header.encode ∈ c.strings := by
  apply List.mem_append_left
  apply List.mem_append_left
  exact List.mem_map.mpr ⟨b, List.mem_of_getElem? h, rfl⟩

/-- The nodes of every trie are among the strings of the chain. -/
theorem ownStrings_subset_strings {c : SampleChain} {t : Trie} (ht : t ∈ c.tries) :
    ∀ x ∈ t.ownStrings, x ∈ c.strings := by
  intro x hx
  rcases List.mem_append.mp hx with hx | hx
  · apply List.mem_append_left
    apply List.mem_append_right
    exact List.mem_flatMap.mpr ⟨t, ht, hx⟩
  · apply List.mem_append_right
    exact List.mem_cons_of_mem _ hx

/-- A helper trie that the chain finds for a section is among its tries. -/
theorem mem_tries_of_helperTrie? {c : SampleChain} {trie : HelperTrie} {index : UInt64} {t : Trie}
    (h : c.helperTrie? trie index = some t) : t ∈ c.tries := by
  apply List.mem_cons_of_mem
  apply List.mem_cons_of_mem
  cases trie with
  | canonicalHash => exact List.mem_append_left _ (List.mem_of_getElem? h)
  | bloom => exact List.mem_append_right _ (List.mem_of_getElem? h)

/-- A block that is found has the hash and the number that it is named by. -/
theorem block?_eq_some {c : SampleChain} {p : Wire.BlockParams} {b : Block}
    (h : c.block? p = some b) :
    b ∈ c.blocks ∧ p.blockHash = b.hash.bytes ∧ b.header.number = p.blockNumber := by
  obtain ⟨hash, hhash, h⟩ := Option.bind_eq_some_iff.mp h
  obtain ⟨a, hfound, h⟩ := Option.bind_eq_some_iff.mp h
  split at h
  next hnumber =>
    cases h
    have hsame := List.find?_some hfound
    rw [decide_eq_true_eq] at hsame
    refine ⟨List.mem_reverse.mp (List.mem_of_find?_eq_some hfound), ?_, hnumber⟩
    rw [hsame, Digest.bytes_of_ofBytes? hhash]
  next => cases h

/-- Without a collision, a block is found by its hash and number. -/
theorem block?_eq {length size n : Nat} {b : Block} (hlength : length < 2 ^ 64)
    (hsalt : salt.utf8ByteSize + 64 < 2 ^ 63)
    (hno : ¬ Collision (generate length size salt).strings)
    (h : (generate length size salt).blocks[n]? = some b) :
    (generate length size salt).block? ⟨b.header.hash.bytes, b.header.number⟩ = some b := by
  have hb := made_of_getElem? hlength h
  have hself : ∃ x ∈ (generate length size salt).blocks.reverse, decide (x.hash = b.header.hash) :=
    ⟨b, List.mem_reverse.mpr (List.mem_of_getElem? h), decide_eq_true hb.hash_eq⟩
  obtain ⟨a, ha⟩ := Option.isSome_iff_exists.mp (List.find?_isSome.mpr hself)
  obtain ⟨m, hm⟩ := List.mem_iff_getElem?.mp (List.mem_reverse.mp (List.mem_of_find?_eq_some ha))
  have hmade := made_of_getElem? hlength hm
  have hfound := List.find?_some ha
  have hhash : a.header.hash = b.header.hash :=
    hmade.hash_eq.symm.trans (of_decide_eq_true hfound)
  have hencode : a.header.encode = b.header.encode :=
    Collision.eq_of_not hno (encode_mem_strings hm) (encode_mem_strings h) hhash
  have hextra := hmade.extra_le
  have hextra' := hb.extra_le
  have hheader : a.header = b.header := Header.encode_inj (by omega) (by omega) hencode
  obtain rfl := eq_of_number_eq hlength hm h (congrArg Header.number hheader)
  unfold block?
  simp only [Digest.ofBytes?_bytes, Option.bind_eq_bind, Option.bind_some]
  rw [ha]
  exact if_pos rfl

end SampleChain

end LightClient
