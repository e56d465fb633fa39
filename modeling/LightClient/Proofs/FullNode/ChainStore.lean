/-
Module: LightClient.Proofs.FullNode.ChainStore
Purpose: The store of a generated chain holds this chain: its lists go along with the blocks, and its
  index has the last block with each hash. So no access to the store ever misses, and what it replies
  is what the chain answers.
Main exports: SampleChain.InOrder, ChainStore.ofChain, ChainStore.generate_eq,
  ChainStore.get?_numbersOf, ChainStore.yields_answer
-/
import LightClient.FullNode.ChainStore
import LightClient.Proofs.FullNode.Answers
import LightClient.Proofs.Trie.Traversal

namespace LightClient

/-- Blocks that have their places as numbers and their hashes beside them, and are no more than a word
can count. -/
structure SampleChain.InOrder (blocks : List Block) : Prop where
  length_lt : blocks.length < 2 ^ 64
  number_eq {n : Nat} {b : Block} (h : blocks[n]? = some b) : b.header.number.toNat = n
  hash_eq {n : Nat} {b : Block} (h : blocks[n]? = some b) : b.hash = b.header.hash

/-- The blocks of a generated chain stand in the order of their numbers. -/
theorem SampleChain.inOrder_blocks {length size : Nat} {salt : String} (hlength : length < 2 ^ 64) :
    InOrder (generate length size salt).blocks where
  length_lt := length_blocks.trans_lt hlength
  number_eq := toNat_number hlength
  hash_eq := fun hb => (made_of_getElem? hlength hb).hash_eq

namespace ChainStore

/-- The index of the hashes of some blocks. -/
def numbersOf (blocks : List Block) : Table Digest UInt64 :=
  blocks.foldl (fun t b => t.insert b.hash b.header.number) []

def ofChain (c : SampleChain) : ChainStore :=
  { sectionSize := UInt64.ofNat c.sectionSize
    headers := c.blocks.map Block.header
    bodies := c.blocks.map Block.body
    receipts := c.blocks.map Block.receipts
    totalDifficulties := c.blocks.map Block.totalDifficulty
    state := c.state
    storage := c.storage
    code := c.code
    canonicalHash := c.canonicalHash
    bloom := c.bloom
    numbers := numbersOf c.blocks }

/-! ### Generating the store -/

/-- One block more in the store is one block more in the chain. -/
theorem append_ofChain (salt : String) (c : SampleChain) (number : Nat) :
    append salt (ofChain c) number = ofChain { c with
      blocks := c.blocks ++ [SampleChain.makeBlock salt c.state.root number
        ((c.blocks.getLast?.map fun b => b.header.hash).getD Digest.zero)
        ((c.blocks.getLast?.map Block.totalDifficulty).getD 0)] } := by
  simp only [append, ofChain, numbersOf, List.getLast?_map, Option.map_map, List.map_append,
    List.foldl_append]
  rfl

/-- The blocks that are made are followed by a block on top of the last of them. -/
theorem makeBlocks_succ (salt : String) (stateRoot : Digest) (count number : Nat) (parent : Digest)
    (parentDifficulty : Nat) :
    SampleChain.makeBlocks salt stateRoot (count + 1) number parent parentDifficulty =
      let blocks := SampleChain.makeBlocks salt stateRoot count number parent parentDifficulty
      blocks ++ [SampleChain.makeBlock salt stateRoot (number + count)
        ((blocks.getLast?.map fun b => b.header.hash).getD parent)
        ((blocks.getLast?.map Block.totalDifficulty).getD parentDifficulty)] := by
  induction count generalizing number parent parentDifficulty with
  | zero => rfl
  | succ count ih =>
    rw [SampleChain.makeBlocks, ih, SampleChain.makeBlocks, Nat.add_right_comm, Nat.add_assoc]
    simp only [List.cons_append, List.getLast?_cons, Option.map_some, Option.getD_some]
    generalize SampleChain.makeBlocks salt stateRoot count _ _ _ = rest
    cases rest.getLast? <;> rfl

/-- Block after block the store holds the first blocks of the chain. -/
theorem foldl_append (size : UInt64) (salt : String) (count : Nat) :
    (List.range count).foldl (append salt) (start size salt) = ofChain
      { SampleChain.generate count size.toNat salt with canonicalHash := [], bloom := [] } := by
  induction count with
  | zero => simp [start, ofChain, SampleChain.generate, SampleChain.makeBlocks, numbersOf]
  | succ count ih =>
    rw [List.range_succ, List.foldl_append, List.foldl_cons, List.foldl_nil, ih, append_ofChain]
    simp only [SampleChain.generate, makeBlocks_succ, Nat.zero_add]

/-- What each block has of one kind is found at its place. -/
theorem item_map {α : Type} {blocks : List Block} {place : Nat} {b : Block} (f : Block → α)
    (hb : blocks[place]? = some b) : Checked.item (blocks.map f) place = .ok (f b) :=
  Checked.item_eq_ok.mpr (by rw [List.getElem?_map, hb, Option.map_some])

/-- Where the number behind a section is a word, so are the bounds of the section. -/
theorem exists_sectionBounds {index : Nat} {size : UInt64} (hpos : 0 < size.toNat)
    (hroom : (index + 1) * size.toNat < UInt64.size) :
    ∃ first following past, Checked.mul (UInt64.ofNat index) size = .ok first ∧
      Checked.add (UInt64.ofNat index) 1 = .ok following ∧
      Checked.mul following size = .ok past ∧ first.toNat = index * size.toNat ∧
      past.toNat - first.toNat = size.toNat := by
  have hbounds : index * size.toNat + size.toNat = (index + 1) * size.toNat :=
    (Nat.succ_mul _ _).symm
  have hindex : index + 1 ≤ (index + 1) * size.toNat := Nat.le_mul_of_pos_right _ hpos
  have hword : (UInt64.ofNat index).toNat = index :=
    UInt64.toNat_ofNat_of_lt' (show index < UInt64.size by omega)
  obtain ⟨first, hfirst, hfirstNat⟩ :=
    @Checked.exists_mul (UInt64.ofNat index) size (by rw [hword]; omega)
  obtain ⟨following, hfollowing, hfollowingNat⟩ :=
    @Checked.exists_add (UInt64.ofNat index) 1 (by rw [hword, UInt64.toNat_one]; omega)
  rw [hword] at hfirstNat
  rw [hword, UInt64.toNat_one] at hfollowingNat
  obtain ⟨past, hpast, hpastNat⟩ := @Checked.exists_mul following size (by rwa [hfollowingNat])
  rw [hfollowingNat] at hpastNat
  exact ⟨first, following, past, hfirst, hfollowing, hpast, hfirstNat, by omega⟩

section Sections

variable {c : SampleChain} (hc : SampleChain.InOrder c.blocks)

include hc

/-- The entry of a block is made without an overrun. -/
theorem canonicalHashEntry_ofChain {place : Nat} {b : Block} (hb : c.blocks[place]? = some b) :
    (ofChain c).canonicalHashEntry place =
      .ok (HelperTrie.blockKey b.header.number, HelperTrie.blockValue b.hash b.totalDifficulty) := by
  have hheader : Checked.item (ofChain c).headers place = .ok b.header := item_map _ hb
  have hdifficulty : Checked.item (ofChain c).totalDifficulties place = .ok b.totalDifficulty :=
    item_map _ hb
  have hnumber : UInt64.ofNat place = b.header.number := by
    rw [← hc.number_eq hb, UInt64.ofNat_toNat]
  rw [canonicalHashEntry, hheader, hdifficulty, hnumber, hc.hash_eq hb]
  rfl

/-- The entries at places of the chain are those of the blocks there. -/
theorem mapM_canonicalHashEntry {first count : Nat} (hroom : first + count ≤ c.blocks.length) :
    (List.range' first count).mapM (ofChain c).canonicalHashEntry =
      .ok (SampleChain.canonicalHashEntries ((c.blocks.drop first).take count)) := by
  induction count generalizing first with
  | zero => rfl
  | succ count ih =>
    have hlt : first < c.blocks.length := by omega
    have hentry := canonicalHashEntry_ofChain hc (List.getElem?_eq_getElem hlt)
    rw [List.range'_succ, List.mapM_cons, hentry, ih (by omega), List.drop_eq_getElem_cons hlt,
      List.take_succ_cons]
    rfl

/-- The canonical hash trie of a section that ends within the chain is built of its blocks. -/
theorem canonicalHashTrie_ofChain {index : Nat} {size : UInt64} (hsize : c.sectionSize = size.toNat)
    (hpos : 0 < size.toNat) (hroom : (index + 1) * size.toNat ≤ c.blocks.length) :
    (ofChain c).canonicalHashTrie (UInt64.ofNat index) = .ok (Trie.build
      (SampleChain.canonicalHashEntries
        ((c.blocks.drop (index * size.toNat)).take size.toNat))) := by
  have hsectionSize : (ofChain c).sectionSize = size := by
    rw [ofChain, hsize, UInt64.ofNat_toNat]
  have hbounds : index * size.toNat + size.toNat = (index + 1) * size.toNat :=
    (Nat.succ_mul _ _).symm
  obtain ⟨first, following, past, hfirst, hfollowing, hpast, hplace, hcount⟩ :=
    exists_sectionBounds hpos (hroom.trans_lt hc.length_lt)
  rw [canonicalHashTrie, hsectionSize]
  refine bind_eq_ok.mpr ⟨first, hfirst, bind_eq_ok.mpr ⟨following, hfollowing,
    bind_eq_ok.mpr ⟨past, hpast, bind_eq_ok.mpr ⟨_, ?_, rfl⟩⟩⟩⟩
  rw [hcount, hplace]
  exact mapM_canonicalHashEntry hc (hbounds.trans_le hroom)

end Sections

/-- The store of a chain is generated if sections are not to be empty, and nothing on the way there
misses. -/
theorem generate_eq {length size : UInt64} (hsize : size ≠ 0) (salt : String) :
    generate length size salt = .ok (ofChain (SampleChain.generate length.toNat size.toNat salt)) := by
  have hpos : 0 < size.toNat := Nat.pos_of_ne_zero fun h => hsize (UInt64.toNat_inj.mp h)
  have hc : SampleChain.InOrder (SampleChain.generate length.toNat size.toNat salt).blocks :=
    SampleChain.inOrder_blocks length.toNat_lt
  have hsections : (length / size).toNat = length.toNat / size.toNat := UInt64.toNat_div _ _
  have htries : (List.range (length / size).toNat).mapM (fun i => (ofChain
      { SampleChain.generate length.toNat size.toNat salt with
        canonicalHash := [], bloom := [] }).canonicalHashTrie (UInt64.ofNat i)) =
      .ok (SampleChain.generate length.toNat size.toNat salt).canonicalHash := by
    rw [hsections]
    apply mapM_eq_ok
    intro i hi
    apply canonicalHashTrie_ofChain hc rfl hpos
    rw [SampleChain.length_blocks]
    exact (Nat.mul_le_mul_right _ (List.mem_range.mp hi)).trans (Nat.div_mul_le_self _ _)
  rw [generate, foldl_append]
  refine bind_eq_ok.mpr ⟨_, Checked.div_eq_ok.mpr ⟨hsize, rfl⟩, bind_eq_ok.mpr ⟨_, htries, ?_⟩⟩
  rw [hsections]
  rfl

/-! ### Finding a block by its hash -/

/-- Under a hash the index has the number of the last block with it. -/
theorem get?_numbersOf (blocks : List Block) (hash : Digest) :
    (numbersOf blocks).get? hash =
      (blocks.reverse.find? fun b => b.hash = hash).map fun b => b.header.number := by
  induction blocks using List.reverseRecOn with
  | nil => rfl
  | append_singleton blocks b ih =>
    have hsplit : numbersOf (blocks ++ [b]) = (numbersOf blocks).insert b.hash b.header.number := by
      simp [numbersOf]
    rw [hsplit, Table.get?_insert, List.reverse_append, List.reverse_singleton,
      List.singleton_append, List.find?_cons, ih]
    by_cases hb : b.hash = hash <;> simp [hb]

/-- The tables know the number of every block that the chain has. -/
theorem blockNumber?_ofChain (c : SampleChain) (p : Wire.BlockParams) :
    (ofChain c).blockNumber? p = (c.block? p).map fun b => b.header.number := by
  unfold blockNumber? SampleChain.block?
  cases Digest.ofBytes? p.blockHash with
  | none => rfl
  | some hash =>
    simp only [Option.bind_eq_bind, Option.bind_some, ofChain, get?_numbersOf]
    cases c.blocks.reverse.find? fun b => b.hash = hash with
    | none => rfl
    | some b =>
      simp only [Option.map_some, Option.bind_some]
      split <;> rfl

/-- The number of a block that is found is its place. -/
theorem getElem?_of_block? {c : SampleChain} (hc : SampleChain.InOrder c.blocks)
    {p : Wire.BlockParams} {b : Block} (h : c.block? p = some b) :
    c.blocks[b.header.number.toNat]? = some b := by
  obtain ⟨n, hn⟩ := List.mem_iff_getElem?.mp (SampleChain.block?_eq_some h).1
  rw [hc.number_eq hn, hn]

/-! ### Replies out of the store -/

section Replies

open Attempt

variable {c : SampleChain} (hc : SampleChain.InOrder c.blocks)

/-- The store finds the number of the block that a request names where the chain finds the block. -/
theorem yields_blockNumber? (p : Wire.BlockParams) :
    (liftM ((ofChain c).blockNumber? p) : Attempt UInt64).Yields
      ((c.block? p).map fun b => b.header.number) :=
  blockNumber?_ofChain c p ▸ yields_option _

theorem yields_header? (place : Nat) :
    (liftM (ofChain c).headers[place]? : Attempt Header).Yields
      ((c.blocks[place]?).map Block.header) := by
  have hheader : (ofChain c).headers[place]? = (c.blocks[place]?).map Block.header := by
    simp [ofChain]
  exact hheader ▸ yields_option _

/-- No access of an answer about the state fails. -/
theorem yields_answerStateProof (data : Bytes) :
    ((ofChain c).answerStateProof data).Yields (c.answerStateProof data) := by
  refine (yields_option _).bind fun p _ => ?_
  refine (yields_option _).bind fun block _ => ?_
  refine (yields_blockNumber? block).bind_map fun _ _ => ?_
  refine (yields_option _).bind fun root _ => ?_
  refine (yields_option _).bind fun trie _ => ?_
  exact .check (Trie.gather_eq trie p.key) (yields_pure _)

/-- No access of an answer with a code fails. -/
theorem yields_answerCode (data : Bytes) :
    ((ofChain c).answerCode data).Yields (c.answerCode data) := by
  refine (yields_option _).bind fun p _ => ?_
  refine (yields_option _).bind fun block _ => ?_
  refine (yields_blockNumber? block).bind_map fun _ _ => ?_
  refine (yields_option _).bind fun hash _ => ?_
  show Yields (if hash = sha256 c.code then _ else _) (if hash = sha256 c.code then _ else _)
  split
  · exact yields_pure _
  · exact yields_failure

/-- No access of an answer from a helper trie fails. -/
theorem yields_answerHelperTrie (data : Bytes) :
    ((ofChain c).answerHelperTrie data).Yields (c.answerHelperTrie data) := by
  refine (yields_option _).bind fun p _ => ?_
  refine (yields_option _).bind fun kind _ => ?_
  cases kind with
  | canonicalHash =>
    refine (yields_option _).bind fun trie _ => ?_
    simp only [SampleChain.provenHeader?]
    split
    · rw [Option.bind_eq_bind, Option.bind_map]
      exact (yields_header? _).bind_map fun b _ =>
        .check (Trie.gather_eq trie p.key) (yields_pure _)
    · exact yields_failure
  | bloom =>
    refine (yields_option _).bind fun trie _ => ?_
    exact .check (Trie.gather_eq trie p.key) (yields_pure _)

include hc

/-- No access of an answer with a body fails. -/
theorem yields_answerBody (data : Bytes) :
    ((ofChain c).answerBody data).Yields (c.answerBody data) := by
  refine (yields_option _).bind fun p _ => ?_
  refine (yields_blockNumber? p).bind_map fun b hb => ?_
  exact .check (item_map Block.body (getElem?_of_block? hc hb)) (yields_pure _)

/-- No access of an answer with receipts fails. -/
theorem yields_answerReceipts (data : Bytes) :
    ((ofChain c).answerReceipts data).Yields (c.answerReceipts data) := by
  refine (yields_option _).bind fun p _ => ?_
  refine (yields_blockNumber? p).bind_map fun b hb => ?_
  exact .check (item_map Block.receipts (getElem?_of_block? hc hb)) (yields_pure _)

/-- There is a block with the number of the anchor, so that the number after it is a word; and a range
that does not start before the first block lies within the chain. -/
theorem yields_answerHeaderRange (data : Bytes) :
    ((ofChain c).answerHeaderRange data).Yields (c.answerHeaderRange data) := by
  refine (yields_option _).bind fun p _ => ?_
  refine (yields_header? _).bind_map fun last hb => ?_
  have hnext := SampleChain.toNat_next hc.length_lt hb
  have hplace := (List.getElem?_eq_some_iff.mp hb).1
  -- the anchor is a block of the chain, and a chain has less blocks than there are words
  have hsum : Checked.add p.anchorNumber 1 = .ok (p.anchorNumber + 1) := by
    have hlength := hc.length_lt
    refine Checked.add_eq_ok.mpr ⟨?_, rfl⟩
    rw [UInt64.toNat_one, UInt64.size]
    omega
  simp only [← hc.hash_eq hb, ← or_assoc]
  by_cases hrefused : last.hash.bytes ≠ p.anchor ∨ p.count = 0
  · rw [if_pos hrefused, if_pos (.inl hrefused)]
    exact yields_failure
  rw [if_neg hrefused]
  refine .check hsum ?_
  by_cases hlow : p.anchorNumber + 1 < p.count
  · rw [if_pos hlow, if_pos (.inr hlow)]
    exact yields_failure
  rw [if_neg hlow, if_neg (not_or.mpr ⟨hrefused, hlow⟩)]
  have hroom : p.count ≤ p.anchorNumber + 1 := UInt64.not_lt.mp hlow
  have hfirst := SampleChain.toNat_next_sub hc.length_lt hb
    (hnext ▸ UInt64.le_iff_toNat_le.mp hroom)
  refine .check (Checked.sub_eq_ok.mpr ⟨hroom, rfl⟩) ?_
  have hrange : Checked.range (ofChain c).headers (p.anchorNumber + 1 - p.count).toNat
      p.anchorNumber.toNat = .ok (((c.blocks.take (p.anchorNumber.toNat + 1)).drop
        (p.anchorNumber + 1 - p.count).toNat).map Block.header) := by
    refine Checked.range_eq_ok.mpr ⟨⟨by omega, ?_⟩, ?_⟩
    · rwa [ofChain, List.length_map]
    · rw [ofChain, List.map_drop, List.map_take]
  refine .check hrange ?_
  rw [List.map_map]
  exact yields_pure _

/-- What a store replies is what its chain answers: nothing that it does on the way misses. -/
theorem yields_answer (kind : RequestKind) (data : Bytes) :
    ((ofChain c).answer kind data).Yields (c.answer kind data) := by
  cases kind with
  | headerRange => exact yields_answerHeaderRange hc data
  | body => exact yields_answerBody hc data
  | receipts => exact yields_answerReceipts hc data
  | stateProof => exact yields_answerStateProof data
  | code => exact yields_answerCode data
  | helperTrieProof => exact yields_answerHelperTrie data

end Replies

end ChainStore

end LightClient
