/-
Module: LightClient.Proofs.FullNode.Answers
Purpose: What a full node with a generated chain answers to each kind of request, and that the
  answer passes the check of the request.
Main exports: SampleChain.Answers, SampleChain.answers_headerRange, SampleChain.answers_body,
  SampleChain.answers_receipts, SampleChain.answers_stateProof, SampleChain.answers_code,
  SampleChain.answers_canonicalHash, SampleChain.answers_bloomBits
-/
import LightClient.Proofs.FullNode.Sections
import LightClient.Proofs.Verification.Acceptance
import LightClient.Proofs.Verification.Uniqueness

namespace LightClient

namespace SampleChain

/-- A full node with the chain answers the request, and the answer proves the item. -/
def Answers (c : SampleChain) (r : Request) (item : Item) : Prop :=
  ∃ data, c.answer r.kind r.encode = some data ∧ r.check data = .ok item

variable {length size n : Nat} {salt : String} {b : Block}

/-! ### Header ranges -/

/-- The blocks of a range: as many as asked for, up to the last one. -/
def range (c : SampleChain) (n count : Nat) : List Block :=
  (c.blocks.drop (n + 1 - count)).take count

section Range

variable {c : SampleChain} {count : Nat}

/-- A block of a range is a block of the chain. -/
theorem getElem?_range {i : Nat} {a : Block} (h : (c.range n count)[i]? = some a) :
    c.blocks[n + 1 - count + i]? = some a := by
  unfold range at h
  rw [List.getElem?_take] at h
  split at h
  · rw [List.getElem?_drop] at h
    exact h
  · cases h

/-- A range that the chain has room for is as long as was asked. -/
theorem length_range (hb : c.blocks[n]? = some b) (hroom : count ≤ n + 1) :
    (c.range n count).length = count := by
  have hn := (List.getElem?_eq_some_iff.mp hb).1
  simp only [range, List.length_take, List.length_drop]
  omega

/-- A range ends with its anchor. -/
theorem getLast?_range (hb : c.blocks[n]? = some b) (hcount : 1 ≤ count) (hroom : count ≤ n + 1) :
    (c.range n count).getLast? = some b := by
  have hplace : n + 1 - count + (count - 1) = n := by omega
  rw [List.getLast?_eq_getElem?, length_range hb hroom, range,
    List.getElem?_take_of_lt (by omega), List.getElem?_drop, hplace]
  exact hb

/-- The blocks up to the last one without those before the first one make up the range. -/
theorem drop_take_eq_range (hroom : count ≤ n + 1) :
    (c.blocks.take (n + 1)).drop (n + 1 - count) = c.range n count := by
  rw [List.drop_take, Nat.sub_sub_self hroom]
  rfl

end Range

section Reply

variable {c : SampleChain} {anchorNumber count : UInt64} (hlength : c.blocks.length < 2 ^ 64)
  (hb : c.blocks[anchorNumber.toNat]? = some b)

include hlength hb

/-- The number after that of a block is a word, since the number of all blocks is one. -/
theorem toNat_next : (anchorNumber + 1).toNat = anchorNumber.toNat + 1 := by
  have hn := (List.getElem?_eq_some_iff.mp hb).1
  rw [UInt64.toNat_add, UInt64.toNat_one, Nat.mod_eq_of_lt (by omega)]

/-- The word arithmetic for the first number of a range is that of the naturals while the range
starts at the genesis block or after it. -/
theorem toNat_next_sub (hroom : count.toNat ≤ anchorNumber.toNat + 1) :
    (anchorNumber + 1 - count).toNat = anchorNumber.toNat + 1 - count.toNat := by
  have hnext := toNat_next hlength hb
  rw [UInt64.toNat_sub_of_le _ _ (UInt64.le_iff_toNat_le.mpr (hnext ▸ hroom)), hnext]

/-- The full node replies with the headers of a range that ends at one of its blocks, if the range
is not empty and does not start before the first block. -/
theorem answerHeaderRange_of_block {data : Bytes}
    (hdata : Wire.Message.decode? data =
      some (⟨b.hash.bytes, anchorNumber, count⟩ : Wire.HeaderRangeParams)) :
    c.answerHeaderRange data =
      if 1 ≤ count.toNat ∧ count.toNat ≤ anchorNumber.toNat + 1 then
        some (Wire.Message.encode
          (⟨((c.range anchorNumber.toNat count.toNat).map Block.header).map Header.toMessage⟩ :
            Wire.HeaderListMessage))
      else none := by
  have hzero : count = 0 ↔ count.toNat = 0 := UInt64.toNat_inj.symm
  rw [answerHeaderRange, hdata]
  simp only [Option.bind_eq_bind, Option.bind_some, hb, ne_eq, not_true_eq_false, false_or, hzero,
    UInt64.lt_iff_toNat_lt, toNat_next hlength hb]
  by_cases hgood : 1 ≤ count.toNat ∧ count.toNat ≤ anchorNumber.toNat + 1
  · rw [if_neg (by omega), if_pos hgood, toNat_next_sub hlength hb hgood.2,
      drop_take_eq_range hgood.2, List.map_map]
    rfl
  · rw [if_pos (by omega), if_neg hgood]

end Reply

section HeaderRange

variable {count : UInt64} (hlength : length < 2 ^ 64)
  (hb : (generate length size salt).blocks[n]? = some b) (hcount : 1 ≤ count.toNat)
  (hroom : count.toNat ≤ n + 1)

include hlength hb

theorem toNat_place : (UInt64.ofNat n).toNat = n := by
  rw [← (made_of_getElem? hlength hb).number_eq, toNat_number hlength hb]

include hcount hroom

/-- The full node answers with the headers of the range. -/
theorem answer_headerRange :
    (generate length size salt).answer .headerRange
        (Request.headerRange b.header.hash (UInt64.ofNat n) count).encode =
      some (Wire.Message.encode
        (⟨(((generate length size salt).range n count.toNat).map Block.header).map
          Header.toMessage⟩ : Wire.HeaderListMessage)) := by
  have hdecode := @Wire.HeaderRangeParams.decode?_encode
    ⟨b.header.hash.bytes, UInt64.ofNat n, count⟩ (by simp [Wire.Message.fields, Digest.length_bytes])
  have hplace := toNat_place hlength hb
  rw [← (made_of_getElem? hlength hb).hash_eq] at hdecode
  have hreply := answerHeaderRange_of_block (length_blocks.trans_lt hlength)
    (hplace.symm ▸ hb) hdecode
  rw [hplace, if_pos ⟨hcount, hroom⟩] at hreply
  rw [answer, Request.encode]
  exact (made_of_getElem? hlength hb).hash_eq ▸ hreply

/-- The client accepts the headers of the range: they are numbered and linked as it checks them. -/
theorem headerRange_accepted (hsalt : salt.utf8ByteSize + 64 < 2 ^ 63) :
    Verify.headerRange b.header.hash (UInt64.ofNat n) count (Wire.Message.encode
        (⟨(((generate length size salt).range n count.toNat).map Block.header).map
          Header.toMessage⟩ : Wire.HeaderListMessage)) =
      .ok (.headers (((generate length size salt).range n count.toNat).map Block.header)) := by
  apply @Verify.headerRange_encode _ _ _ _ b.header
  · intro hzero
    rw [hzero] at hcount
    exact absurd hcount (by decide)
  · rw [toNat_place hlength hb]
    exact hroom
  · rw [List.length_map, length_range hb hroom]
  · intro i h hh
    rw [List.getElem?_map] at hh
    obtain ⟨a, ha, rfl⟩ := Option.map_eq_some_iff.mp hh
    rw [toNat_number hlength (getElem?_range ha), toNat_place hlength hb]
  · rw [List.isChain_map]
    exact (isChain_blocks.drop _).take _
  · rw [List.getLast?_map, getLast?_range hb hcount hroom]
    rfl
  · rfl
  · intro h hh
    obtain ⟨a, ha, rfl⟩ := List.mem_map.mp hh
    obtain ⟨i, hi⟩ := List.mem_iff_getElem?.mp ha
    have hextra := (made_of_getElem? hlength (getElem?_range hi)).extra_le
    omega

/-- A request for headers is answered with the blocks that lead to its anchor. -/
theorem answers_headerRange (hsalt : salt.utf8ByteSize + 64 < 2 ^ 63) :
    (generate length size salt).Answers (.headerRange b.header.hash (UInt64.ofNat n) count)
      (.headers (((generate length size salt).range n count.toNat).map Block.header)) :=
  ⟨_, answer_headerRange hlength hb hcount hroom,
    headerRange_accepted hlength hb hcount hroom hsalt⟩

end HeaderRange

/-! ### What a block holds -/

section Collisionless

variable (hlength : length < 2 ^ 64) (hsalt : salt.utf8ByteSize + 64 < 2 ^ 63)
  (hno : ¬ Collision (generate length size salt).strings)

include hlength hsalt hno

/-- A request for a body is answered with the body of the block. -/
theorem answers_body (hb : (generate length size salt).blocks[n]? = some b) :
    (generate length size salt).Answers
      (.body b.header.hash b.header.number b.header.transactionsRoot b.header.ommersHash)
      (.body b.body) := by
  have hmade := made_of_getElem? hlength hb
  refine ⟨Wire.Message.encode (⟨b.body.transactions, b.body.ommers⟩ : Wire.BodyMessage), ?_, ?_⟩
  · have hdecode := @Wire.BlockParams.decode?_encode ⟨b.header.hash.bytes, b.header.number⟩
      (by simp [Wire.Message.fields, Digest.length_bytes])
    simp only [answer, Request.kind, Request.encode, answerBody]
    rw [hdecode]
    simp only [Option.bind_eq_bind, Option.bind_some, block?_eq hlength hsalt hno hb]
  · simp only [Request.check, hmade.transactionsRoot_eq, hmade.ommersHash_eq]
    apply Verify.body_encode
    · intro x hx
      have hx := hmade.transactions_le x hx
      omega
    · rw [hmade.ommers_eq]
      exact fun _ hx => nomatch hx

/-- A request for receipts is answered with those of the block. -/
theorem answers_receipts (hb : (generate length size salt).blocks[n]? = some b) :
    (generate length size salt).Answers
      (.receipts b.header.hash b.header.number b.header.receiptsRoot) (.receipts b.receipts) := by
  have hmade := made_of_getElem? hlength hb
  refine ⟨Wire.Message.encode (⟨b.receipts⟩ : Wire.ReceiptsMessage), ?_, ?_⟩
  · have hdecode := @Wire.BlockParams.decode?_encode ⟨b.header.hash.bytes, b.header.number⟩
      (by simp [Wire.Message.fields, Digest.length_bytes])
    simp only [answer, Request.kind, Request.encode, answerReceipts]
    rw [hdecode]
    simp only [Option.bind_eq_bind, Option.bind_some, block?_eq hlength hsalt hno hb]
  · simp only [Request.check, hmade.receiptsRoot_eq]
    apply Verify.receipts_encode
    intro x hx
    have hx := hmade.receipts_le x hx
    omega

/-! ### State and code -/

/-- The trie that is found by the root of the state or of the storage proves what this trie holds.
It is another one only if both have the same root, and then both prove the same. -/
theorem exists_trie? {t : Trie} (ht : t = (generate length size salt).state ∨
    t = (generate length size salt).storage) :
    ∃ t' ∈ (generate length size salt).tries, (generate length size salt).trie? t.root = some t' ∧
      ∀ key, Trie.verifyProof t.root key (t'.prove key) = .ok (t.get key) := by
  have hstate : (generate length size salt).state ∈ (generate length size salt).tries :=
    List.mem_cons_self
  have hstorage : (generate length size salt).storage ∈ (generate length size salt).tries :=
    List.mem_cons_of_mem _ List.mem_cons_self
  have hserves := @serves_of_mem_tries length size salt hlength hsalt hno
  by_cases hroot : t.root = (generate length size salt).state.root
  · refine ⟨(generate length size salt).state, hstate, if_pos hroot, fun key => ?_⟩
    have ht' : t ∈ (generate length size salt).tries := by
      rcases ht with rfl | rfl
      · exact hstate
      · exact hstorage
    have hproves := (hserves hstate).proves key
    have hproves' := (hserves ht').proves key
    rw [← hroot] at hproves
    have hown : ∀ {u : Trie}, u ∈ (generate length size salt).tries →
        ∀ x ∈ u.prove key, x ∈ (generate length size salt).strings := fun hu x hx =>
      ownStrings_subset_strings hu x (Trie.mem_ownStrings_of_mem (Trie.mem_encodings_of_mem_prove hx))
    have hsame := (Trie.verifyProof_eq_or_collision (hown hstate) (hown ht') hproves
      hproves').resolve_right hno
    rw [hproves, hsame]
  · rcases ht with rfl | rfl
    · exact absurd rfl hroot
    · exact ⟨_, hstorage, (if_neg hroot).trans (if_pos rfl), (hserves hstorage).proves⟩

omit hlength hsalt hno in
theorem length_blockParams_lt (h : Header) :
    (Wire.Message.encode (⟨h.hash.bytes, h.number⟩ : Wire.BlockParams)).length < 2 ^ 64 := by
  have hlength := Wire.BlockParams.length_encode_le ⟨h.hash.bytes, h.number⟩
  rw [h.hash.length_bytes] at hlength
  omega

/-- A request for an account or a slot is answered with what the trie holds under its key. -/
theorem answers_stateProof (hb : (generate length size salt).blocks[n]? = some b) {t : Trie}
    (ht : t = (generate length size salt).state ∨ t = (generate length size salt).storage)
    {key : Bytes} (hkey : key.Addressable) :
    (generate length size salt).Answers
      (.stateProof b.header.hash b.header.number t.root key) (.state (t.get key)) := by
  obtain ⟨t', hmem, htrie, hproves⟩ := exists_trie? hlength hsalt hno ht
  refine ⟨Wire.Message.encode (⟨t'.prove key, none⟩ : Wire.ProofMessage), ?_, ?_⟩
  · have hdecode := @Wire.StateParams.decode?_encode
      ⟨some ⟨b.header.hash.bytes, b.header.number⟩, t.root.bytes, key⟩
      (Wire.measured_append.mpr ⟨Wire.measured_append.mpr
        ⟨Wire.measured_some (length_blockParams_lt b.header), by simp [Digest.length_bytes]⟩,
        Wire.measured_bytesField.mpr (Nat.lt_trans hkey (by omega))⟩)
    simp only [answer, Request.kind, Request.encode, answerStateProof]
    rw [hdecode]
    simp only [Option.bind_eq_bind, Option.bind_some, block?_eq hlength hsalt hno hb,
      Digest.ofBytes?_bytes, htrie]
  · exact Verify.stateProof_encode
      ((serves_of_mem_tries hlength hsalt hno hmem).sendable key) (hproves key)

/-- A request for a code is answered with the code. -/
theorem answers_code (hb : (generate length size salt).blocks[n]? = some b) :
    (generate length size salt).Answers
      (.code b.header.hash b.header.number (generate length size salt).codeHash)
      (.code (generate length size salt).code) := by
  refine ⟨Wire.Message.encode (⟨(generate length size salt).code⟩ : Wire.CodeMessage), ?_, ?_⟩
  · have hdecode := @Wire.CodeParams.decode?_encode
      ⟨some ⟨b.header.hash.bytes, b.header.number⟩,
        (generate length size salt).codeHash.bytes⟩
      (Wire.measured_append.mpr
        ⟨Wire.measured_some (length_blockParams_lt b.header), by simp [Digest.length_bytes]⟩)
    simp only [answer, Request.kind, Request.encode, answerCode]
    rw [hdecode]
    simp only [Option.bind_eq_bind, Option.bind_some, block?_eq hlength hsalt hno hb,
      Digest.ofBytes?_bytes, if_true]
  · apply Verify.code_encode
    have hcode := @length_code_le salt length size
    omega

/-! ### Helper tries -/

/-- A request for a block of a full section is answered with the hash and the difficulty that the
helper trie holds. -/
theorem answers_canonicalHash (hb : (generate length size salt).blocks[n]? = some b)
    (hsection : n / size < (generate length size salt).sections) {index : UInt64}
    (hindex : index.toNat = n / size) (minHead : UInt64) :
    ∃ t, (generate length size salt).helperTrie? .canonicalHash index = some t ∧
      (generate length size salt).Answers
        (.helperTrieProof .canonicalHash index t.root (HelperTrie.blockKey b.header.number) minHead)
        (.canonicalHeader b.header b.totalDifficulty) := by
  have hmade := made_of_getElem? hlength hb
  obtain ⟨t, htrie, hget⟩ := get_canonicalHash hlength hno hb hsection hindex
  have hserves := serves_of_mem_tries hlength hsalt hno (mem_tries_of_helperTrie? htrie)
  refine ⟨t, htrie, Wire.Message.encode
    (⟨t.prove (HelperTrie.blockKey b.header.number), some b.header.toMessage⟩ :
      Wire.ProofMessage), ?_, ?_⟩
  · have hwidth : (HelperTrie.blockKey b.header.number).length = 8 := Bytes.length_bigEndian _ _
    have hdecode := @Wire.HelperTrieParams.decode?_encode
      ⟨HelperTrie.canonicalHash.wire, index, HelperTrie.blockKey b.header.number⟩
      (by simp [Wire.Message.fields, hwidth])
    have hplace : Bytes.ofBigEndian (HelperTrie.blockKey b.header.number) = n := by
      have hroom : b.header.number.toNat < 256 ^ 8 := b.header.number.toNat_lt
      rw [HelperTrie.blockKey, Bytes.ofBigEndian_bigEndian, Nat.mod_eq_of_lt hroom,
        toNat_number hlength hb]
    have hheader : (generate length size salt).provenHeader? .canonicalHash
        (HelperTrie.blockKey b.header.number) = some (some b.header.toMessage) := by
      rw [provenHeader?, if_pos hwidth, hplace, hb]
      rfl
    have hkind : HelperTrie.ofWire? HelperTrie.canonicalHash.wire = some .canonicalHash := rfl
    simp only [answer, Request.kind, Request.encode, answerHelperTrie]
    rw [hdecode]
    simp only [Option.bind_eq_bind, Option.bind_some, hkind, htrie, hheader]
  · have hextra := hmade.extra_le
    have hproves := hserves.proves (HelperTrie.blockKey b.header.number)
    rw [hget, hmade.hash_eq] at hproves
    exact Verify.canonicalHash_encode (hserves.sendable _) (by omega)
      (totalDifficulty_lt hlength hb) hproves

/-- A request for the bits of a full section is answered with what the helper trie holds. -/
theorem answers_bloomBits {bit : UInt16} {index : UInt64} {bits : Bytes}
    (hbits : (generate length size salt).bloomBits? bit index = some bits) (minHead : UInt64) :
    ∃ t, (generate length size salt).helperTrie? .bloom index = some t ∧
      (generate length size salt).Answers
        (.helperTrieProof .bloom index t.root (HelperTrie.bitKey bit index) minHead)
        (.bloomBits bits) := by
  obtain ⟨t, htrie, hget⟩ := Option.bind_eq_some_iff.mp hbits
  have hserves := serves_of_mem_tries hlength hsalt hno (mem_tries_of_helperTrie? htrie)
  refine ⟨t, htrie, Wire.Message.encode
    (⟨t.prove (HelperTrie.bitKey bit index), none⟩ : Wire.ProofMessage), ?_, ?_⟩
  · have hdecode := @Wire.HelperTrieParams.decode?_encode
      ⟨HelperTrie.bloom.wire, index, HelperTrie.bitKey bit index⟩
      (by simp [Wire.Message.fields, HelperTrie.bitKey])
    have hkind : HelperTrie.ofWire? HelperTrie.bloom.wire = some .bloom := rfl
    simp only [answer, Request.kind, Request.encode, answerHelperTrie]
    rw [hdecode]
    simp only [Option.bind_eq_bind, Option.bind_some, hkind, htrie, provenHeader?]
  · have hproves := hserves.proves (HelperTrie.bitKey bit index)
    rw [hget] at hproves
    exact Verify.bloomBits_encode (hserves.sendable _) hproves

end Collisionless

end SampleChain

end LightClient
