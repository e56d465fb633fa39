/-
Module: LightClient.Proofs.FullNode.Replies
Purpose: What a full node does with any bytes that it is asked with. Nothing on the way to the reply
  misses; a reply can be read as the message of its kind; and what is said of a block is said only if
  the request names a block of the chain.
Main exports: RequestKind.IsReply, RequestKind.block?, SampleChain.Sendable,
  SampleChain.isReply_of_answer, SampleChain.exists_block?_of_answer, ChainStore.answer_never_stops
-/
import LightClient.Proofs.FullNode.ChainStore

namespace LightClient

/-- The bytes can be read as the message in which replies of a kind are sent. -/
def RequestKind.IsReply (kind : RequestKind) (payload : Bytes) : Prop :=
  match kind with
  | .headerRange => ∃ m : Wire.HeaderListMessage, Wire.Message.decode? payload = some m
  | .body => ∃ m : Wire.BodyMessage, Wire.Message.decode? payload = some m
  | .receipts => ∃ m : Wire.ReceiptsMessage, Wire.Message.decode? payload = some m
  | .code => ∃ m : Wire.CodeMessage, Wire.Message.decode? payload = some m
  | .stateProof | .helperTrieProof => ∃ m : Wire.ProofMessage, Wire.Message.decode? payload = some m

/-- The block that an encoded request names, if it is of a kind that asks for something of one
block. -/
def RequestKind.block? (kind : RequestKind) (data : Bytes) : Option Wire.BlockParams :=
  match kind with
  | .body | .receipts => Wire.Message.decode? data
  | .stateProof => (Wire.Message.decode? data).bind Wire.StateParams.block
  | .code => (Wire.Message.decode? data).bind Wire.CodeParams.block
  | .headerRange | .helperTrieProof => none

namespace SampleChain

/-! ### What a chain can send -/

/-- Everything that a chain puts into its replies has a length that fits a word. -/
structure Sendable (c : SampleChain) : Prop where
  header : ∀ b ∈ c.blocks, (Wire.Message.encode b.header.toMessage).length < 2 ^ 64
  transaction : ∀ b ∈ c.blocks, ∀ x ∈ b.body.transactions, x.length < 2 ^ 64
  ommer : ∀ b ∈ c.blocks, ∀ x ∈ b.body.ommers, x.length < 2 ^ 64
  receipt : ∀ b ∈ c.blocks, ∀ x ∈ b.receipts, x.length < 2 ^ 64
  node : ∀ t ∈ c.tries, ∀ key, ∀ x ∈ t.prove key, x.length < 2 ^ 64
  code : c.code.length < 2 ^ 64

/-- Nothing in a generated chain is much longer than the salt, which is a text in memory. -/
theorem sendable_generate {length size : Nat} {salt : String} (hlength : length < 2 ^ 64)
    (hsalt : salt.utf8ByteSize < 2 ^ 63) : (generate length size salt).Sendable := by
  constructor
  case header =>
    intro b hb
    obtain ⟨_, h⟩ := exists_made hlength hb
    have hextra := h.extra_le
    have hmessage := Wire.HeaderMessage.length_encode_le b.header.toMessage
    simp only [Header.toMessage, Digest.length_bytes] at hmessage ⊢
    omega
  case transaction =>
    intro b hb x hx
    obtain ⟨_, h⟩ := exists_made hlength hb
    have hle := h.transactions_le x hx
    omega
  case ommer =>
    intro b hb x hx
    obtain ⟨_, h⟩ := exists_made hlength hb
    rw [h.ommers_eq] at hx
    cases hx
  case receipt =>
    intro b hb x hx
    obtain ⟨_, h⟩ := exists_made hlength hb
    have hle := h.receipts_le x hx
    omega
  case node =>
    intro t ht key x hx
    obtain ⟨entries, rfl, hshort⟩ := exists_short_of_mem_tries hlength ht
    have hle := Trie.length_le_of_mem_prove hshort hx
    omega
  case code =>
    have hle := @length_code_le salt length size
    omega

/-! ### Replies can be read -/

/-- A trie that the chain finds for a root is among its tries. -/
theorem mem_tries_of_trie? {c : SampleChain} {root : Digest} {t : Trie} (h : c.trie? root = some t) :
    t ∈ c.tries := by
  unfold trie? at h
  split at h
  · cases h
    exact List.mem_cons_self
  · split at h
    · cases h
      exact List.mem_cons_of_mem _ List.mem_cons_self
    · cases h

/-- The header that goes with a proof is that of a block of the chain. -/
theorem provenHeader?_eq_some {c : SampleChain} {trie : HelperTrie} {key : Bytes}
    {m : Wire.HeaderMessage} (h : c.provenHeader? trie key = some (some m)) :
    ∃ b ∈ c.blocks, m = b.header.toMessage := by
  cases trie with
  | bloom => cases h
  | canonicalHash =>
    simp only [provenHeader?] at h
    split at h
    · obtain ⟨b, hb, hm⟩ := Option.map_eq_some_iff.mp h
      exact ⟨b, List.mem_of_getElem? hb, (Option.some.inj hm).symm⟩
    · cases h

section Read

variable {c : SampleChain} {data payload : Bytes} (hc : c.Sendable)

include hc

/-- An answer with headers can be read as such. -/
theorem isReply_of_answerHeaderRange (h : c.answerHeaderRange data = some payload) :
    RequestKind.headerRange.IsReply payload := by
  obtain ⟨p, _, h⟩ := Option.bind_eq_some_iff.mp h
  obtain ⟨last, _, h⟩ := Option.bind_eq_some_iff.mp h
  dsimp only at h
  split at h
  · cases h
  · cases h
    refine ⟨_, Wire.HeaderListMessage.decode?_encode (Wire.measured_fields.mpr fun m hm => ?_)⟩
    obtain ⟨b, hb, rfl⟩ := List.mem_map.mp hm
    exact hc.header b (List.mem_of_mem_take (List.mem_of_mem_drop hb))

/-- An answer with a body can be read as such. -/
theorem isReply_of_answerBody (h : c.answerBody data = some payload) :
    RequestKind.body.IsReply payload := by
  obtain ⟨p, _, h⟩ := Option.bind_eq_some_iff.mp h
  obtain ⟨b, hb, h⟩ := Option.bind_eq_some_iff.mp h
  cases h
  have hmem := (block?_eq_some hb).1
  exact ⟨_, Wire.BodyMessage.decode?_encode (Wire.measured_append.mpr
    ⟨Wire.measured_bytesFields.mpr (hc.transaction b hmem),
      Wire.measured_bytesFields.mpr (hc.ommer b hmem)⟩)⟩

/-- An answer with receipts can be read as such. -/
theorem isReply_of_answerReceipts (h : c.answerReceipts data = some payload) :
    RequestKind.receipts.IsReply payload := by
  obtain ⟨p, _, h⟩ := Option.bind_eq_some_iff.mp h
  obtain ⟨b, hb, h⟩ := Option.bind_eq_some_iff.mp h
  cases h
  exact ⟨_, Wire.ReceiptsMessage.decode?_encode
    (Wire.measured_bytesFields.mpr (hc.receipt b (block?_eq_some hb).1))⟩

/-- A proof out of a trie of the chain can be read, with the header of a block beside it. -/
theorem exists_proofMessage {t : Trie} (ht : t ∈ c.tries) (key : Bytes)
    {header : Option Wire.HeaderMessage}
    (hheader : ∀ m ∈ header, ∃ b ∈ c.blocks, m = b.header.toMessage) :
    ∃ m : Wire.ProofMessage, Wire.Message.decode?
      (Wire.Message.encode (⟨t.prove key, header⟩ : Wire.ProofMessage)) = some m := by
  refine ⟨_, Wire.ProofMessage.decode?_encode (Wire.measured_append.mpr
    ⟨Wire.measured_bytesFields.mpr (hc.node t ht key), Wire.measured_fields.mpr fun m hm => ?_⟩)⟩
  obtain ⟨b, hb, rfl⟩ := hheader m (Option.mem_toList.mp hm)
  exact hc.header b hb

/-- An answer about the state can be read as a proof. -/
theorem isReply_of_answerStateProof (h : c.answerStateProof data = some payload) :
    RequestKind.stateProof.IsReply payload := by
  obtain ⟨p, _, h⟩ := Option.bind_eq_some_iff.mp h
  obtain ⟨block, _, h⟩ := Option.bind_eq_some_iff.mp h
  obtain ⟨_, _, h⟩ := Option.bind_eq_some_iff.mp h
  obtain ⟨root, _, h⟩ := Option.bind_eq_some_iff.mp h
  obtain ⟨t, ht, h⟩ := Option.bind_eq_some_iff.mp h
  cases h
  exact exists_proofMessage hc (mem_tries_of_trie? ht) p.key nofun

/-- An answer with a code can be read as such. -/
theorem isReply_of_answerCode (h : c.answerCode data = some payload) :
    RequestKind.code.IsReply payload := by
  obtain ⟨p, _, h⟩ := Option.bind_eq_some_iff.mp h
  obtain ⟨block, _, h⟩ := Option.bind_eq_some_iff.mp h
  obtain ⟨_, _, h⟩ := Option.bind_eq_some_iff.mp h
  obtain ⟨hash, _, h⟩ := Option.bind_eq_some_iff.mp h
  split at h
  · cases h
    exact ⟨_, Wire.CodeMessage.decode?_encode (Wire.measured_bytesField.mpr hc.code)⟩
  · cases h

/-- An answer from a helper trie can be read as a proof. -/
theorem isReply_of_answerHelperTrie (h : c.answerHelperTrie data = some payload) :
    RequestKind.helperTrieProof.IsReply payload := by
  obtain ⟨p, _, h⟩ := Option.bind_eq_some_iff.mp h
  obtain ⟨kind, _, h⟩ := Option.bind_eq_some_iff.mp h
  obtain ⟨t, ht, h⟩ := Option.bind_eq_some_iff.mp h
  obtain ⟨header, hheader, h⟩ := Option.bind_eq_some_iff.mp h
  cases h
  refine exists_proofMessage hc (mem_tries_of_helperTrie? ht) p.key ?_
  rintro m rfl
  exact provenHeader?_eq_some hheader

/-- Whatever a chain replies can be read as the reply to the kind of request that it was asked. -/
theorem isReply_of_answer {kind : RequestKind} (h : c.answer kind data = some payload) :
    kind.IsReply payload := by
  cases kind with
  | headerRange => exact isReply_of_answerHeaderRange hc h
  | body => exact isReply_of_answerBody hc h
  | receipts => exact isReply_of_answerReceipts hc h
  | stateProof => exact isReply_of_answerStateProof hc h
  | code => exact isReply_of_answerCode hc h
  | helperTrieProof => exact isReply_of_answerHelperTrie hc h

end Read

/-! ### Replies about a block -/

/-- A chain replies with something of one block only if the request names a block of the chain. -/
theorem exists_block?_of_answer {c : SampleChain} {kind : RequestKind} {data payload : Bytes}
    (hkind : kind ∈ [.body, .receipts, .stateProof, .code])
    (h : c.answer kind data = some payload) :
    ∃ p b, kind.block? data = some p ∧ c.block? p = some b := by
  cases kind with
  | headerRange | helperTrieProof => exact absurd hkind (by decide)
  | body | receipts =>
    obtain ⟨p, hp, h⟩ := Option.bind_eq_some_iff.mp h
    obtain ⟨b, hb, _⟩ := Option.bind_eq_some_iff.mp h
    exact ⟨p, b, hp, hb⟩
  | stateProof | code =>
    obtain ⟨params, hparams, h⟩ := Option.bind_eq_some_iff.mp h
    obtain ⟨p, hp, h⟩ := Option.bind_eq_some_iff.mp h
    obtain ⟨b, hb, _⟩ := Option.bind_eq_some_iff.mp h
    exact ⟨p, b, Option.bind_eq_some_iff.mpr ⟨params, hparams, hp⟩, hb⟩

end SampleChain

/-! ### Whatever it is asked -/

namespace ChainStore

/-- A full node survives any request. For a chain of any length, with sections that are not empty, the
store is generated, and then it never stops, whatever bytes of whatever kind it is asked with: every
place that it looks up in a list is there, every slice lies within the list, and every sum and
difference is a word. It replies what the chain answers. A reply can be read as the message of its
kind; and if it is about one block, the request names a block of the chain, by the hash of its header
and by its number. The salt is a text that memory can hold. -/
theorem answer_never_stops {length size : UInt64} {salt : String} (hsize : size ≠ 0)
    (hsalt : salt.utf8ByteSize < 2 ^ 63) :
    ∃ store, generate length size salt = .ok store ∧
      ∀ (kind : RequestKind) (data : Bytes), ∃ reply, (store.answer kind data).run = .ok reply ∧
        reply = (SampleChain.generate length.toNat size.toNat salt).answer kind data ∧
        ∀ payload, reply = some payload →
          kind.IsReply payload ∧
          (kind ∈ [.body, .receipts, .stateProof, .code] →
            ∃ p h, kind.block? data = some p ∧ store.headers[p.blockNumber.toNat]? = some h ∧
              p.blockHash = h.hash.bytes ∧ p.blockNumber = h.number) := by
  have hc : SampleChain.InOrder (SampleChain.generate length.toNat size.toNat salt).blocks :=
    SampleChain.inOrder_blocks length.toNat_lt
  have hsendable : (SampleChain.generate length.toNat size.toNat salt).Sendable :=
    SampleChain.sendable_generate length.toNat_lt hsalt
  refine ⟨_, generate_eq hsize salt, fun kind data => ⟨_, yields_answer hc kind data, rfl, ?_⟩⟩
  intro payload h
  refine ⟨SampleChain.isReply_of_answer hsendable h, fun hkind => ?_⟩
  obtain ⟨p, b, hp, hb⟩ := SampleChain.exists_block?_of_answer hkind h
  obtain ⟨_, hhash, hnumber⟩ := SampleChain.block?_eq_some hb
  have hplace := getElem?_of_block? hc hb
  refine ⟨p, b.header, hp, ?_, ?_, hnumber.symm⟩
  · rw [← hnumber, ofChain, List.getElem?_map, hplace, Option.map_some]
  · rw [hhash, hc.hash_eq hplace]

/-- The range that ends at the second of three blocks is replied to, and bytes that are no request for
a body are not. -/
theorem answer_never_stops_at_second_block :
    ∃ store b payload, generate 3 2 "main" = .ok store ∧
      (SampleChain.generate 3 2 "main").blocks[1]? = some b ∧
      (store.answer .headerRange (Request.headerRange b.header.hash 1 2).encode).run =
        .ok (some payload) ∧
      RequestKind.headerRange.IsReply payload ∧ (store.answer .body [0xff]).run = .ok none := by
  obtain ⟨store, hstore, hanswer⟩ :=
    @answer_never_stops 3 2 "main" (by decide) (by decide)
  obtain ⟨b, hb⟩ : ∃ b, (SampleChain.generate 3 2 "main").blocks[1]? = some b := ⟨_, rfl⟩
  obtain ⟨reply, hreply, hrange, hread⟩ :=
    hanswer .headerRange (Request.headerRange b.header.hash 1 2).encode
  obtain ⟨refused, hrefused, hbody, _⟩ := hanswer .body [0xff]
  have hserved := @SampleChain.answer_headerRange 3 2 1 "main" b 2 (by decide) hb (by decide)
    (by decide)
  rw [hrange.trans hserved] at hreply
  refine ⟨store, b, _, hstore, hb, hreply, (hread _ (hrange.trans hserved)).1, ?_⟩
  have hnone : (SampleChain.generate 3 2 "main").answer .body [0xff] = none := rfl
  rw [hrefused, hbody]
  exact congrArg Except.ok hnone

end ChainStore

end LightClient
