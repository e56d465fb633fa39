/-
Module: LightClient.Proofs.FullNode.Completeness
Purpose: Every query about a generated chain is served: the client makes a request of it, a peer
  with the chain can serve the request, and the client accepts the answer for what the chain holds.
Main exports: SampleChain.Holds, SampleChain.query_served
-/
import LightClient.Proofs.FullNode.Answers

namespace LightClient

/-- A peer that serves every kind in version 2 can serve whatever its head has reached. -/
theorem PeerInfo.canServe_of_minHead {p : PeerInfo} {r : Request} (hversion : p.version = 2)
    (hserves : ∀ k, k ∈ p.serves) (hhead : r.minHead ≤ p.head.number) : p.canServe r = true := by
  have hmin : r.kind.minVersion ≤ 2 := by
    cases r.kind <;> decide
  simp [canServe, hversion, hserves, hhead, hmin]

/-- A query that is tied to its root by itself needs no lookup. -/
theorem Query.request_of_complete {q : Query} {s : RetrievalSettings} {r : Request}
    (h : q.binding s = .ok (.complete r)) (lookup : HelperTrie → UInt64 → SectionRoots.Answer) :
    q.request s lookup = .ok r := by
  rw [request, h]
  rfl

/-- A query for headers that can exist is tied to its own range. -/
theorem Query.binding_headers {s : RetrievalSettings} {anchor : Digest}
    {anchorNumber count : UInt64} (hcount : 1 ≤ count.toNat)
    (hroom : count.toNat ≤ anchorNumber.toNat + 1) :
    (headers anchor anchorNumber count).binding s =
      .ok (.complete (.headerRange anchor anchorNumber count)) := by
  apply if_neg
  rintro (hzero | hlow)
  · rw [hzero] at hcount
    exact absurd hcount (by decide)
  · rw [saturatingAdd_one_lt_iff] at hlow
    exact Nat.not_lt.mpr hroom hlow

/-- A query for a block by its number needs the root of the section that the number is in. -/
theorem Query.binding_canonicalHeader {s : RetrievalSettings} {size number last : UInt64}
    (hsize : s.canonicalHashSection = size) (hlast : sectionEnd (number / size) size = .ok last) :
    (canonicalHeader number).binding s =
      .ok (.perSection .canonicalHash (number / size) (HelperTrie.blockKey number) last) := by
  simp only [binding, hsize, hlast]
  rfl

/-- A query for bits needs the root of their section. -/
theorem Query.binding_bloomBits {s : RetrievalSettings} {size index last : UInt64} {bit : UInt16}
    (hsize : s.bloomSection = size) (hlast : sectionEnd index size = .ok last) :
    (bloomBits bit index).binding s =
      .ok (.perSection .bloom index (HelperTrie.bitKey bit index) last) := by
  simp only [binding, hsize, hlast]
  rfl

namespace SampleChain

/-- What a chain holds for a query about its own data. -/
inductive Holds (c : SampleChain) : Query → Item → Prop where
  /-- The headers up to any block, at most as many as there are. -/
  | headers {n : Nat} {b : Block} {count : UInt64} (hb : c.blocks[n]? = some b)
      (hcount : 1 ≤ count.toNat) (hroom : count.toNat ≤ n + 1) :
      Holds c (.headers b.header.hash (UInt64.ofNat n) count)
        (.headers ((c.range n count.toNat).map Block.header))
  | body {n : Nat} {b : Block} (hb : c.blocks[n]? = some b) :
      Holds c (.body b.header) (.body b.body)
  | receipts {n : Nat} {b : Block} (hb : c.blocks[n]? = some b) :
      Holds c (.receipts b.header) (.receipts b.receipts)
  /-- Any key of the state at any block, whether there is a value or not. -/
  | account {n : Nat} {b : Block} {key : Bytes} (hb : c.blocks[n]? = some b)
      (hkey : key.Addressable) : Holds c (.account b.header key) (.state (c.state.get key))
  /-- Any key of the storage at any block, whether there is a value or not. -/
  | storage {n : Nat} {b : Block} {key : Bytes} (hb : c.blocks[n]? = some b)
      (hkey : key.Addressable) :
      Holds c (.storage b.header c.storage.root key) (.state (c.storage.get key))
  | code {n : Nat} {b : Block} (hb : c.blocks[n]? = some b) :
      Holds c (.code b.header c.codeHash) (.code c.code)
  /-- The header of any block in a complete section. -/
  | canonicalHeader {n : Nat} {b : Block} (hb : c.blocks[n]? = some b)
      (hsection : n / c.sectionSize < c.sections) :
      Holds c (.canonicalHeader (UInt64.ofNat n)) (.canonicalHeader b.header b.totalDifficulty)
  /-- Any of the eight bits that a complete section stores. -/
  | bloomBits {bit : UInt16} {index : UInt64} (hbit : bit.toNat < 8)
      (hsection : index.toNat < c.sections) :
      Holds c (.bloomBits bit index) (.bloomBits ((c.bloomBits? bit index).getD []))

/-- The answers of an indexer that has gone through the chain. -/
def indexed (c : SampleChain) (trie : HelperTrie) (index : UInt64) : SectionRoots.Answer :=
  .ok ((SectionRoots.ofChain c).find? trie index)

/-- A query comes to a request that a peer with the chain can serve, and the peer's answer is
accepted for the item. -/
def Served (c : SampleChain) (s : RetrievalSettings) (p : PeerInfo) (q : Query) (item : Item) :
    Prop :=
  ∃ r data, q.request s c.indexed = .ok r ∧ p.canServe r = true ∧
    c.answer r.kind r.encode = some data ∧ verify r p.id data = .ok item

/-- What the chain answers is served to a client that asks a peer with a head high enough. -/
theorem Answers.served {c : SampleChain} {s : RetrievalSettings} {p : PeerInfo} {q : Query}
    {r : Request} {item : Item} (h : c.Answers r item) (hversion : p.version = 2)
    (hserves : ∀ k, k ∈ p.serves) (hhead : r.minHead ≤ p.head.number)
    (hrequest : q.request s c.indexed = .ok r) : c.Served s p q item := by
  obtain ⟨data, hanswer, hcheck⟩ := h
  exact ⟨r, data, hrequest, PeerInfo.canServe_of_minHead hversion hserves hhead, hanswer,
    verify_ok.mpr hcheck⟩

theorem eq_of_generate? {length size : Nat} {salt : String} {chain : SampleChain}
    (h : generate? length size salt = some chain) : chain = generate length size salt := by
  unfold generate? at h
  split at h
  · cases h
  · exact (Option.some.inj h).symm

section Generated

variable {length n : Nat} {size : UInt64} {salt : String} {b : Block}

/-- No block has a number beyond the head. -/
theorem number_le_head (hlength : length < 2 ^ 64)
    (hb : (generate length size.toNat salt).blocks[n]? = some b) :
    b.header.number ≤ (generate length size.toNat salt).head.number := by
  have hn := lt_of_getElem?_blocks hb
  rw [UInt64.le_iff_toNat_le, head_number hlength (by omega), toNat_number hlength hb]
  omega

/-- A query that is tied to a complete section comes to a request with the root of this section,
which the indexer knows. -/
theorem request_perSection {q : Query} {s : RetrievalSettings} {trie : HelperTrie}
    {index last : UInt64} {key : Bytes} {t : Trie} (hlength : length < 2 ^ 64)
    (hbinding : q.binding s = .ok (.perSection trie index key last))
    (hindex : index.toNat < (generate length size.toNat salt).sections)
    (htrie : (generate length size.toNat salt).helperTrie? trie index = some t) :
    q.request s (generate length size.toNat salt).indexed =
      .ok (.helperTrieProof trie index t.root key last) := by
  have hsections : (generate length size.toNat salt).sections ≤ 2 ^ 64 := by
    rw [sections_generate]
    exact (Nat.div_le_self _ _).trans hlength.le
  have hroot : SectionRoots.accept trie index
      ((generate length size.toNat salt).indexed trie index) = .ok t.root := by
    rw [indexed, SectionRoots.find?_ofChain hsections hindex, SectionRoots.confirmed?, htrie]
    exact if_pos ⟨rfl, rfl⟩
  exact Query.request_of_perSection hbinding hroot

end Generated

/-- Every query about a chain is served. Whatever the length of the chain and the size of its
sections, a client that trusts the section roots of the chain gets, from a peer that has the chain,
exactly what the chain holds: headers, bodies, receipts and code, the value or the absence of any
key, old headers with their total difficulty, and bloom bits. Only a collision among the strings
that the chain is known by could lead the peer or the client astray. The salt has to leave some
room in memory, less than the bytes of one header take. -/
theorem query_served {length size : UInt64} {salt : String} {chain : SampleChain}
    {s : RetrievalSettings} {p : PeerInfo} {q : Query} {item : Item}
    (hchain : generate? length.toNat size.toNat salt = some chain)
    (hsalt : salt.utf8ByteSize + 64 < 2 ^ 63)
    (hcanonicalHash : s.canonicalHashSection = size) (hbloom : s.bloomSection = size)
    (hversion : p.version = 2) (hserves : ∀ k, k ∈ p.serves) (hhead : p.head = chain.head)
    (hitem : chain.Holds q item) : chain.Served s p q item ∨ Collision chain.strings := by
  by_cases hno : Collision chain.strings
  · exact .inr hno
  left
  have hlength : length.toNat < 2 ^ 64 := length.toNat_lt
  obtain rfl := eq_of_generate? hchain
  -- every block of the chain lies below the head that the peer has announced
  have hreached : ∀ {n : Nat} {b : Block},
      (generate length.toNat size.toNat salt).blocks[n]? = some b →
      b.header.number ≤ p.head.number := fun hb => by
    rw [hhead]
    exact number_le_head hlength hb
  -- what is read from the chain decides who answers, and whether a section root has to be looked up
  cases hitem with
  | @headers n b count hb hcount hroom =>
    have hnumber := (made_of_getElem? hlength hb).number_eq
    have hword := toNat_place hlength hb
    apply (answers_headerRange hlength hb hcount hroom hsalt).served hversion hserves
    · exact hnumber ▸ hreached hb
    · exact Query.request_of_complete (Query.binding_headers hcount (hword.symm ▸ hroom)) _
  | body hb =>
    exact (answers_body hlength hsalt hno hb).served hversion hserves (hreached hb)
      (Query.request_of_complete rfl _)
  | receipts hb =>
    exact (answers_receipts hlength hsalt hno hb).served hversion hserves (hreached hb)
      (Query.request_of_complete rfl _)
  | @account n b key hb hkey =>
    have hanswers := answers_stateProof hlength hsalt hno hb (.inl rfl) hkey
    rw [← (made_of_getElem? hlength hb).stateRoot_eq] at hanswers
    exact hanswers.served hversion hserves (hreached hb) (Query.request_of_complete rfl _)
  | storage hb hkey =>
    exact (answers_stateProof hlength hsalt hno hb (.inr rfl) hkey).served hversion hserves
      (hreached hb) (Query.request_of_complete rfl _)
  | code hb =>
    exact (answers_code hlength hsalt hno hb).served hversion hserves (hreached hb)
      (Query.request_of_complete rfl _)
  | @canonicalHeader n b hb hsection =>
    have hindex : (b.header.number / size).toNat = n / size.toNat := by
      rw [UInt64.toNat_div, toNat_number hlength hb]
    have hcomplete : (b.header.number / size).toNat <
        (generate length.toNat size.toNat salt).sections := hindex ▸ hsection
    obtain ⟨last, hlast, hle⟩ := sectionEnd_ok hlength hcomplete
    obtain ⟨t, htrie, hanswers⟩ := answers_canonicalHash hlength hsalt hno hb hsection hindex last
    rw [← (made_of_getElem? hlength hb).number_eq]
    exact hanswers.served hversion hserves (hhead ▸ hle) (request_perSection hlength
      (Query.binding_canonicalHeader hcanonicalHash hlast) hcomplete htrie)
  | @bloomBits bit index hbit hsection =>
    have hbits := bloomBits?_generate hsalt hno hbit hsection
    obtain ⟨last, hlast, hle⟩ := sectionEnd_ok hlength hsection
    obtain ⟨t, htrie, hanswers⟩ := answers_bloomBits hlength hsalt hno hbits last
    rw [hbits]
    exact hanswers.served hversion hserves (hhead ▸ hle) (request_perSection hlength
      (Query.binding_bloomBits hbloom hlast) hsection htrie)

/-- The header of the second of three blocks, which with the first one makes up a section, is served
with its total difficulty. -/
theorem query_served_of_second_block :
    let chain := generate 3 2 "main"
    let s : RetrievalSettings := ⟨3000, 4, 1000, 2, 2⟩
    let p : PeerInfo := ⟨⟨[1]⟩, none, 2, RequestKind.all, chain.head⟩
    ∃ b, chain.blocks[1]? = some b ∧
      (chain.Served s p (.canonicalHeader 1) (.canonicalHeader b.header b.totalDifficulty) ∨
        Collision chain.strings) := by
  intro chain s p
  obtain ⟨b, hb⟩ : ∃ b, chain.blocks[1]? = some b := ⟨_, rfl⟩
  have hsection : 1 / chain.sectionSize < chain.sections := by
    rw [sections_generate]
    decide
  have hserves : ∀ k, k ∈ p.serves := by
    intro k
    cases k <;> decide
  exact ⟨b, hb, @query_served 3 2 "main" chain s p _ _ rfl (by decide) rfl rfl rfl hserves rfl
    (.canonicalHeader hb hsection)⟩

end SampleChain

end LightClient
