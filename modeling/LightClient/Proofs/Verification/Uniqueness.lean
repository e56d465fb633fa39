/-
Module: LightClient.Proofs.Verification.Uniqueness
Purpose: A request has one answer: two replies that are accepted for it hold the same item, or two
  of the strings that were digested to accept them collide.
Main exports: Request.digested, Header.chain_eq_or_collision, Trie.verifyProof_eq_or_collision,
  Verify.headerRange_eq_or_collision, Verify.canonicalHash_eq_or_collision, verify_unique
-/
import LightClient.Proofs.Header
import LightClient.Proofs.Trie.Commitment
import LightClient.Proofs.Verification.HeaderRanges

namespace LightClient

namespace Header

/-- The headers among those that a peer sent which can be read. -/
def readable (ms : List Wire.HeaderMessage) : List Header :=
  ms.filterMap fun m => (ofMessage m).toOption

/-- Two chains of one length that end at one hash are equal, or two of their headers collide: going
back from the end, each header names the hash of the one before it. -/
theorem chain_eq_or_collision {a b : List Header} {strings : List Bytes} {anchor : Digest}
    (hlength : a.length = b.length) (ha : a.IsChain fun p h => h.parentHash = p.hash)
    (hb : b.IsChain fun p h => h.parentHash = p.hash) (hlasta : ∀ l ∈ a.getLast?, l.hash = anchor)
    (hlastb : ∀ l ∈ b.getLast?, l.hash = anchor)
    (hmema : ∀ h ∈ a, h.extra.length < 2 ^ 64 ∧ h.encode ∈ strings)
    (hmemb : ∀ h ∈ b, h.extra.length < 2 ^ 64 ∧ h.encode ∈ strings) :
    a = b ∨ Collision strings := by
  induction a using List.reverseRecOn generalizing b anchor with
  | nil =>
    rw [List.length_nil] at hlength
    exact .inl (List.length_eq_zero_iff.mp hlength.symm).symm
  | append_singleton xs x ih =>
    rcases List.eq_nil_or_concat' b with rfl | ⟨ys, y, rfl⟩
    · simp at hlength
    rw [List.length_append, List.length_append] at hlength
    rw [List.isChain_append] at ha hb
    have hx := hmema x (by simp)
    have hy := hmemb y (by simp)
    have hhash : x.hash = y.hash := (hlasta x (by simp)).trans (hlastb y (by simp)).symm
    rcases eq_or_collision hx.1 hy.1 hx.2 hy.2 hhash with rfl | hcollision
    · have hrest : xs = ys ∨ Collision strings :=
        ih (by simpa using hlength) ha.1 hb.1 (fun l hl => (ha.2.2 l hl x rfl).symm)
          (fun l hl => (hb.2.2 l hl x rfl).symm)
          (fun h hh => hmema h (List.mem_append_left _ hh))
          (fun h hh => hmemb h (List.mem_append_left _ hh))
      exact hrest.imp_left fun h => by rw [h]
    · exact .inr hcollision

end Header

namespace Trie

variable {strings : List Bytes}

/-- Two proofs for one key below one root prove the same, or two of their nodes collide. -/
theorem verifyProof_eq_or_collision {root : Digest} {key : Bytes} {nodes₁ nodes₂ : List Bytes}
    {v₁ v₂ : Option Bytes} (hs₁ : ∀ x ∈ nodes₁, x ∈ strings)
    (hs₂ : ∀ x ∈ nodes₂, x ∈ strings) (h₁ : verifyProof root key nodes₁ = .ok v₁)
    (h₂ : verifyProof root key nodes₂ = .ok v₂) : v₁ = v₂ ∨ Collision strings :=
  walk_agree ((filedIn_ofNodes nodes₁).mono hs₁) ((filedIn_ofNodes nodes₂).mono hs₂) h₁ h₂

end Trie

/-- What is digested while a reply is checked: the headers in it, the nodes of the tries built from
its lists, the nodes of its proof and the empty string, or its code. -/
def Request.digested (r : Request) (data : Bytes) : List Bytes :=
  match r with
  | .headerRange .. =>
    (Wire.Message.decode? data).elim [] fun m : Wire.HeaderListMessage =>
      (Header.readable m.headers).map Header.encode
  | .body .. =>
    (Wire.Message.decode? data).elim [] fun m : Wire.BodyMessage =>
      Trie.digested (Trie.orderedEntries m.transactions) ++
        Trie.digested (Trie.orderedEntries m.ommers)
  | .receipts .. =>
    (Wire.Message.decode? data).elim [] fun m : Wire.ReceiptsMessage =>
      Trie.digested (Trie.orderedEntries m.receipts)
  | .code .. => (Wire.Message.decode? data).elim [] fun m : Wire.CodeMessage => [m.code]
  | .stateProof .. | .helperTrieProof .bloom .. =>
    (Wire.Message.decode? data).elim [] fun m : Wire.ProofMessage => [] :: m.nodes
  | .helperTrieProof .canonicalHash .. =>
    (Wire.Message.decode? data).elim [] fun m : Wire.ProofMessage =>
      [] :: m.nodes ++ (Header.readable m.header.toList).map Header.encode

namespace Verify

/-- Headers that are held by messages are the ones that are read out of them. -/
theorem readable_of_hold {ms : List Wire.HeaderMessage} {headers : List Header}
    (h : Hold ms headers) : Header.readable ms = headers := by
  unfold Hold at h
  induction h with
  | nil => rfl
  | @cons m first ms rest hfirst hrest ih =>
    have hread : (Header.ofMessage m).toOption = some first := by
      rw [hfirst]
      rfl
    rw [Header.readable, List.filterMap_cons, hread]
    exact congrArg (first :: ·) ih

/-- The extra data of a header that is read is no longer than that of some message. -/
theorem extra_of_mem_readable {ms : List Wire.HeaderMessage} {h : Header}
    (hmem : h ∈ Header.readable ms) : ∃ m ∈ ms, h.extra = m.extra := by
  obtain ⟨m, hm, hread⟩ := List.mem_filterMap.mp hmem
  refine ⟨m, hm, Header.extra_of_ofMessage ?_⟩
  cases hmessage : Header.ofMessage m with
  | error fault => simp [hmessage, Except.toOption] at hread
  | ok x =>
    rw [hmessage] at hread
    cases hread
    rfl

section

variable {data d₁ d₂ : Bytes} {v₁ v₂ : Item} {strings : List Bytes}

/-- Headers that are read have short extra data, and all of them are digested. -/
theorem readable_bounds {m : Wire.HeaderListMessage} {headers : List Header}
    (hdata : data.length < 2 ^ 32) (hm : Wire.Message.decode? data = some m)
    (hheaders : Hold m.headers headers) :
    ∀ h ∈ headers, h.extra.length < 2 ^ 64 ∧
      h.encode ∈ (Header.readable m.headers).map Header.encode := by
  intro h hh
  have hextra := (Wire.HeaderListMessage.within hm).2
  rw [← readable_of_hold hheaders] at hh
  obtain ⟨x, hx, heq⟩ := extra_of_mem_readable hh
  have hle : x.extra.length ≤ data.length := hextra x hx
  rw [heq]
  exact ⟨by omega, List.mem_map_of_mem hh⟩

theorem headerRange_eq_or_collision {anchor : Digest} {anchorNumber count : UInt64}
    (hd₁ : d₁.length < 2 ^ 32) (hd₂ : d₂.length < 2 ^ 32)
    (hs₁ : ∀ x ∈ (Request.headerRange anchor anchorNumber count).digested d₁, x ∈ strings)
    (hs₂ : ∀ x ∈ (Request.headerRange anchor anchorNumber count).digested d₂, x ∈ strings)
    (h₁ : headerRange anchor anchorNumber count d₁ = .ok v₁)
    (h₂ : headerRange anchor anchorNumber count d₂ = .ok v₂) : v₁ = v₂ ∨ Collision strings := by
  obtain ⟨m₁, a, last₁, hm₁, hcount₁, hread₁, hchain₁, hlast₁, hanchor₁, rfl⟩ := headerRange_ok h₁
  obtain ⟨m₂, b, last₂, hm₂, hcount₂, hread₂, hchain₂, hlast₂, hanchor₂, rfl⟩ := headerRange_ok h₂
  rw [mapM_header_ok] at hread₁ hread₂
  have hmem₁ := readable_bounds hd₁ hm₁ hread₁
  have hmem₂ := readable_bounds hd₂ hm₂ hread₂
  rw [Request.digested, hm₁] at hs₁
  rw [Request.digested, hm₂] at hs₂
  -- The counts are compared as words, which so short lists fit.
  have hcounts : a.length = b.length := by
    have hword := congrArg UInt64.toNat (hcount₁.trans hcount₂.symm)
    rw [toNat_length (by omega) hm₁, toNat_length (by omega) hm₂, List.Forall₂.length_eq hread₁,
      List.Forall₂.length_eq hread₂] at hword
    exact hword
  have hchains : a = b ∨ Collision strings :=
    Header.chain_eq_or_collision hcounts hchain₁ hchain₂
      (fun l hl => by rw [hlast₁] at hl; cases hl; exact hanchor₁)
      (fun l hl => by rw [hlast₂] at hl; cases hl; exact hanchor₂)
      (fun h hh => ⟨(hmem₁ h hh).1, hs₁ _ (hmem₁ h hh).2⟩)
      (fun h hh => ⟨(hmem₂ h hh).1, hs₂ _ (hmem₂ h hh).2⟩)
  exact hchains.imp_left (congrArg Item.headers)

/-- Lists in a reply that have one root are equal, or some nodes collide. -/
theorem orderedRoot_within {a b : List Bytes} (hd₁ : d₁.length < 2 ^ 32)
    (hd₂ : d₂.length < 2 ^ 32) (ha : Wire.Within List.length d₁.length d₁.length a)
    (hb : Wire.Within List.length d₂.length d₂.length b)
    (hs₁ : ∀ x ∈ Trie.digested (Trie.orderedEntries a), x ∈ strings)
    (hs₂ : ∀ x ∈ Trie.digested (Trie.orderedEntries b), x ∈ strings)
    (hroot : Trie.orderedRoot a = Trie.orderedRoot b) : a = b ∨ Collision strings := by
  have hcount₁ := ha.1
  have hcount₂ := hb.1
  exact Trie.orderedRoot_eq_or_collision (by omega) (by omega) hs₁ hs₂ hroot

theorem body_eq_or_collision {blockHash : Digest} {number : UInt64}
    {transactionsRoot ommersHash : Digest} (hd₁ : d₁.length < 2 ^ 32)
    (hd₂ : d₂.length < 2 ^ 32)
    (hs₁ : ∀ x ∈ (Request.body blockHash number transactionsRoot ommersHash).digested d₁,
      x ∈ strings)
    (hs₂ : ∀ x ∈ (Request.body blockHash number transactionsRoot ommersHash).digested d₂,
      x ∈ strings)
    (h₁ : body transactionsRoot ommersHash d₁ = .ok v₁)
    (h₂ : body transactionsRoot ommersHash d₂ = .ok v₂) : v₁ = v₂ ∨ Collision strings := by
  obtain ⟨m₁, hm₁, htransactions₁, hommers₁, rfl⟩ := body_ok h₁
  obtain ⟨m₂, hm₂, htransactions₂, hommers₂, rfl⟩ := body_ok h₂
  rw [Request.digested, hm₁, Option.elim, List.forall_mem_append] at hs₁
  rw [Request.digested, hm₂, Option.elim, List.forall_mem_append] at hs₂
  obtain ⟨hwithin₁, hwithin₁'⟩ := Wire.BodyMessage.within hm₁
  obtain ⟨hwithin₂, hwithin₂'⟩ := Wire.BodyMessage.within hm₂
  have htransactions := orderedRoot_within hd₁ hd₂ hwithin₁ hwithin₂ hs₁.1 hs₂.1
    (htransactions₁.trans htransactions₂.symm)
  have hommers := orderedRoot_within hd₁ hd₂ hwithin₁' hwithin₂' hs₁.2 hs₂.2
    (hommers₁.trans hommers₂.symm)
  rcases htransactions with htransactions | hcollision
  · exact hommers.imp_left fun hommers => by rw [htransactions, hommers]
  · exact .inr hcollision

theorem receipts_eq_or_collision {blockHash : Digest} {number : UInt64} {receiptsRoot : Digest}
    (hd₁ : d₁.length < 2 ^ 32) (hd₂ : d₂.length < 2 ^ 32)
    (hs₁ : ∀ x ∈ (Request.receipts blockHash number receiptsRoot).digested d₁, x ∈ strings)
    (hs₂ : ∀ x ∈ (Request.receipts blockHash number receiptsRoot).digested d₂, x ∈ strings)
    (h₁ : receipts receiptsRoot d₁ = .ok v₁) (h₂ : receipts receiptsRoot d₂ = .ok v₂) :
    v₁ = v₂ ∨ Collision strings := by
  obtain ⟨m₁, hm₁, hroot₁, rfl⟩ := receipts_ok h₁
  obtain ⟨m₂, hm₂, hroot₂, rfl⟩ := receipts_ok h₂
  rw [Request.digested, hm₁] at hs₁
  rw [Request.digested, hm₂] at hs₂
  have hreceipts := orderedRoot_within hd₁ hd₂ (Wire.ReceiptsMessage.within hm₁)
    (Wire.ReceiptsMessage.within hm₂) hs₁ hs₂ (hroot₁.trans hroot₂.symm)
  exact hreceipts.imp_left (congrArg Item.receipts)

theorem stateProof_eq_or_collision {blockHash : Digest} {number : UInt64} {root : Digest}
    {key : Bytes}
    (hs₁ : ∀ x ∈ (Request.stateProof blockHash number root key).digested d₁, x ∈ strings)
    (hs₂ : ∀ x ∈ (Request.stateProof blockHash number root key).digested d₂, x ∈ strings)
    (h₁ : stateProof root key d₁ = .ok v₁) (h₂ : stateProof root key d₂ = .ok v₂) :
    v₁ = v₂ ∨ Collision strings := by
  obtain ⟨m₁, value₁, hm₁, hproof₁, rfl⟩ := stateProof_ok h₁
  obtain ⟨m₂, value₂, hm₂, hproof₂, rfl⟩ := stateProof_ok h₂
  rw [Request.digested, hm₁, Option.elim, List.forall_mem_cons] at hs₁
  rw [Request.digested, hm₂, Option.elim, List.forall_mem_cons] at hs₂
  exact (Trie.verifyProof_eq_or_collision hs₁.2 hs₂.2 hproof₁ hproof₂).imp_left
    (congrArg Item.state)

theorem code_eq_or_collision {blockHash : Digest} {number : UInt64} {codeHash : Digest}
    (hs₁ : ∀ x ∈ (Request.code blockHash number codeHash).digested d₁, x ∈ strings)
    (hs₂ : ∀ x ∈ (Request.code blockHash number codeHash).digested d₂, x ∈ strings)
    (h₁ : code codeHash d₁ = .ok v₁) (h₂ : code codeHash d₂ = .ok v₂) :
    v₁ = v₂ ∨ Collision strings := by
  obtain ⟨m₁, hm₁, hhash₁, rfl⟩ := code_ok h₁
  obtain ⟨m₂, hm₂, hhash₂, rfl⟩ := code_ok h₂
  rw [Request.digested, hm₁] at hs₁
  rw [Request.digested, hm₂] at hs₂
  have hcodes := Collision.eq_or (hs₁ _ List.mem_cons_self) (hs₂ _ List.mem_cons_self)
    (hhash₁.trans hhash₂.symm)
  exact hcodes.imp_left (congrArg Item.code)

/-- The header beside a proof has short extra data, and is digested. -/
theorem proof_header_bounds {m : Wire.ProofMessage} {hm : Wire.HeaderMessage} {h : Header}
    (hdata : data.length < 2 ^ 32) (hdecode : Wire.Message.decode? data = some m)
    (hheader : m.header = some hm) (hread : Header.ofMessage hm = .ok h) :
    h.extra.length < 2 ^ 64 ∧
      h.encode ∈ (Header.readable m.header.toList).map Header.encode := by
  have hle : hm.extra.length ≤ data.length := Wire.ProofMessage.extra_le hdecode hm hheader
  rw [Header.extra_of_ofMessage hread]
  refine ⟨by omega, List.mem_map_of_mem (List.mem_filterMap.mpr ⟨hm, ?_, ?_⟩)⟩
  · rw [hheader]
    exact List.mem_cons_self
  · rw [hread]
    rfl

theorem canonicalHash_eq_or_collision {index : UInt64} {root : Digest} {key : Bytes}
    {head : UInt64} (hd₁ : d₁.length < 2 ^ 32) (hd₂ : d₂.length < 2 ^ 32)
    (hs₁ : ∀ x ∈ (Request.helperTrieProof .canonicalHash index root key head).digested d₁,
      x ∈ strings)
    (hs₂ : ∀ x ∈ (Request.helperTrieProof .canonicalHash index root key head).digested d₂,
      x ∈ strings)
    (h₁ : canonicalHash root key d₁ = .ok v₁) (h₂ : canonicalHash root key d₂ = .ok v₂) :
    v₁ = v₂ ∨ Collision strings := by
  obtain ⟨m₁, value₁, hm₁, header₁, total₁, hdecode₁, hproof₁, hparse₁, hheader₁, hread₁, _, rfl⟩ :=
    canonicalHash_ok h₁
  obtain ⟨m₂, value₂, hm₂, header₂, total₂, hdecode₂, hproof₂, hparse₂, hheader₂, hread₂, _, rfl⟩ :=
    canonicalHash_ok h₂
  rw [Request.digested, hdecode₁, Option.elim, List.cons_append, List.forall_mem_cons,
    List.forall_mem_append] at hs₁
  rw [Request.digested, hdecode₂, Option.elim, List.cons_append, List.forall_mem_cons,
    List.forall_mem_append] at hs₂
  obtain ⟨_, hnodes₁, hheaders₁⟩ := hs₁
  obtain ⟨_, hnodes₂, hheaders₂⟩ := hs₂
  rcases Trie.verifyProof_eq_or_collision hnodes₁ hnodes₂ hproof₁ hproof₂ with hvalue | hcollision
  · cases hvalue
    -- One value names one hash and one total difficulty.
    rw [hparse₁] at hparse₂
    obtain ⟨hhash, htotal⟩ := Prod.mk.inj (Option.some.inj hparse₂)
    obtain ⟨hextra₁, hmem₁⟩ := proof_header_bounds hd₁ hdecode₁ hheader₁ hread₁
    obtain ⟨hextra₂, hmem₂⟩ := proof_header_bounds hd₂ hdecode₂ hheader₂ hread₂
    have hheaders := Header.eq_or_collision hextra₁ hextra₂ (hheaders₁ _ hmem₁)
      (hheaders₂ _ hmem₂) hhash
    exact hheaders.imp_left fun h => by rw [h, htotal]
  · exact .inr hcollision

theorem bloomBits_eq_or_collision {index : UInt64} {root : Digest} {key : Bytes} {head : UInt64}
    (hs₁ : ∀ x ∈ (Request.helperTrieProof .bloom index root key head).digested d₁, x ∈ strings)
    (hs₂ : ∀ x ∈ (Request.helperTrieProof .bloom index root key head).digested d₂, x ∈ strings)
    (h₁ : bloomBits root key d₁ = .ok v₁) (h₂ : bloomBits root key d₂ = .ok v₂) :
    v₁ = v₂ ∨ Collision strings := by
  obtain ⟨m₁, bits₁, hm₁, hproof₁, rfl⟩ := bloomBits_ok h₁
  obtain ⟨m₂, bits₂, hm₂, hproof₂, rfl⟩ := bloomBits_ok h₂
  rw [Request.digested, hm₁, Option.elim, List.forall_mem_cons] at hs₁
  rw [Request.digested, hm₂, Option.elim, List.forall_mem_cons] at hs₂
  refine (Trie.verifyProof_eq_or_collision hs₁.2 hs₂.2 hproof₁ hproof₂).imp_left fun h => ?_
  rw [Option.some.inj h]

end

end Verify

/-- A request has one answer, whoever gives it: two items that are accepted for it are equal, or
two different strings with one digest are among those that were digested to check them. -/
theorem verify_unique {r : Request} {p₁ p₂ : PeerId} {d₁ d₂ : Bytes} {v₁ v₂ : Item}
    (hd₁ : d₁.length < 2 ^ 32) (hd₂ : d₂.length < 2 ^ 32) (h₁ : verify r p₁ d₁ = .ok v₁)
    (h₂ : verify r p₂ d₂ = .ok v₂) :
    v₁ = v₂ ∨ ∃ x ∈ r.digested d₁ ++ r.digested d₂, ∃ y ∈ r.digested d₁ ++ r.digested d₂,
      x ≠ y ∧ sha256 x = sha256 y := by
  have hs₁ : ∀ x ∈ r.digested d₁, x ∈ r.digested d₁ ++ r.digested d₂ :=
    fun x hx => List.mem_append_left _ hx
  have hs₂ : ∀ x ∈ r.digested d₂, x ∈ r.digested d₁ ++ r.digested d₂ :=
    fun x hx => List.mem_append_right _ hx
  rw [verify_ok] at h₁ h₂
  cases r with
  | headerRange anchor anchorNumber count =>
    exact Verify.headerRange_eq_or_collision hd₁ hd₂ hs₁ hs₂ h₁ h₂
  | body blockHash number transactionsRoot ommersHash =>
    exact Verify.body_eq_or_collision hd₁ hd₂ hs₁ hs₂ h₁ h₂
  | receipts blockHash number receiptsRoot =>
    exact Verify.receipts_eq_or_collision hd₁ hd₂ hs₁ hs₂ h₁ h₂
  | stateProof blockHash number root key =>
    exact Verify.stateProof_eq_or_collision hs₁ hs₂ h₁ h₂
  | code blockHash number codeHash => exact Verify.code_eq_or_collision hs₁ hs₂ h₁ h₂
  | helperTrieProof trie index root key head =>
    cases trie with
    | canonicalHash => exact Verify.canonicalHash_eq_or_collision hd₁ hd₂ hs₁ hs₂ h₁ h₂
    | bloom => exact Verify.bloomBits_eq_or_collision hs₁ hs₂ h₁ h₂

/-- Two peers prove with the one leaf of a trie that another key is absent, the second with a node
that does not belong. -/
theorem verify_unique_of_absent_key :
    let leaf := Trie.Node.encode (.leaf [2, 3] [8])
    let r := Request.stateProof (sha256 [1]) 5 (sha256 leaf) [0x24]
    let d₁ := Wire.Message.encode (⟨[leaf], none⟩ : Wire.ProofMessage)
    let d₂ := Wire.Message.encode (⟨[[0], leaf], none⟩ : Wire.ProofMessage)
    d₁ ≠ d₂ ∧ verify r ⟨[1]⟩ d₁ = .ok (.state none) ∧ verify r ⟨[2]⟩ d₂ = .ok (.state none) ∧
      (Item.state none = .state none ∨
        ∃ x ∈ r.digested d₁ ++ r.digested d₂, ∃ y ∈ r.digested d₁ ++ r.digested d₂,
          x ≠ y ∧ sha256 x = sha256 y) := by
  intro leaf r d₁ d₂
  have h₁ : verify r ⟨[1]⟩ d₁ = .ok (.state none) := verify_ok.mpr (by decide +kernel)
  have h₂ : verify r ⟨[2]⟩ d₂ = .ok (.state none) := verify_ok.mpr (by decide +kernel)
  have hne : d₁ ≠ d₂ := by decide +kernel
  exact ⟨hne, h₁, h₂, verify_unique (by decide +kernel) (by decide +kernel) h₁ h₂⟩

end LightClient
