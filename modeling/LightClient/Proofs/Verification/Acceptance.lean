/-
Module: LightClient.Proofs.Verification.Acceptance
Purpose: What suffices for each kind of reply to be accepted, one statement for each check.
Main exports: Verify.headerRange_encode, Verify.body_encode, Verify.receipts_encode,
  Verify.stateProof_encode, Verify.code_encode, Verify.canonicalHash_encode,
  Verify.bloomBits_encode
-/
import LightClient.Proofs.HelperTrie
import LightClient.Proofs.Verification.HeaderRanges
import LightClient.Proofs.Wire.Exchanges

namespace LightClient

namespace Verify

/-- Headers that are linked to each other and to the anchor, and numbered from the first block of
the range on, are accepted. -/
theorem headerRange_encode {anchor : Digest} {anchorNumber count : UInt64}
    {headers : List Header} {last : Header} (hcount : count ≠ 0)
    (hroom : count.toNat ≤ anchorNumber.toNat + 1) (hlength : headers.length = count.toNat)
    (hnumbers : ∀ i h, headers[i]? = some h →
      h.number.toNat = anchorNumber.toNat + 1 - count.toNat + i)
    (hlinks : headers.IsChain fun p h => h.parentHash = p.hash)
    (hlast : headers.getLast? = some last) (hanchor : last.hash = anchor)
    (hextra : ∀ h ∈ headers, h.extra.length < 2 ^ 63) :
    headerRange anchor anchorNumber count
        (Wire.Message.encode (⟨headers.map Header.toMessage⟩ : Wire.HeaderListMessage)) =
      .ok (.headers headers) := by
  have hmessage : Wire.Message.decode? (Wire.Message.encode
      (⟨headers.map Header.toMessage⟩ : Wire.HeaderListMessage)) =
      some (⟨headers.map Header.toMessage⟩ : Wire.HeaderListMessage) := by
    apply Wire.HeaderListMessage.decode?_encode
    apply Wire.measured_fields.mpr
    intro m hm
    obtain ⟨h, hh, rfl⟩ := List.mem_map.mp hm
    exact Header.length_toMessage_lt (hextra h hh)
  have hwords : UInt64.ofNat (headers.map Header.toMessage).length = count := by
    rw [List.length_map, hlength, UInt64.ofNat_toNat]
  have hpos : 1 ≤ count.toNat := Nat.pos_of_ne_zero fun h => hcount (UInt64.toNat_inj.mp h)
  obtain ⟨first, hfirst, hfirstNat⟩ := exists_firstNumber? hpos hroom
  have hchecked : checkLinks first 0 none headers = .ok () := by
    have htop := anchorNumber.toNat_lt
    rw [checkLinks_ok_iff_of_room (by omega), hfirstNat]
    exact ⟨hnumbers, hlinks⟩
  exact headerRange_ok_iff.mpr ⟨_, headers, first, last, hmessage, hwords,
    mapM_header_ok.mpr (hold_toMessage headers), hfirst, hchecked, hlast, hanchor, rfl⟩

/-- The body of a block with the two roots is accepted. -/
theorem body_encode {transactions ommers : List Bytes}
    (htransactions : ∀ b ∈ transactions, b.length < 2 ^ 64)
    (hommers : ∀ b ∈ ommers, b.length < 2 ^ 64) :
    body (Trie.orderedRoot transactions) (Trie.orderedRoot ommers)
        (Wire.Message.encode (⟨transactions, ommers⟩ : Wire.BodyMessage)) =
      .ok (.body ⟨transactions, ommers⟩) := by
  unfold body
  have hmessage := Wire.BodyMessage.decode?_encode (m := ⟨transactions, ommers⟩)
    (Wire.measured_append.mpr ⟨Wire.measured_bytesFields.mpr htransactions,
      Wire.measured_bytesFields.mpr hommers⟩)
  rw [message_ok.mpr hmessage, bind_eq_ok]
  refine ⟨_, rfl, ?_⟩
  rw [if_neg (not_not.mpr rfl), if_neg (not_not.mpr rfl)]

/-- Receipts with the root are accepted. -/
theorem receipts_encode {items : List Bytes} (hitems : ∀ b ∈ items, b.length < 2 ^ 64) :
    receipts (Trie.orderedRoot items) (Wire.Message.encode (⟨items⟩ : Wire.ReceiptsMessage)) =
      .ok (.receipts items) := by
  unfold receipts
  have hmessage := Wire.ReceiptsMessage.decode?_encode (m := ⟨items⟩)
    (Wire.measured_bytesFields.mpr hitems)
  rw [message_ok.mpr hmessage, bind_eq_ok]
  refine ⟨_, rfl, ?_⟩
  rw [if_neg (not_not.mpr rfl)]

/-- Code with the digest is accepted. -/
theorem code_encode {bytes : Bytes} (hbytes : bytes.length < 2 ^ 64) :
    code (sha256 bytes) (Wire.Message.encode (⟨bytes⟩ : Wire.CodeMessage)) =
      .ok (.code bytes) := by
  unfold code
  have hmessage := Wire.CodeMessage.decode?_encode (m := ⟨bytes⟩)
    (Wire.measured_bytesField.mpr hbytes)
  rw [message_ok.mpr hmessage, bind_eq_ok]
  refine ⟨_, rfl, ?_⟩
  rw [if_neg (not_not.mpr rfl)]

section Proofs

variable {root : Digest} {key : Bytes} {nodes : List Bytes}

theorem message_nodes (hnodes : ∀ b ∈ nodes, b.length < 2 ^ 64) :
    message (Wire.Message.encode (⟨nodes, none⟩ : Wire.ProofMessage)) =
      .ok (⟨nodes, none⟩ : Wire.ProofMessage) := by
  apply message_ok.mpr
  apply Wire.ProofMessage.decode?_encode
  exact Wire.measured_append.mpr ⟨Wire.measured_bytesFields.mpr hnodes, nofun⟩

/-- What a proof says about a key of the state is accepted. -/
theorem stateProof_encode {value : Option Bytes} (hnodes : ∀ b ∈ nodes, b.length < 2 ^ 64)
    (hproof : Trie.verifyProof root key nodes = .ok value) :
    stateProof root key (Wire.Message.encode (⟨nodes, none⟩ : Wire.ProofMessage)) =
      .ok (.state value) := by
  unfold stateProof
  rw [message_nodes hnodes, bind_eq_ok]
  refine ⟨_, rfl, ?_⟩
  rw [proven_ok.mpr hproof]
  rfl

/-- A header is accepted with a proof of its hash and total difficulty under its own number. -/
theorem canonicalHash_encode {header : Header} {totalDifficulty : Nat}
    (hnodes : ∀ b ∈ nodes, b.length < 2 ^ 64) (hextra : header.extra.length < 2 ^ 63)
    (hdifficulty : totalDifficulty < 2 ^ 128)
    (hproof : Trie.verifyProof root (HelperTrie.blockKey header.number) nodes =
      .ok (some (HelperTrie.blockValue header.hash totalDifficulty))) :
    canonicalHash root (HelperTrie.blockKey header.number)
        (Wire.Message.encode (⟨nodes, some header.toMessage⟩ : Wire.ProofMessage)) =
      .ok (.canonicalHeader header totalDifficulty) := by
  have hmessage := Wire.ProofMessage.decode?_encode (m := ⟨nodes, some header.toMessage⟩)
    (Wire.measured_append.mpr ⟨Wire.measured_bytesFields.mpr hnodes,
      Wire.measured_some (Header.length_toMessage_lt hextra)⟩)
  unfold canonicalHash
  rw [message_ok.mpr hmessage, bind_eq_ok]
  refine ⟨_, rfl, ?_⟩
  rw [proven_ok.mpr hproof, bind_eq_ok]
  refine ⟨_, rfl, ?_⟩
  simp only [HelperTrie.parseBlockValue_blockValue hdifficulty]
  rw [header_ok.mpr header.ofMessage_toMessage, bind_eq_ok]
  refine ⟨_, rfl, ?_⟩
  rw [if_neg (not_not.mpr rfl), if_neg (not_not.mpr rfl)]

/-- Bits are accepted with a proof of them. -/
theorem bloomBits_encode {bits : Bytes} (hnodes : ∀ b ∈ nodes, b.length < 2 ^ 64)
    (hproof : Trie.verifyProof root key nodes = .ok (some bits)) :
    bloomBits root key (Wire.Message.encode (⟨nodes, none⟩ : Wire.ProofMessage)) =
      .ok (.bloomBits bits) := by
  unfold bloomBits
  rw [message_nodes hnodes, bind_eq_ok]
  refine ⟨_, rfl, ?_⟩
  rw [proven_ok.mpr hproof]
  rfl

end Proofs

end Verify

end LightClient
