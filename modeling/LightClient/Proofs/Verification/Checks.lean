/-
Module: LightClient.Proofs.Verification.Checks
Purpose: What has to hold for each kind of reply to be accepted, one statement for each check.
Main exports: Verify.checkLinks_ok_iff, Verify.headerRange_ok_iff, Verify.headerRange_ok,
  Verify.body_ok, Verify.receipts_ok, Verify.stateProof_ok, Verify.code_ok,
  Verify.canonicalHash_ok, Verify.bloomBits_ok, Request.answers_of_check
-/
import Mathlib.Data.List.Chain
import LightClient.Checked
import LightClient.Verify

namespace LightClient

namespace Verify

theorem message_ok {α : Type} [Wire.Message α] {data : Bytes} {m : α} :
    (message data : Except Flaw α) = .ok m ↔ Wire.Message.decode? data = some m := by
  unfold message
  cases (Wire.Message.decode? data : Option α) <;> simp

theorem header_ok {m : Wire.HeaderMessage} {h : Header} :
    header m = .ok h ↔ Header.ofMessage m = .ok h := by
  unfold header
  cases Header.ofMessage m <;> simp

theorem proven_ok {root : Digest} {key : Bytes} {nodes : List Bytes} {value : Option Bytes} :
    proven root key nodes = .ok value ↔ Trie.verifyProof root key nodes = .ok value := by
  unfold proven
  cases Trie.verifyProof root key nodes <;> simp

/-- Links hold if the numbers go up by one from the first, and every header names the one before
it as its parent. -/
theorem checkLinks_ok_iff {first : UInt64} {index : Nat} {previous : Option Header}
    {headers : List Header} :
    checkLinks first index previous headers = .ok () ↔
      (∀ i h, headers[i]? = some h → h.number = first + UInt64.ofNat (index + i)) ∧
        (previous.toList ++ headers).IsChain fun p h => h.parentHash = p.hash := by
  induction headers generalizing index previous with
  | nil => cases previous <;> simp [checkLinks]
  | cons h rest ih =>
    -- the head of the list apart, both for the numbers and for the links
    have hnumbers : (∀ i x, (h :: rest)[i]? = some x →
          x.number = first + UInt64.ofNat (index + i)) ↔
        h.number = first + UInt64.ofNat index ∧
          ∀ i x, rest[i]? = some x → x.number = first + UInt64.ofNat (index + 1 + i) := by
      constructor
      · intro hall
        constructor
        · exact hall 0 h rfl
        · intro i x hx
          rw [Nat.add_assoc, Nat.add_comm 1 i]
          exact hall (i + 1) x hx
      · rintro ⟨hfirst, hrest⟩ i x hx
        cases i with
        | zero =>
          cases hx
          exact hfirst
        | succ i =>
          rw [Nat.add_comm i 1, ← Nat.add_assoc]
          exact hrest i x hx
    have hlinks : (previous.toList ++ h :: rest).IsChain (fun p h => h.parentHash = p.hash) ↔
        (previous.any fun p => h.parentHash ≠ p.hash) = false ∧
          ([h] ++ rest).IsChain fun p h => h.parentHash = p.hash := by
      cases previous with
      | none => simp
      | some p => simp
    unfold checkLinks
    rw [hnumbers, hlinks]
    by_cases hnumber : h.number = first + UInt64.ofNat index
    · by_cases hlink : (previous.any fun p => h.parentHash ≠ p.hash) = false
      · rw [if_neg (not_not.mpr hnumber), if_neg (by rw [hlink]; exact Bool.false_ne_true), ih]
        constructor
        · rintro ⟨hrest, hchain⟩
          exact ⟨⟨hnumber, hrest⟩, hlink, hchain⟩
        · rintro ⟨⟨_, hrest⟩, _, hchain⟩
          exact ⟨hrest, hchain⟩
      · rw [if_neg (not_not.mpr hnumber), if_pos (Bool.not_eq_false _ ▸ hlink)]
        simp only [reduceCtorEq, false_iff]
        rintro ⟨_, hlinked, _⟩
        exact hlink hlinked
    · rw [if_pos hnumber]
      simp only [reduceCtorEq, false_iff]
      rintro ⟨⟨hfirst, _⟩, _⟩
      exact hnumber hfirst

/-- A header range is accepted exactly if every one of its checks passes. -/
theorem headerRange_ok_iff {anchor : Digest} {anchorNumber count : UInt64} {data : Bytes}
    {item : Item} :
    headerRange anchor anchorNumber count data = .ok item ↔
      ∃ (m : Wire.HeaderListMessage) (headers : List Header) (first : UInt64) (last : Header),
        Wire.Message.decode? data = some m ∧ UInt64.ofNat m.headers.length = count ∧
          m.headers.mapM header = .ok headers ∧ firstNumber? anchorNumber count = some first ∧
          checkLinks first 0 none headers = .ok () ∧ headers.getLast? = some last ∧
          last.hash = anchor ∧ item = .headers headers := by
  constructor
  · intro h
    obtain ⟨m, hm, h⟩ := bind_eq_ok.mp h
    split at h
    · cases h
    next hcount =>
      obtain ⟨headers, hheaders, h⟩ := bind_eq_ok.mp h
      split at h
      · cases h
      next first hfirst =>
        obtain ⟨_, hlinks, h⟩ := bind_eq_ok.mp h
        split at h
        next last hlast =>
          split at h
          next hanchor =>
            cases h
            exact ⟨m, headers, first, last, message_ok.mp hm, not_not.mp hcount, hheaders, hfirst,
              hlinks, hlast, hanchor, rfl⟩
          next => cases h
        next => cases h
  · rintro ⟨m, headers, first, last, hm, hcount, hheaders, hfirst, hlinks, hlast, hanchor, rfl⟩
    unfold headerRange
    rw [message_ok.mpr hm, bind_eq_ok]
    refine ⟨m, rfl, ?_⟩
    rw [if_neg (not_not.mpr hcount), hheaders, bind_eq_ok]
    refine ⟨headers, rfl, ?_⟩
    rw [hfirst]
    simp only
    rw [hlinks, bind_eq_ok]
    refine ⟨(), rfl, ?_⟩
    rw [hlast]
    exact if_pos hanchor

/-- An accepted header range holds as many headers as were asked for, linked to each other and
to the anchor. -/
theorem headerRange_ok {anchor : Digest} {anchorNumber count : UInt64} {data : Bytes}
    {item : Item} (h : headerRange anchor anchorNumber count data = .ok item) :
    ∃ (m : Wire.HeaderListMessage) (headers : List Header) (last : Header),
      Wire.Message.decode? data = some m ∧ UInt64.ofNat m.headers.length = count ∧
        m.headers.mapM header = .ok headers ∧
        (headers.IsChain fun p h => h.parentHash = p.hash) ∧
        headers.getLast? = some last ∧ last.hash = anchor ∧ item = .headers headers := by
  obtain ⟨m, headers, _, last, hm, hcount, hheaders, _, hlinks, hlast, hanchor, hitem⟩ :=
    headerRange_ok_iff.mp h
  have hchain := (checkLinks_ok_iff.mp hlinks).2
  exact ⟨m, headers, last, hm, hcount, hheaders, hchain, hlast, hanchor, hitem⟩

/-- An accepted body has the two roots. -/
theorem body_ok {transactionsRoot ommersHash : Digest} {data : Bytes} {item : Item}
    (h : body transactionsRoot ommersHash data = .ok item) :
    ∃ m : Wire.BodyMessage, Wire.Message.decode? data = some m ∧
      Trie.orderedRoot m.transactions = transactionsRoot ∧
      Trie.orderedRoot m.ommers = ommersHash ∧ item = .body ⟨m.transactions, m.ommers⟩ := by
  obtain ⟨m, hm, h⟩ := bind_eq_ok.mp h
  split at h
  · cases h
  next htransactions =>
    split at h
    · cases h
    next hommers =>
      cases h
      exact ⟨m, message_ok.mp hm, not_not.mp htransactions, not_not.mp hommers, rfl⟩

/-- Accepted receipts have the root. -/
theorem receipts_ok {receiptsRoot : Digest} {data : Bytes} {item : Item}
    (h : receipts receiptsRoot data = .ok item) :
    ∃ m : Wire.ReceiptsMessage, Wire.Message.decode? data = some m ∧
      Trie.orderedRoot m.receipts = receiptsRoot ∧ item = .receipts m.receipts := by
  obtain ⟨m, hm, h⟩ := bind_eq_ok.mp h
  split at h
  · cases h
  next hroot =>
    cases h
    exact ⟨m, message_ok.mp hm, not_not.mp hroot, rfl⟩

/-- An accepted state proof proves the value. -/
theorem stateProof_ok {root : Digest} {key data : Bytes} {item : Item}
    (h : stateProof root key data = .ok item) :
    ∃ (m : Wire.ProofMessage) (value : Option Bytes), Wire.Message.decode? data = some m ∧
      Trie.verifyProof root key m.nodes = .ok value ∧ item = .state value := by
  obtain ⟨m, hm, h⟩ := bind_eq_ok.mp h
  obtain ⟨value, hvalue, h⟩ := bind_eq_ok.mp h
  cases h
  exact ⟨m, value, message_ok.mp hm, proven_ok.mp hvalue, rfl⟩

/-- Accepted code has the hash. -/
theorem code_ok {codeHash : Digest} {data : Bytes} {item : Item}
    (h : code codeHash data = .ok item) :
    ∃ m : Wire.CodeMessage, Wire.Message.decode? data = some m ∧ sha256 m.code = codeHash ∧
      item = .code m.code := by
  obtain ⟨m, hm, h⟩ := bind_eq_ok.mp h
  split at h
  · cases h
  next hhash =>
    cases h
    exact ⟨m, message_ok.mp hm, not_not.mp hhash, rfl⟩

/-- An accepted canonical header has the hash that is proven for its block. -/
theorem canonicalHash_ok {root : Digest} {key data : Bytes} {item : Item}
    (h : canonicalHash root key data = .ok item) :
    ∃ (m : Wire.ProofMessage) (value : Bytes) (hm : Wire.HeaderMessage) (header : Header)
        (totalDifficulty : Nat),
      Wire.Message.decode? data = some m ∧
        Trie.verifyProof root key m.nodes = .ok (some value) ∧
        HelperTrie.parseBlockValue value = some (header.hash, totalDifficulty) ∧
        m.header = some hm ∧ Header.ofMessage hm = .ok header ∧
        HelperTrie.blockKey header.number = key ∧
        item = .canonicalHeader header totalDifficulty := by
  obtain ⟨m, hm, h⟩ := bind_eq_ok.mp h
  obtain ⟨value, hvalue, h⟩ := bind_eq_ok.mp h
  split at h
  · cases h
  next value =>
    split at h
    · cases h
    next hash totalDifficulty hparse =>
      split at h
      · cases h
      next hmessage hheader =>
        obtain ⟨header, hread, h⟩ := bind_eq_ok.mp h
        split at h
        · cases h
        next hhash =>
          split at h
          · cases h
          next hkey =>
            cases h
            have hhash : header.hash = hash := not_not.mp hhash
            rw [← hhash] at hparse
            exact ⟨m, value, hmessage, header, totalDifficulty, message_ok.mp hm,
              proven_ok.mp hvalue, hparse, hheader, header_ok.mp hread, not_not.mp hkey, rfl⟩

/-- Accepted bloom bits are the value that is proven. -/
theorem bloomBits_ok {root : Digest} {key data : Bytes} {item : Item}
    (h : bloomBits root key data = .ok item) :
    ∃ (m : Wire.ProofMessage) (bits : Bytes), Wire.Message.decode? data = some m ∧
      Trie.verifyProof root key m.nodes = .ok (some bits) ∧ item = .bloomBits bits := by
  obtain ⟨m, hm, h⟩ := bind_eq_ok.mp h
  obtain ⟨value, hvalue, h⟩ := bind_eq_ok.mp h
  split at h
  · cases h
  next bits =>
    cases h
    exact ⟨m, bits, message_ok.mp hm, proven_ok.mp hvalue, rfl⟩

end Verify

/-- What a reply is accepted as is of the kind that was asked for. -/
theorem Request.answers_of_check {r : Request} {data : Bytes} {item : Item}
    (h : r.check data = .ok item) : item.answers r = true := by
  cases r with
  | headerRange anchor anchorNumber count =>
    obtain ⟨_, _, _, _, _, _, _, _, _, rfl⟩ := Verify.headerRange_ok h
    rfl
  | body blockHash number transactionsRoot ommersHash =>
    obtain ⟨_, _, _, _, rfl⟩ := Verify.body_ok h
    rfl
  | receipts blockHash number receiptsRoot =>
    obtain ⟨_, _, _, rfl⟩ := Verify.receipts_ok h
    rfl
  | stateProof blockHash number root key =>
    obtain ⟨_, _, _, _, rfl⟩ := Verify.stateProof_ok h
    rfl
  | code blockHash number codeHash =>
    obtain ⟨_, _, _, rfl⟩ := Verify.code_ok h
    rfl
  | helperTrieProof trie index root key minHead =>
    cases trie with
    | canonicalHash =>
      obtain ⟨_, _, _, _, _, _, _, _, _, _, _, rfl⟩ := Verify.canonicalHash_ok h
      rfl
    | bloom =>
      obtain ⟨_, _, _, _, rfl⟩ := Verify.bloomBits_ok h
      rfl

/-- A reply is accepted exactly if its check comes to the item. -/
theorem verify_ok {r : Request} {peer : PeerId} {data : Bytes} {item : Item} :
    verify r peer data = .ok item ↔ r.check data = .ok item := by
  unfold verify
  cases r.check data <;> simp

/-- A flaw that a check finds is blamed on the peer that sent the payload. -/
theorem verify_invalidProof {r : Request} {peer : PeerId} {data : Bytes} {flaw : Flaw} :
    verify r peer data = .error (.invalidProof peer flaw) ↔ r.check data = .error flaw := by
  unfold verify
  cases r.check data <;> simp

end LightClient
