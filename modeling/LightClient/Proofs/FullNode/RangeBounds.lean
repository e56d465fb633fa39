/-
Module: LightClient.Proofs.FullNode.RangeBounds
Purpose: Which header ranges there are: a client asks for the same ones that its check of the reply
  lets through and that a full node answers, up to the last number that a block can have.
Main exports: IsRange, Query.request_headers, Verify.exists_firstNumber?_iff,
  Verify.firstNumber?_of_beforeGenesis, SampleChain.ServesRange, RangesAgree, ranges_agree
-/
import LightClient.Proofs.FullNode.Completeness

namespace LightClient

/-- There is a range of so many headers that ends at the given number: it has a header, and none
before the first block. -/
def IsRange (anchorNumber count : UInt64) : Prop :=
  1 ≤ count.toNat ∧ count.toNat ≤ anchorNumber.toNat + 1

instance {anchorNumber count : UInt64} : Decidable (IsRange anchorNumber count) :=
  inferInstanceAs (Decidable (_ ∧ _))

variable {anchor : Digest} {anchorNumber count : UInt64}

/-! ### Asking for a range -/

/-- A range is asked for if there is one; if not, the query is refused for this reason. -/
theorem Query.request_headers {s : RetrievalSettings}
    {lookup : HelperTrie → UInt64 → SectionRoots.Answer} :
    (headers anchor anchorNumber count).request s lookup =
      if IsRange anchorNumber count then .ok (.headerRange anchor anchorNumber count)
      else .error (.invalidRange count anchorNumber) := by
  by_cases hrange : IsRange anchorNumber count
  · rw [if_pos hrange]
    exact request_of_complete (binding_headers hrange.1 hrange.2) lookup
  · have hrefused : count = 0 ∨ saturatingAdd anchorNumber 1 < count := by
      rw [saturatingAdd_one_lt_iff, ← UInt64.toNat_inj, UInt64.toNat_zero]
      unfold IsRange at hrange
      omega
    rw [if_neg hrange, request, binding, if_pos hrefused]
    rfl

/-! ### Checking a range -/

namespace Verify

/-- There is a first block exactly if there is a range. -/
theorem exists_firstNumber?_iff :
    (∃ first, firstNumber? anchorNumber count = some first) ↔ IsRange anchorNumber count := by
  constructor
  · rintro ⟨first, hfirst⟩
    obtain ⟨hpos, hroom, _⟩ := firstNumber?_eq_some_iff.mp hfirst
    exact ⟨hpos, hroom⟩
  · rintro ⟨hpos, hroom⟩
    obtain ⟨first, hfirst, _⟩ := exists_firstNumber? hpos hroom
    exact ⟨first, hfirst⟩

/-- Bytes that are no message have one flaw only: they cannot be decoded. -/
theorem message_error {α : Type} [Wire.Message α] {data : Bytes} {flaw : Flaw}
    (h : (message data : Except Flaw α) = .error flaw) : flaw = .undecodable := by
  unfold message at h
  split at h
  · cases h
  · exact (Except.error.inj h).symm

theorem mapM_header_error {messages : List Wire.HeaderMessage} {flaw : Flaw}
    (h : messages.mapM header = .error flaw) : ∃ fault, flaw = .header fault := by
  induction messages with
  | nil => cases h
  | cons m messages ih =>
    rw [List.mapM_cons] at h
    rcases bind_eq_error.mp h with h | ⟨_, _, h⟩
    · unfold header at h
      split at h
      · cases h
      next fault _ => exact ⟨fault, (Except.error.inj h).symm⟩
    · rcases bind_eq_error.mp h with h | ⟨_, _, h⟩
      · exact ih h
      · cases h

/-- Headers that are not linked are no sign of a range that begins before the genesis block. -/
theorem checkLinks_error {first : UInt64} {index : Nat} {previous : Option Header}
    {headers : List Header} {flaw : Flaw}
    (h : checkLinks first index previous headers = .error flaw) : flaw ≠ .beforeGenesis := by
  induction headers generalizing index previous with
  | nil => cases h
  | cons header rest ih =>
    unfold checkLinks at h
    simp only at h
    rintro rfl
    split at h
    · cases h
    · split at h
      · cases h
      · exact ih h rfl

/-- A reply is refused for a range that starts before the first block only if there is no first
block. -/
theorem firstNumber?_of_beforeGenesis {data : Bytes}
    (h : headerRange anchor anchorNumber count data = .error .beforeGenesis) :
    firstNumber? anchorNumber count = none := by
  rcases bind_eq_error.mp h with h | ⟨m, _, h⟩
  · cases message_error h
  split at h
  · cases h
  rcases bind_eq_error.mp h with h | ⟨headers, _, h⟩
  · obtain ⟨_, hflaw⟩ := mapM_header_error h
    cases hflaw
  split at h
  next hnone => exact hnone
  next first _ =>
    rcases bind_eq_error.mp h with h | ⟨_, _, h⟩
    · exact absurd rfl (checkLinks_error h)
    · split at h
      · split at h <;> cases h
      · cases h

end Verify

/-! ### Serving a range -/

namespace SampleChain

/-- What a full node replies to a request for a range that ends at one of its blocks: if there is
such a range, its headers, as many as were asked for, one after the other up to the last one; if
not, nothing. -/
structure ServesRange (c : SampleChain) (b : Block) (anchorNumber count : UInt64) (data : Bytes) :
    Prop where
  served (h : IsRange anchorNumber count) : ∃ headers : List Header,
    c.answer .headerRange data =
        some (Wire.Message.encode (⟨headers.map Header.toMessage⟩ : Wire.HeaderListMessage)) ∧
      headers.length = count.toNat ∧ headers.getLast? = some b.header ∧
      ∀ i < count.toNat,
        headers[i]? = (c.blocks[anchorNumber.toNat + 1 - count.toNat + i]?).map Block.header
  refused (h : ¬ IsRange anchorNumber count) : c.answer .headerRange data = none
  /-- The words that the full node computes are the numbers they stand for. -/
  next : (anchorNumber + 1).toNat = anchorNumber.toNat + 1
  first (h : IsRange anchorNumber count) :
    (anchorNumber + 1 - count).toNat = anchorNumber.toNat + 1 - count.toNat

/-- The full node serves exactly the ranges that begin at the genesis block or after it. -/
theorem servesRange {c : SampleChain} {b : Block} {data : Bytes}
    (hlength : c.blocks.length < 2 ^ 64) (hb : c.blocks[anchorNumber.toNat]? = some b)
    (hdata : Wire.Message.decode? data =
      some (⟨b.hash.bytes, anchorNumber, count⟩ : Wire.HeaderRangeParams)) :
    c.ServesRange b anchorNumber count data := by
  have hreply : c.answer .headerRange data = _ := answerHeaderRange_of_block hlength hb hdata
  constructor
  case served =>
    rintro ⟨hpos, hroom⟩
    refine ⟨(c.range anchorNumber.toNat count.toNat).map Block.header,
      hreply.trans (if_pos ⟨hpos, hroom⟩), ?_, ?_, ?_⟩
    · rw [List.length_map, length_range hb hroom]
    · rw [List.getLast?_map, getLast?_range hb hpos hroom, Option.map_some]
    · intro i hi
      rw [List.getElem?_map, range, List.getElem?_take_of_lt hi, List.getElem?_drop]
  case refused => exact fun h => hreply.trans (if_neg h)
  case next => exact toNat_next hlength hb
  case first => exact fun h => toNat_next_sub hlength hb h.2

end SampleChain

/-! ### The three of them agree -/

/-- What becomes of a header range at the client that asks for it, at the full node and at the check
of the reply. -/
structure RangesAgree (s : RetrievalSettings) (lookup : HelperTrie → UInt64 → SectionRoots.Answer)
    (anchor : Digest) (anchorNumber count : UInt64) : Prop where
  requested_iff : (∃ r, (Query.headers anchor anchorNumber count).request s lookup = .ok r) ↔
    IsRange anchorNumber count
  requested (h : IsRange anchorNumber count) :
    (Query.headers anchor anchorNumber count).request s lookup =
      .ok (.headerRange anchor anchorNumber count)
  refused (h : ¬ IsRange anchorNumber count) :
    (Query.headers anchor anchorNumber count).request s lookup =
      .error (.invalidRange count anchorNumber)
  /-- The sum that saturates decides as the exact one does. -/
  saturated : saturatingAdd anchorNumber 1 < count ↔ anchorNumber.toNat + 1 < count.toNat
  /-- The differences that may not exist do if there is a range, and then they are exact. -/
  checked_iff : (∃ first, Verify.firstNumber? anchorNumber count = some first) ↔
    IsRange anchorNumber count
  checked {first : UInt64} (h : Verify.firstNumber? anchorNumber count = some first) :
    first.toNat = anchorNumber.toNat + 1 - count.toNat
  /-- What was refused could not have been verified, whatever the reply. -/
  never_verified (h : ¬ IsRange anchorNumber count) (peer : PeerId) (data : Bytes) (item : Item) :
    verify (.headerRange anchor anchorNumber count) peer data ≠ .ok item
  /-- What was asked for is never refused as a range that starts before the first block. -/
  never_beforeGenesis (h : IsRange anchorNumber count) (peer : PeerId) (data : Bytes) :
    verify (.headerRange anchor anchorNumber count) peer data ≠
      .error (.invalidProof peer .beforeGenesis)
  sent : Wire.Message.decode? (Request.headerRange anchor anchorNumber count).encode =
    some (⟨anchor.bytes, anchorNumber, count⟩ : Wire.HeaderRangeParams)
  served {length size : UInt64} {salt : String} {chain : SampleChain} {b : Block} {data : Bytes}
    (hchain : SampleChain.generate? length.toNat size.toNat salt = some chain)
    (hb : chain.blocks[anchorNumber.toNat]? = some b) (hanchor : b.header.hash = anchor)
    (hdata : Wire.Message.decode? data =
      some (⟨anchor.bytes, anchorNumber, count⟩ : Wire.HeaderRangeParams)) :
    chain.ServesRange b anchorNumber count data

/-- Client, check and full node agree on the ranges that can exist. -/
theorem ranges_agree (s : RetrievalSettings)
    (lookup : HelperTrie → UInt64 → SectionRoots.Answer) (anchor : Digest)
    (anchorNumber count : UInt64) : RangesAgree s lookup anchor anchorNumber count := by
  have hrequest := @Query.request_headers anchor anchorNumber count s lookup
  constructor
  case requested_iff =>
    rw [hrequest]
    split
    next h => exact iff_of_true ⟨_, rfl⟩ h
    next h => exact iff_of_false nofun h
  case requested => exact fun h => hrequest.trans (if_pos h)
  case refused => exact fun h => hrequest.trans (if_neg h)
  case saturated => exact saturatingAdd_one_lt_iff
  case checked_iff => exact Verify.exists_firstNumber?_iff
  case checked => exact fun h => (Verify.firstNumber?_eq_some_iff.mp h).2.2
  case never_verified =>
    intro h peer data item hok
    obtain ⟨_, _, first, _, _, _, _, hfirst, _⟩ := Verify.headerRange_ok_iff.mp (verify_ok.mp hok)
    exact h (Verify.exists_firstNumber?_iff.mp ⟨first, hfirst⟩)
  -- a range that can exist never fails this check, whatever the reply is
  case never_beforeGenesis =>
    intro h peer data hbad
    obtain ⟨first, hfirst⟩ := Verify.exists_firstNumber?_iff.mpr h
    have hnone := Verify.firstNumber?_of_beforeGenesis (verify_invalidProof.mp hbad)
    rw [hfirst] at hnone
    cases hnone
  case sent =>
    exact Wire.HeaderRangeParams.decode?_encode
      (by simp [Wire.Message.fields, Digest.length_bytes])
  case served =>
    intro length size salt chain b data hchain hb hanchor hdata
    obtain rfl := SampleChain.eq_of_generate? hchain
    have hhash := (SampleChain.made_of_getElem? length.toNat_lt hb).hash_eq
    rw [← hanchor, ← hhash] at hdata
    exact SampleChain.servesRange (SampleChain.length_blocks.trans_lt length.toNat_lt) hb hdata

/-- The second of three blocks ends a range of two headers and none of three; the last number that a
block can have ends as many as a word can count. -/
theorem ranges_agree_of_second_block :
    let s := RetrievalSettings.default
    let chain := SampleChain.generate 3 2 "main"
    let top : UInt64 := 18446744073709551615
    ∃ b, chain.blocks[(1 : UInt64).toNat]? = some b ∧
      (Query.headers b.header.hash 1 2).request s chain.indexed =
        .ok (.headerRange b.header.hash 1 2) ∧
      chain.ServesRange b 1 2 (Request.headerRange b.header.hash 1 2).encode ∧
      (Query.headers b.header.hash 1 3).request s chain.indexed = .error (.invalidRange 3 1) ∧
      chain.answer .headerRange (Request.headerRange b.header.hash 1 3).encode = none ∧
      (Query.headers b.header.hash top top).request s chain.indexed =
        .ok (.headerRange b.header.hash top top) ∧
      ∃ first, Verify.firstNumber? top top = some first := by
  intro s chain top
  obtain ⟨b, hb⟩ : ∃ b, chain.blocks[(1 : UInt64).toNat]? = some b := ⟨_, rfl⟩
  have hchain : SampleChain.generate? (3 : UInt64).toNat (2 : UInt64).toNat "main" = some chain :=
    rfl
  have htwo := ranges_agree s chain.indexed b.header.hash 1 2
  have hthree := ranges_agree s chain.indexed b.header.hash 1 3
  have htop := ranges_agree s chain.indexed b.header.hash top top
  exact ⟨b, hb, htwo.requested (by decide), htwo.served hchain hb rfl htwo.sent,
    hthree.refused (by decide), (hthree.served hchain hb rfl hthree.sent).refused (by decide),
    htop.requested (by decide), htop.checked_iff.mpr (by decide)⟩

end LightClient
