/-
Module: LightClient.Proofs.Verification.HeaderRanges
Purpose: Header ranges are accepted exactly if they hold the headers that were asked for, counted in
  integers, and no word of the check wraps around.
Main exports: Verify.firstNumber?_eq_some_iff, Verify.checkLinks_ok_iff_of_room,
  Verify.mapM_header_ok, Verify.ShowsRange, Verify.ExactRange, verify_headerRange_iff
-/
import Mathlib.Data.List.Forall2
import LightClient.Proofs.Header
import LightClient.Proofs.Verification.Checks

namespace LightClient

/-! ### Headers in messages -/

/-- Every digest of a header message has the length of a digest. -/
def Wire.HeaderMessage.Sized (m : Wire.HeaderMessage) : Prop :=
  m.parentHash.length = 32 ∧ m.stateRoot.length = 32 ∧ m.transactionsRoot.length = 32 ∧
    m.receiptsRoot.length = 32 ∧ m.ommersHash.length = 32

/-- A message holds a header if and only if its digests have the length of digests. -/
theorem Header.exists_ofMessage_iff {m : Wire.HeaderMessage} :
    (∃ h, ofMessage m = .ok h) ↔ m.Sized := by
  constructor
  · rintro ⟨h, hm⟩
    rw [ofMessage_ok.mp hm]
    exact ⟨h.parentHash.length_bytes, h.stateRoot.length_bytes, h.transactionsRoot.length_bytes,
      h.receiptsRoot.length_bytes, h.ommersHash.length_bytes⟩
  · rintro ⟨hparent, hstate, htransactions, hreceipts, hommers⟩
    exact ⟨⟨⟨_, hparent⟩, m.number, ⟨_, hstate⟩, ⟨_, htransactions⟩, ⟨_, hreceipts⟩,
      ⟨_, hommers⟩, m.extra⟩, ofMessage_ok.mpr rfl⟩

namespace Verify

/-- Each message holds the header at its place. -/
def Hold (messages : List Wire.HeaderMessage) (headers : List Header) : Prop :=
  List.Forall₂ (fun m h => Header.ofMessage m = .ok h) messages headers

/-- The headers in a list of messages are read exactly if each message holds its header. -/
theorem mapM_header_ok {messages : List Wire.HeaderMessage} {headers : List Header} :
    messages.mapM header = .ok headers ↔ Hold messages headers := by
  induction messages generalizing headers with
  | nil =>
    rw [Hold, List.forall₂_nil_left_iff]
    exact ⟨fun h => (Except.ok.inj h).symm, fun h => h ▸ rfl⟩
  | cons m messages ih =>
    rw [List.mapM_cons, Hold, List.forall₂_cons_left_iff]
    constructor
    · intro h
      obtain ⟨first, hfirst, h⟩ := bind_eq_ok.mp h
      obtain ⟨rest, hrest, h⟩ := bind_eq_ok.mp h
      cases h
      exact ⟨first, rest, header_ok.mp hfirst, ih.mp hrest, rfl⟩
    · rintro ⟨first, rest, hfirst, hrest, rfl⟩
      rw [header_ok.mpr hfirst, ih.mpr hrest]
      rfl

/-- The messages of headers hold the headers. -/
theorem hold_toMessage (headers : List Header) : Hold (headers.map Header.toMessage) headers :=
  List.forall₂_map_left_iff.mpr (List.forall₂_same.mpr fun h _ => h.ofMessage_toMessage)

/-- Messages hold headers if and only if all their digests have the length of digests. -/
theorem exists_hold_iff {messages : List Wire.HeaderMessage} :
    (∃ headers, Hold messages headers) ↔ ∀ m ∈ messages, m.Sized := by
  induction messages with
  | nil => exact ⟨fun _ => nofun, fun _ => ⟨[], .nil⟩⟩
  | cons m messages ih =>
    rw [List.forall_mem_cons, ← ih, ← Header.exists_ofMessage_iff]
    constructor
    · rintro ⟨_, hhold⟩
      obtain ⟨first, rest, hfirst, hrest, _⟩ := List.forall₂_cons_left_iff.mp hhold
      exact ⟨⟨first, hfirst⟩, rest, hrest⟩
    · rintro ⟨⟨first, hfirst⟩, rest, hrest⟩
      exact ⟨first :: rest, .cons hfirst hrest⟩

/-! ### Words and numbers -/

/-- What is taken off the number of the last block is one less than the count, if there is one. -/
theorem toNat_sub_one {count : UInt64} (h : count ≠ 0) : (count - 1).toNat + 1 = count.toNat := by
  have hpos : 1 ≤ count.toNat := Nat.pos_of_ne_zero fun hzero => h (UInt64.toNat_inj.mp hzero)
  have hone : (1 : UInt64) ≤ count := UInt64.le_iff_toNat_le.mpr hpos
  rw [UInt64.toNat_sub_of_le _ _ hone]
  exact Nat.sub_add_cancel hpos

/-- There is a first block exactly if the range is not empty and does not reach below zero, and its
number is the exact difference. -/
theorem firstNumber?_eq_some_iff {anchorNumber count first : UInt64} :
    firstNumber? anchorNumber count = some first ↔
      1 ≤ count.toNat ∧ count.toNat ≤ anchorNumber.toNat + 1 ∧
        first.toNat = anchorNumber.toNat + 1 - count.toNat := by
  unfold firstNumber?
  by_cases hzero : count = 0
  · rw [if_pos hzero, hzero]
    simp
  · have hback := toNat_sub_one hzero
    rw [if_neg hzero]
    by_cases hlow : anchorNumber < count - 1
    · rw [if_pos hlow]
      rw [UInt64.lt_iff_toNat_lt] at hlow
      simp only [reduceCtorEq, false_iff]
      omega
    · have hle : count - 1 ≤ anchorNumber := UInt64.not_lt.mp hlow
      have hfirst := UInt64.toNat_sub_of_le _ _ hle
      rw [UInt64.le_iff_toNat_le] at hle
      rw [if_neg hlow, Option.some.injEq, ← UInt64.toNat_inj, hfirst]
      omega

theorem exists_firstNumber? {anchorNumber count : UInt64} (hpos : 1 ≤ count.toNat)
    (hroom : count.toNat ≤ anchorNumber.toNat + 1) :
    ∃ first, firstNumber? anchorNumber count = some first ∧
      first.toNat = anchorNumber.toNat + 1 - count.toNat := by
  have htop := anchorNumber.toNat_lt
  have hfirst : (UInt64.ofNat (anchorNumber.toNat + 1 - count.toNat)).toNat =
      anchorNumber.toNat + 1 - count.toNat :=
    UInt64.toNat_ofNat_of_lt' (show anchorNumber.toNat + 1 - count.toNat < 2 ^ 64 by omega)
  exact ⟨_, firstNumber?_eq_some_iff.mpr ⟨hpos, hroom, hfirst⟩, hfirst⟩

/-- Numbers are counted on from the first one exactly, as long as they stay below the top. -/
theorem toNat_add_ofNat {first : UInt64} {i : Nat} (h : first.toNat + i < 2 ^ 64) :
    (first + UInt64.ofNat i).toNat = first.toNat + i := by
  have hi : (UInt64.ofNat i).toNat = i :=
    UInt64.toNat_ofNat_of_lt' (Nat.lt_of_le_of_lt (Nat.le_add_left i first.toNat) h)
  rw [UInt64.toNat_add, hi, Nat.mod_eq_of_lt h]

/-- Links of a range that ends at the top or below hold if the numbers go up by one from the first,
and every header names the one before it as its parent. -/
theorem checkLinks_ok_iff_of_room {first : UInt64} {headers : List Header}
    (hroom : first.toNat + headers.length ≤ 2 ^ 64) :
    checkLinks first 0 none headers = .ok () ↔
      (∀ i h, headers[i]? = some h → h.number.toNat = first.toNat + i) ∧
        headers.IsChain fun p h => h.parentHash = p.hash := by
  have hnumbers : (∀ i h, headers[i]? = some h → h.number = first + UInt64.ofNat (0 + i)) ↔
      ∀ i h, headers[i]? = some h → h.number.toNat = first.toNat + i := by
    refine forall_congr' fun i => forall_congr' fun h => imp_congr_right fun hh => ?_
    have hi : i < headers.length := (List.getElem?_eq_some_iff.mp hh).1
    rw [← UInt64.toNat_inj, Nat.zero_add, toNat_add_ofNat (by omega)]
  rw [checkLinks_ok_iff, hnumbers]
  rfl

/-! ### The check as a whole -/

/-- A payload shows a range of headers: it holds the messages of as many headers as were asked for,
at least one and none before the first block; their numbers go up by one to the number of the
anchor, each one names the hash of the one before it as its parent, and the last one has the hash
of the anchor. -/
structure ShowsRange (anchor : Digest) (anchorNumber count : UInt64) (data : Bytes)
    (headers : List Header) : Prop where
  held : ∃ m : Wire.HeaderListMessage, Wire.Message.decode? data = some m ∧ Hold m.headers headers
  nonempty : 1 ≤ count.toNat
  room : count.toNat ≤ anchorNumber.toNat + 1
  length : headers.length = count.toNat
  numbers : ∀ i (hi : i < headers.length),
    headers[i].number.toNat = anchorNumber.toNat + 1 - count.toNat + i
  links : ∀ i (hi : i + 1 < headers.length), headers[i + 1].parentHash = headers[i].hash
  anchored : ∃ last, headers.getLast? = some last ∧ last.hash = anchor

/-- The words that the check of a range comes to are the numbers they stand for: the length of the
list that is read, the count less one, the number of the first block, and each number that a header
is compared with. -/
structure ExactRange (anchorNumber count : UInt64) (data : Bytes) : Prop where
  counted : ∀ m : Wire.HeaderListMessage, Wire.Message.decode? data = some m →
    (UInt64.ofNat m.headers.length).toNat = m.headers.length
  stepped : count ≠ 0 → (count - 1).toNat + 1 = count.toNat
  started : ∀ first, firstNumber? anchorNumber count = some first ↔
    1 ≤ count.toNat ∧ count.toNat ≤ anchorNumber.toNat + 1 ∧
      first.toNat = anchorNumber.toNat + 1 - count.toNat
  expected : ∀ (m : Wire.HeaderListMessage) (first : UInt64),
    Wire.Message.decode? data = some m → UInt64.ofNat m.headers.length = count →
      firstNumber? anchorNumber count = some first →
        ∀ i < m.headers.length, (first + UInt64.ofNat i).toNat = first.toNat + i

variable {anchor : Digest} {anchorNumber count : UInt64} {data : Bytes}

/-- The length of a list in a payload fits a word if the length of the payload does. -/
theorem toNat_length {m : Wire.HeaderListMessage} (hdata : data.length < 2 ^ 64)
    (hm : Wire.Message.decode? data = some m) :
    (UInt64.ofNat m.headers.length).toNat = m.headers.length :=
  UInt64.toNat_ofNat_of_lt' (Nat.lt_of_le_of_lt (Wire.HeaderListMessage.within hm).1 hdata)

/-- The words that the check counts with never wrap around where it uses them. -/
theorem exactRange (hdata : data.length < 2 ^ 64) : ExactRange anchorNumber count data where
  counted _ hm := toNat_length hdata hm
  stepped := toNat_sub_one
  started _ := firstNumber?_eq_some_iff
  expected m first hm hcount hfirst i hi := by
    obtain ⟨_, hroom, hfirstNat⟩ := firstNumber?_eq_some_iff.mp hfirst
    have hlength : m.headers.length = count.toNat := by rw [← hcount, toNat_length hdata hm]
    have htop := anchorNumber.toNat_lt
    exact toNat_add_ofNat (by omega)

/-- A range is accepted if and only if the payload shows it. -/
theorem headerRange_iff_showsRange (hdata : data.length < 2 ^ 64) {headers : List Header} :
    headerRange anchor anchorNumber count data = .ok (.headers headers) ↔
      ShowsRange anchor anchorNumber count data headers := by
  rw [headerRange_ok_iff]
  have htop := anchorNumber.toNat_lt
  constructor
  · rintro ⟨m, _, first, last, hm, hcount, hheaders, hfirst, hlinks, hlast, hanchor, heq⟩
    cases heq
    have hheld : Hold m.headers headers := mapM_header_ok.mp hheaders
    obtain ⟨hpos, hroom, hfirstNat⟩ := firstNumber?_eq_some_iff.mp hfirst
    have hlength : headers.length = count.toNat := by
      rw [← hcount, toNat_length hdata hm, List.Forall₂.length_eq hheld]
    obtain ⟨hnumbers, hchain⟩ := (checkLinks_ok_iff_of_room (by omega)).mp hlinks
    rw [List.isChain_iff_getElem] at hchain
    exact
      { held := ⟨m, hm, hheld⟩
        nonempty := hpos
        room := hroom
        length := hlength
        numbers := fun i hi => hfirstNat ▸ hnumbers i _ (List.getElem?_eq_getElem hi)
        links := hchain
        anchored := ⟨last, hlast, hanchor⟩ }
  · rintro ⟨⟨m, hm, hheld⟩, hpos, hroom, hlength, hnumbers, hlinks, last, hlast, hanchor⟩
    have hcount : UInt64.ofNat m.headers.length = count := by
      rw [List.Forall₂.length_eq hheld, hlength, UInt64.ofNat_toNat]
    obtain ⟨first, hfirst, hfirstNat⟩ := exists_firstNumber? hpos hroom
    refine ⟨m, headers, first, last, hm, hcount, mapM_header_ok.mpr hheld, hfirst, ?_, hlast,
      hanchor, rfl⟩
    rw [checkLinks_ok_iff_of_room (by omega), hfirstNat, List.isChain_iff_getElem]
    refine ⟨fun i h hh => ?_, hlinks⟩
    obtain ⟨hi, rfl⟩ := List.getElem?_eq_some_iff.mp hh
    exact hnumbers i hi

end Verify

/-- A reply to the request for a header range is accepted for some headers if and only if it shows
them, in exact numbers; its messages hold headers if and only if their digests have the length of
digests; and no word that is computed on the way wraps around. The length of a reply is a word, as
that of anything that memory holds. -/
theorem verify_headerRange_iff {anchor : Digest} {anchorNumber count : UInt64} {peer : PeerId}
    {data : Bytes} (hdata : data.length < 2 ^ 64) :
    (∀ headers, verify (.headerRange anchor anchorNumber count) peer data = .ok (.headers headers) ↔
        Verify.ShowsRange anchor anchorNumber count data headers) ∧
      (∀ m : Wire.HeaderListMessage, Wire.Message.decode? data = some m →
        ((∃ headers, Verify.Hold m.headers headers) ↔ ∀ x ∈ m.headers, x.Sized)) ∧
      Verify.ExactRange anchorNumber count data := by
  refine ⟨fun headers => ?_, fun m _ => Verify.exists_hold_iff, Verify.exactRange hdata⟩
  rw [verify_ok]
  exact Verify.headerRange_iff_showsRange hdata

/-- The last two of all blocks are accepted: the numbers that they are compared with come to the
top and not beyond it. -/
theorem verify_headerRange_iff_at_top :
    let parent : Header := { (default : Header) with number := 18446744073709551614 }
    let last : Header :=
      { (default : Header) with parentHash := parent.hash, number := 18446744073709551615 }
    let data := Wire.Message.encode
      (⟨[parent, last].map Header.toMessage⟩ : Wire.HeaderListMessage)
    data.length < 2 ^ 64 ∧
      verify (.headerRange last.hash 18446744073709551615 2) ⟨[1]⟩ data =
        .ok (.headers [parent, last]) ∧
      Verify.ExactRange 18446744073709551615 2 data := by
  intro parent last data
  have hdata : data.length < 2 ^ 64 := by decide +kernel
  have hread : Wire.Message.decode? data =
      some (⟨[parent, last].map Header.toMessage⟩ : Wire.HeaderListMessage) := by
    decide +kernel
  have hshows : Verify.ShowsRange last.hash 18446744073709551615 2 data [parent, last] :=
    { held := ⟨_, hread, Verify.hold_toMessage [parent, last]⟩
      nonempty := by decide
      room := by decide
      length := rfl
      numbers := by decide +kernel
      links := by
        rintro (_ | i) hi
        · rfl
        · exact absurd hi (show ¬ i + 1 + 1 < 2 by omega)
      anchored := ⟨last, rfl, rfl⟩ }
  obtain ⟨haccepted, _, hexact⟩ := @verify_headerRange_iff last.hash 18446744073709551615 2 ⟨[1]⟩
    data hdata
  exact ⟨hdata, (haccepted [parent, last]).mpr hshows, hexact⟩

end LightClient
