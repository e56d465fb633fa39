/-
Module: LightClient.Proofs.FullNode.Sections
Purpose: What the tries of a generated chain hold and prove, and which section roots the chain
  confirms.
Main exports: Trie.Serves, SampleChain.serves_of_mem_tries, SampleChain.get_canonicalHash,
  SampleChain.bloomBits?_generate, SampleChain.sectionEnd_ok, SectionRoots.find?_ofChain
-/
import LightClient.FullNode.Sections
import LightClient.Proofs.FullNode.Blocks
import LightClient.Proofs.HelperTrie
import LightClient.Proofs.Retrieval.SectionBounds
import LightClient.Proofs.Table
import LightClient.Proofs.Trie.Serving

namespace LightClient

/-! ### Tries that prove what they hold -/

/-- A trie whose proofs check against its root, say what it holds and can be sent. -/
structure Trie.Serves (t : Trie) : Prop where
  proves : ∀ key, verifyProof t.root key (t.prove key) = .ok (t.get key)
  sendable : ∀ key, ∀ raw ∈ t.prove key, raw.length < 2 ^ 64

/-- Entries within the length bounds have keys and values that every length field can hold. -/
theorem Trie.Short.addressable {entries : List (Bytes × Bytes)} {limit : Nat}
    (h : Short 32 limit entries) (hlimit : limit < 2 ^ 63) :
    ∀ e ∈ entries, e.1.Addressable ∧ e.2.Addressable := by
  intro e he
  obtain ⟨hkey, hvalue⟩ := h e he
  unfold Bytes.Addressable
  constructor <;> omega

/-- A trie of short entries serves each of them, if none of its nodes collide. -/
theorem Trie.serves_build {entries : List (Bytes × Bytes)} {limit : Nat}
    (h : Short 32 limit entries) (hlimit : limit < 2 ^ 63)
    (hno : ¬ Collision (build entries).ownStrings) : (build entries).Serves where
  proves := verifyProof_prove (h.addressable hlimit) hno
  sendable := by
    intro key raw hraw
    have hlength := length_le_of_mem_prove h hraw
    omega

namespace SampleChain

/-- Numbered texts under keys that are digests are not much longer than the salt. -/
theorem short_numbered {key : Nat → Digest} {kind salt : String} {count : Nat}
    (hkind : kind.utf8ByteSize ≤ 16) (hcount : count ≤ 16) :
    Trie.Short 32 (salt.utf8ByteSize + 64)
      ((List.range count).map fun i => ((key i).bytes, dashed [kind, salt, toString i])) := by
  intro e he
  obtain ⟨i, hi, rfl⟩ := List.mem_map.mp he
  have hrange := List.mem_range.mp hi
  have hindex : (toString i).utf8ByteSize ≤ 2 :=
    Bytes.utf8ByteSize_toString_le (by omega) (by omega)
  have hlength := length_dashed_le [kind, salt, toString i]
  simp only [List.map_cons, List.map_nil, List.sum_cons, List.sum_nil] at hlength
  constructor
  · exact (key i).length_bytes.le
  · simp only
    omega

/-- Canonical hash entries have keys of at most 32 bytes and values of at most 48. -/
theorem short_canonicalHashEntries (blocks : List Block) :
    Trie.Short 32 48 (canonicalHashEntries blocks) := by
  intro e he
  obtain ⟨b, _, rfl⟩ := List.mem_map.mp he
  simp [HelperTrie.blockKey, HelperTrie.blockValue, b.hash.length_bytes]

/-- Bloom entries are as short as the salt allows, for every section that a word can name. -/
theorem short_bloomEntries {salt : String} {index : Nat} (hindex : index < 2 ^ 64) :
    Trie.Short 32 (salt.utf8ByteSize + 64) (bloomEntries salt index) := by
  intro e he
  obtain ⟨bit, hbit, rfl⟩ := List.mem_map.mp he
  have hrange := List.mem_range.mp hbit
  have hname : ("bloom" : String).utf8ByteSize = 5 := by decide
  have hindex : (toString index).utf8ByteSize ≤ 20 :=
    Bytes.utf8ByteSize_toString_le (by omega) (by omega)
  have hbit : (toString bit).utf8ByteSize ≤ 1 :=
    Bytes.utf8ByteSize_toString_le (by omega) (by omega)
  have hlength := length_dashed_le ["bloom", salt, toString index, toString bit]
  simp only [List.map_cons, List.map_nil, List.sum_cons, List.sum_nil] at hlength
  constructor
  · simp [HelperTrie.bitKey]
  · simp only
    omega

section Generated

variable {length size : Nat} {salt : String}

/-- Every trie of a generated chain is built of entries that are not much longer than the salt. -/
theorem exists_short_of_mem_tries (hlength : length < 2 ^ 64) {t : Trie}
    (ht : t ∈ (generate length size salt).tries) :
    ∃ entries, t = Trie.build entries ∧ Trie.Short 32 (salt.utf8ByteSize + 64) entries := by
  have hcases : t = makeState salt ∨ t = makeStorage salt ∨
      t ∈ (generate length size salt).canonicalHash ∨ t ∈ (generate length size salt).bloom := by
    simp only [tries, List.mem_cons, List.mem_append] at ht
    exact ht
  rcases hcases with rfl | rfl | h | h
  · exact ⟨_, rfl, short_numbered (by decide) (by decide)⟩
  · exact ⟨_, rfl, short_numbered (by decide) (by decide)⟩
  · obtain ⟨s, _, rfl⟩ := List.mem_map.mp h
    exact ⟨_, rfl, (short_canonicalHashEntries _).mono (by omega)⟩
  · obtain ⟨s, hs, rfl⟩ := List.mem_map.mp h
    have hrange := List.mem_range.mp hs
    have hdiv := Nat.div_le_self length size
    exact ⟨_, rfl, short_bloomEntries (by omega)⟩

/-- Without a collision, every trie of a generated chain proves what it holds. -/
theorem serves_of_mem_tries (hlength : length < 2 ^ 64) (hsalt : salt.utf8ByteSize + 64 < 2 ^ 63)
    (hno : ¬ Collision (generate length size salt).strings) {t : Trie}
    (ht : t ∈ (generate length size salt).tries) : t.Serves := by
  have hown : ¬ Collision t.ownStrings := fun h => hno (h.mono (ownStrings_subset_strings ht))
  obtain ⟨entries, rfl, hshort⟩ := exists_short_of_mem_tries hlength ht
  exact Trie.serves_build hshort hsalt hown

/-! ### The canonical hash tries -/

/-- Only full sections have helper tries. -/
theorem sections_generate : (generate length size salt).sections = length / size := by
  simp [sections, generate]

/-- Every block is in the section of its number. -/
theorem mem_section {blocks : List Block} {n : Nat} {b : Block} (hsize : 0 < size)
    (hb : blocks[n]? = some b) : b ∈ (blocks.drop (n / size * size)).take size := by
  have hplace : n / size * size + n % size = n := by
    rw [Nat.mul_comm]
    exact Nat.div_add_mod n size
  have hget : ((blocks.drop (n / size * size)).take size)[n % size]? = some b := by
    rw [List.getElem?_take_of_lt (Nat.mod_lt n hsize), List.getElem?_drop, hplace]
    exact hb
  exact List.mem_of_getElem? hget

/-- The entries for blocks of a generated chain say of each block what its hash and its total
difficulty are. -/
theorem lastValue_canonicalHashEntries (hlength : length < 2 ^ 64) {blocks : List Block}
    (hblocks : ∀ a ∈ blocks, a ∈ (generate length size salt).blocks) {b : Block}
    (hb : b ∈ blocks) :
    Trie.lastValue (canonicalHashEntries blocks) (HelperTrie.blockKey b.header.number) =
      some (HelperTrie.blockValue b.hash b.totalDifficulty) := by
  apply Trie.lastValue_eq_some
  · exact List.mem_map.mpr ⟨b, hb, rfl⟩
  · exact List.append_ne_nil_of_right_ne_nil _ (List.cons_ne_nil _ _)
  · intro e he hkey
    obtain ⟨a, ha, rfl⟩ := List.mem_map.mp he
    have hnumber : a.header.number = b.header.number := HelperTrie.blockKey_eq_iff.mp hkey
    obtain ⟨m, hm⟩ := List.mem_iff_getElem?.mp (hblocks a ha)
    obtain ⟨n, hn⟩ := List.mem_iff_getElem?.mp (hblocks b hb)
    obtain rfl := eq_of_number_eq hlength hm hn hnumber
    rfl

/-- A block of a complete section is in the canonical hash trie of the section, under its number. -/
theorem get_canonicalHash (hlength : length < 2 ^ 64)
    (hno : ¬ Collision (generate length size salt).strings) {n : Nat} {b : Block}
    (hb : (generate length size salt).blocks[n]? = some b)
    (hsection : n / size < (generate length size salt).sections) {index : UInt64}
    (hindex : index.toNat = n / size) :
    ∃ t, (generate length size salt).helperTrie? .canonicalHash index = some t ∧
      t.get (HelperTrie.blockKey b.header.number) =
        some (HelperTrie.blockValue b.hash b.totalDifficulty) := by
  rw [sections_generate] at hsection
  have hsize : 0 < size := Nat.pos_of_ne_zero fun h => by simp [h] at hsection
  let inSection := ((generate length size salt).blocks.drop (n / size * size)).take size
  have htrie : (generate length size salt).helperTrie? .canonicalHash index =
      some (Trie.build (canonicalHashEntries inSection)) := by
    simp [helperTrie?, hindex, generate, hsection, inSection]
  have hown : ¬ Collision (Trie.build (canonicalHashEntries inSection)).ownStrings := fun h =>
    hno (h.mono (ownStrings_subset_strings (mem_tries_of_helperTrie? htrie)))
  refine ⟨_, htrie, ?_⟩
  rw [Trie.get_build ((short_canonicalHashEntries inSection).addressable (by omega)) hown]
  apply lastValue_canonicalHashEntries hlength
  · exact fun a ha => List.mem_of_mem_drop (List.mem_of_mem_take ha)
  · exact mem_section hsize hb

/-! ### The bloom tries -/

/-- The bits of one section have keys of their own. -/
theorem bitKey_inj {bit bit' index : Nat} (hbit : bit < 8) (hbit' : bit' < 8)
    (h : HelperTrie.bitKey (UInt16.ofNat bit) (UInt64.ofNat index) =
      HelperTrie.bitKey (UInt16.ofNat bit') (UInt64.ofNat index)) : bit = bit' := by
  have hword : ∀ n, n < 8 → (UInt16.ofNat n).toNat = n := fun n hn =>
    UInt16.toNat_ofNat_of_lt' (show n < 2 ^ 16 by omega)
  have hbits := congrArg UInt16.toNat (HelperTrie.bitKey_eq_iff.mp h).1
  rwa [hword bit hbit, hword bit' hbit'] at hbits

theorem dashed_ne_nil {part : String} (hpart : 0 < part.utf8ByteSize) (rest : List String) :
    dashed (part :: rest) ≠ [] := by
  intro h
  have hlength := congrArg List.length h
  rw [dashed, Bytes.length_ofText] at hlength
  cases rest with
  | nil =>
    rw [String.intercalate_singleton] at hlength
    exact absurd hlength (Nat.ne_of_gt hpart)
  | cons next rest =>
    rw [String.intercalate_cons_cons] at hlength
    simp only [String.utf8ByteSize_append, List.length_nil] at hlength
    omega

/-- Every complete section stores eight bits. -/
theorem bloomBits?_generate (hsalt : salt.utf8ByteSize + 64 < 2 ^ 63)
    (hno : ¬ Collision (generate length size salt).strings) {bit : UInt16} {index : UInt64}
    (hbit : bit.toNat < 8) (hindex : index.toNat < (generate length size salt).sections) :
    (generate length size salt).bloomBits? bit index =
      some (dashed ["bloom", salt, toString index.toNat, toString bit.toNat]) := by
  rw [sections_generate] at hindex
  have htrie : (generate length size salt).helperTrie? .bloom index =
      some (Trie.build (bloomEntries salt index.toNat)) := by
    simp [helperTrie?, generate, hindex]
  have hown : ¬ Collision (Trie.build (bloomEntries salt index.toNat)).ownStrings := fun h =>
    hno (h.mono (ownStrings_subset_strings (mem_tries_of_helperTrie? htrie)))
  have hshort := @short_bloomEntries salt index.toNat index.toNat_lt
  rw [bloomBits?, htrie, Option.bind_some, Trie.get_build (hshort.addressable hsalt) hown]
  have hkey : HelperTrie.bitKey bit index =
      HelperTrie.bitKey (UInt16.ofNat bit.toNat) (UInt64.ofNat index.toNat) := by
    rw [UInt16.ofNat_toNat, UInt64.ofNat_toNat]
  rw [hkey]
  apply Trie.lastValue_eq_some
  · exact List.mem_map.mpr ⟨bit.toNat, List.mem_range.mpr hbit, rfl⟩
  · exact dashed_ne_nil (by decide) _
  · intro e he hkey
    obtain ⟨bit', hbit', rfl⟩ := List.mem_map.mp he
    rw [bitKey_inj (List.mem_range.mp hbit') hbit hkey]

/-! ### The ends of sections -/

/-- A chain that is not empty announces its last block. -/
theorem head_number (hlength : length < 2 ^ 64) (hpos : 0 < length) :
    (generate length size salt).head.number.toNat = length - 1 := by
  have hlt : length - 1 < (generate length size salt).blocks.length := by
    rw [length_blocks]
    omega
  obtain ⟨b, hb⟩ : ∃ b, (generate length size salt).blocks[length - 1]? = some b :=
    ⟨_, List.getElem?_eq_getElem hlt⟩
  have hlast : (generate length size salt).blocks.getLast? = some b := by
    rw [List.getLast?_eq_getElem?, length_blocks, hb]
  rw [head, hlast]
  exact toNat_number hlength hb

/-- A complete section ends at a block number that the head of the chain has reached. -/
theorem sectionEnd_ok {index size : UInt64} (hlength : length < 2 ^ 64)
    (hindex : index.toNat < (generate length size.toNat salt).sections) :
    ∃ last, sectionEnd index size = .ok last ∧
      last ≤ (generate length size.toNat salt).head.number := by
  rw [sections_generate] at hindex
  have hend : (index.toNat + 1) * size.toNat ≤ length :=
    (Nat.mul_le_mul_right _ hindex).trans (Nat.div_mul_le_self length size.toNat)
  have hsize : 0 < size.toNat := Nat.pos_of_ne_zero fun h => by simp [h] at hindex
  have hlast : lastBlock index size + 1 = (index.toNat + 1) * size.toNat := lastBlock_add_one hsize
  have hfits : lastBlock index size + 1 < 2 ^ 64 := by omega
  have hword : (UInt64.ofNat (lastBlock index size)).toNat = lastBlock index size :=
    UInt64.toNat_ofNat_of_lt' (Nat.lt_of_succ_lt hfits)
  refine ⟨UInt64.ofNat (lastBlock index size), (sectionEnd_ok_iff hsize).mpr ⟨hfits, hword⟩, ?_⟩
  rw [UInt64.le_iff_toNat_le, head_number hlength (by omega), hword]
  omega

end Generated

end SampleChain

/-! ### The roots that a chain confirms -/

namespace SectionRoots

/-- The roots with those of one section more. -/
def withSection (c : SampleChain) (r : SectionRoots) (i : Nat) : SectionRoots :=
  HelperTrie.all.foldl
    (fun r trie =>
      match c.helperTrie? trie (UInt64.ofNat i) with
      | some t => set r trie (UInt64.ofNat i) t.root true
      | none => r)
    r

theorem ofChain_eq (c : SampleChain) :
    ofChain c = (List.range c.sections).foldl (withSection c) [] := rfl

/-- The root of a trie of a section, as the chain confirms it. -/
def confirmed? (c : SampleChain) (trie : HelperTrie) (index : UInt64) : Option TrustedRoot :=
  (c.helperTrie? trie index).map fun t => ⟨index, t.root, true⟩

/-- What is set is found, and nothing else has changed. -/
theorem find?_set (r : SectionRoots) (trie trie' : HelperTrie) (index index' : UInt64)
    (root : Digest) (confirmed : Bool) :
    (r.set trie index root confirmed).find? trie' index' =
      if trie = trie' ∧ index = index' then some ⟨index, root, confirmed⟩
      else r.find? trie' index' := by
  unfold set find?
  rw [Table.get?_insert]
  simp [Prod.ext_iff]

/-- One section more changes what is known of this section only. -/
theorem find?_withSection (c : SampleChain) (r : SectionRoots) (i : Nat) (trie : HelperTrie)
    (index : UInt64) :
    (withSection c r i).find? trie index =
      if UInt64.ofNat i = index then (confirmed? c trie index).or (r.find? trie index)
      else r.find? trie index := by
  unfold withSection confirmed?
  simp only [HelperTrie.all, List.foldl_cons, List.foldl_nil]
  by_cases hindex : UInt64.ofNat i = index
  · subst hindex
    cases trie <;> cases c.helperTrie? .canonicalHash (UInt64.ofNat i) <;>
      cases c.helperTrie? .bloom (UInt64.ofNat i) <;> simp [find?_set]
  · cases c.helperTrie? .canonicalHash (UInt64.ofNat i) <;>
      cases c.helperTrie? .bloom (UInt64.ofNat i) <;> simp [find?_set, hindex]

/-- The first sections are known once they are gone through. -/
theorem find?_foldl_withSection {c : SampleChain} {count : Nat} (hcount : count ≤ 2 ^ 64)
    (trie : HelperTrie) (index : UInt64) :
    ((List.range count).foldl (withSection c) []).find? trie index =
      if index.toNat < count then confirmed? c trie index else none := by
  induction count with
  | zero => rfl
  | succ count ih =>
    have hword : (UInt64.ofNat count).toNat = count :=
      UInt64.toNat_ofNat_of_lt' (show count < 2 ^ 64 by omega)
    rw [List.range_succ, List.foldl_append, List.foldl_cons, List.foldl_nil, find?_withSection,
      ih (by omega)]
    by_cases hindex : UInt64.ofNat count = index
    · subst hindex
      simp [hword]
    · have hne : index.toNat ≠ count := fun h => hindex (by rw [← h, UInt64.ofNat_toNat])
      have hlt : index.toNat < count ↔ index.toNat < count + 1 := by omega
      simp [hindex, hlt]

/-- A chain confirms the roots of all its sections. -/
theorem find?_ofChain {c : SampleChain} (hsections : c.sections ≤ 2 ^ 64) {index : UInt64}
    (hindex : index.toNat < c.sections) (trie : HelperTrie) :
    (ofChain c).find? trie index = confirmed? c trie index := by
  rw [ofChain_eq, find?_foldl_withSection hsections, if_pos hindex]

end SectionRoots

end LightClient
