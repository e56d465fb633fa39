/-
Module: LightClient.Proofs.HelperTrie
Purpose: What is written for a block or a bloom bit in a helper trie stands for it alone: the value
  of a block is read back, nothing else is read as one, and different blocks and bits have
  different keys, those of blocks in the order of the numbers.
Main exports: HelperTrie.parseBlockValue_blockValue, HelperTrie.parseBlockValue_eq_some_iff,
  HelperTrie.blockKey_lt_iff, HelperTrie.bitKey_eq_iff, HelperTrie.entries_unambiguous
-/
import LightClient.HelperTrie
import LightClient.Proofs.Bytes
import LightClient.Proofs.Digest

namespace LightClient

namespace HelperTrie

/-! ### Values of blocks -/

section Values

variable {hash : Digest} {totalDifficulty : Nat} {value : Bytes}

theorem length_blockValue : (blockValue hash totalDifficulty).length = 48 := by
  simp [blockValue, hash.length_bytes]

/-- The value of a block is split again into its hash and its total difficulty. -/
theorem parseBlockValue_blockValue (h : totalDifficulty < 2 ^ 128) :
    parseBlockValue (blockValue hash totalDifficulty) = some (hash, totalDifficulty) := by
  have hhash : (blockValue hash totalDifficulty).take 32 = hash.bytes :=
    List.take_left' hash.length_bytes
  have hrest : (blockValue hash totalDifficulty).drop 32 = Bytes.bigEndian 16 totalDifficulty :=
    List.drop_left' hash.length_bytes
  have hnumber : totalDifficulty % 256 ^ 16 = totalDifficulty := Nat.mod_eq_of_lt (by omega)
  rw [parseBlockValue, if_pos length_blockValue, hhash, hrest, Digest.ofBytes?_bytes,
    Option.map_some, Bytes.ofBigEndian_bigEndian, hnumber]

/-- Every string of 48 bytes is the value of a block, whose total difficulty fits 16 bytes. -/
theorem exists_blockValue_of_length (h : value.length = 48) :
    ∃ hash, ∃ totalDifficulty < 2 ^ 128, blockValue hash totalDifficulty = value := by
  have hfront : (value.take 32).length = 32 := by
    rw [List.length_take]
    omega
  have hback : (value.drop 32).length = 16 := by
    rw [List.length_drop]
    omega
  have hroom := Bytes.ofBigEndian_lt (value.drop 32)
  have hwritten := Bytes.bigEndian_ofBigEndian (value.drop 32)
  rw [hback] at hroom hwritten
  refine ⟨⟨value.take 32, hfront⟩, Bytes.ofBigEndian (value.drop 32), hroom, ?_⟩
  rw [blockValue, hwritten, List.take_append_drop]

/-- What is read as a hash and a total difficulty is the value that is written for them. -/
theorem parseBlockValue_eq_some_iff :
    parseBlockValue value = some (hash, totalDifficulty) ↔
      totalDifficulty < 2 ^ 128 ∧ blockValue hash totalDifficulty = value := by
  constructor
  · intro h
    have hlength : value.length = 48 := by
      by_contra hother
      rw [parseBlockValue, if_neg hother] at h
      cases h
    obtain ⟨hash', totalDifficulty', hroom, rfl⟩ := exists_blockValue_of_length hlength
    rw [parseBlockValue_blockValue hroom] at h
    cases h
    exact ⟨hroom, rfl⟩
  · rintro ⟨hroom, rfl⟩
    exact parseBlockValue_blockValue hroom

/-- Exactly the strings of 48 bytes are read. -/
theorem exists_parseBlockValue_iff :
    (∃ hash totalDifficulty, parseBlockValue value = some (hash, totalDifficulty)) ↔
      value.length = 48 := by
  constructor
  · rintro ⟨hash, totalDifficulty, h⟩
    obtain ⟨_, rfl⟩ := parseBlockValue_eq_some_iff.mp h
    exact length_blockValue
  · intro h
    obtain ⟨hash, totalDifficulty, hroom, rfl⟩ := exists_blockValue_of_length h
    exact ⟨hash, totalDifficulty, parseBlockValue_blockValue hroom⟩

end Values

/-! ### Keys -/

/-- Every number has a key of its own. -/
theorem blockKey_eq_iff {m n : UInt64} : blockKey m = blockKey n ↔ m = n := by
  rw [blockKey, blockKey, Bytes.bigEndian_inj m.toNat_lt n.toNat_lt, UInt64.toNat_inj]

/-- The keys of blocks have the order of their numbers. -/
theorem blockKey_lt_iff {m n : UInt64} : blockKey m < blockKey n ↔ m < n := by
  rw [blockKey, blockKey, Bytes.bigEndian_lt_iff m.toNat_lt n.toNat_lt, UInt64.lt_iff_toNat_lt]

/-- Every bit of every section has a key of its own. -/
theorem bitKey_eq_iff {bit bit' : UInt16} {index index' : UInt64} :
    bitKey bit index = bitKey bit' index' ↔ bit = bit' ∧ index = index' := by
  rw [bitKey, bitKey, List.append_eq_append_iff_of_size_eq_left (by simp),
    Bytes.bigEndian_inj bit.toNat_lt bit'.toNat_lt, Bytes.bigEndian_inj index.toNat_lt
    index'.toNat_lt, UInt16.toNat_inj, UInt64.toNat_inj]

/-- The entries of helper tries cannot be mistaken for each other. The value of a block is read back
as its hash and its total difficulty; whatever is read is the value of what it is read as, and
exactly the strings of 48 bytes are read. Blocks have keys of their own, in the order of their
numbers, and so has every bloom bit of every section. -/
theorem entries_unambiguous :
    (∀ hash, ∀ totalDifficulty < 2 ^ 128,
        parseBlockValue (blockValue hash totalDifficulty) = some (hash, totalDifficulty)) ∧
      (∀ value hash totalDifficulty, parseBlockValue value = some (hash, totalDifficulty) →
        totalDifficulty < 2 ^ 128 ∧ blockValue hash totalDifficulty = value) ∧
      (∀ value, (∃ hash totalDifficulty, parseBlockValue value = some (hash, totalDifficulty)) ↔
        value.length = 48) ∧
      Function.Injective blockKey ∧
      (∀ m n, blockKey m < blockKey n ↔ m < n) ∧
      Function.Injective2 bitKey := by
  refine ⟨fun _ _ => parseBlockValue_blockValue, fun _ _ _ => parseBlockValue_eq_some_iff.mp,
    fun _ => exists_parseBlockValue_iff, fun _ _ => blockKey_eq_iff.mp, fun _ _ => blockKey_lt_iff,
    fun _ _ _ _ => bitKey_eq_iff.mp⟩

/-- The largest total difficulty there is room for, numbers on either side of a carry, and two keys
in which the same bytes belong to different parts. -/
theorem entries_unambiguous_at_carries :
    parseBlockValue (blockValue Digest.zero (2 ^ 128 - 1)) = some (Digest.zero, 2 ^ 128 - 1) ∧
      blockValue Digest.zero (2 ^ 128 - 1) = List.replicate 32 0 ++ List.replicate 16 255 ∧
      parseBlockValue (List.replicate 47 255) = none ∧
      blockKey 255 < blockKey 256 ∧ blockKey 255 ≠ blockKey 256 ∧
      bitKey 1 0 ≠ bitKey 0 72057594037927936 := by
  obtain ⟨hwritten, hread, hlength, hkeys, horder, hbits⟩ := entries_unambiguous
  have hback := hwritten Digest.zero (2 ^ 128 - 1) (by decide)
  refine ⟨hback, ?_, ?_, (horder 255 256).mpr (by decide), fun h => ?_, fun h => ?_⟩
  · rfl
  · cases hparse : parseBlockValue (List.replicate 47 255) with
    | none => rfl
    | some p => exact absurd ((hlength _).mp ⟨p.1, p.2, hparse⟩) (by decide)
  · exact absurd (hkeys h) (by decide)
  · exact absurd (hbits h).1 (by decide)

end HelperTrie

end LightClient
