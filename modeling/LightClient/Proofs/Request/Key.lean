/-
Module: LightClient.Proofs.Request.Key
Purpose: The canonical bytes of a request tell it apart from every other one, so that its key does
  as well, up to a collision. This does not rest on the length that is written in front of a trie
  key and loses its high bits there: all other parts of a request have a fixed width, so that a trie
  key is what stands between them.
Main exports: Request.canonical_inj, Request.key_identifies
-/
import Mathlib.Data.List.Basic
import LightClient.Proofs.Bytes
import LightClient.Proofs.Digest
import LightClient.Request.Key

namespace LightClient

namespace Request

/-! ### Parts of fixed width -/

section

variable {s t : Bytes}

/-- Digests have one length, so what follows them can be told. -/
theorem digest_append_inj {d e : Digest} : d.bytes ++ s = e.bytes ++ t ↔ d = e ∧ s = t := by
  rw [List.append_eq_append_iff_of_size_eq_left (d.length_bytes.trans e.length_bytes.symm),
    Digest.bytes_inj]

theorem word_inj {v w : UInt64} : word v = word w ↔ v = w := by
  rw [word, word, Bytes.bigEndian_inj v.toNat_lt w.toNat_lt, UInt64.toNat_inj]

theorem length_word (v : UInt64) : (word v).length = 8 :=
  Bytes.length_bigEndian 8 v.toNat

/-- Words have one length, so what follows them can be told. -/
theorem word_append_inj {v w : UInt64} : word v ++ s = word w ++ t ↔ v = w ∧ s = t := by
  rw [List.append_eq_append_iff_of_size_eq_left ((length_word v).trans (length_word w).symm),
    word_inj]

/-- A word at the end is told from what stands in front of it, however long that is. -/
theorem append_word_inj {v w : UInt64} : s ++ word v = t ++ word w ↔ s = t ∧ v = w := by
  rw [List.append_eq_append_iff_of_size_eq_right ((length_word v).trans (length_word w).symm),
    word_inj]

/-- The four bytes that name a helper trie can be told from what follows them. -/
theorem trie_append_inj {x y : HelperTrie} :
    Bytes.bigEndian 4 x.wire.toNat ++ s = Bytes.bigEndian 4 y.wire.toNat ++ t ↔
      x = y ∧ s = t := by
  rw [List.append_eq_append_iff_of_size_eq_left (by simp),
    Bytes.bigEndian_inj x.wire.toNat_lt y.wire.toNat_lt]
  cases x <;> cases y <;> simp [HelperTrie.wire]

end

/-- Different byte strings are written differently, whatever has become of their lengths. -/
theorem sized_inj {a b : Bytes} : sized a = sized b ↔ a = b := by
  constructor
  · intro h
    exact (List.append_inj h (by simp)).2
  · exact fun h => h ▸ rfl

/-! ### Requests -/

/-- Every kind of request has a tag of its own. -/
theorem tag_inj {j k : RequestKind} : j.tag = k.tag ↔ j = k := by
  cases j <;> cases k <;> decide

/-- Different requests have different canonical bytes. -/
theorem canonical_inj {a b : Request} : a.canonical = b.canonical ↔ a = b := by
  constructor
  · intro h
    obtain ⟨htag, hparts⟩ := List.cons.inj h
    have hkind : a.kind = b.kind := tag_inj.mp htag
    -- equal tags name one constructor, whose parts can be told apart one after the other
    cases a with
    | headerRange anchor number count =>
      cases b with
      | headerRange =>
        simp only [List.append_assoc, digest_append_inj, word_append_inj, word_inj] at hparts
        obtain ⟨rfl, rfl, rfl⟩ := hparts
        rfl
      | _ => cases hkind
    | body blockHash number transactionsRoot ommersHash =>
      cases b with
      | body =>
        simp only [List.append_assoc, digest_append_inj, word_append_inj, Digest.bytes_inj] at hparts
        obtain ⟨rfl, rfl, rfl, rfl⟩ := hparts
        rfl
      | _ => cases hkind
    | receipts blockHash number receiptsRoot =>
      cases b with
      | receipts =>
        simp only [List.append_assoc, digest_append_inj, word_append_inj, Digest.bytes_inj] at hparts
        obtain ⟨rfl, rfl, rfl⟩ := hparts
        rfl
      | _ => cases hkind
    | stateProof blockHash number root key =>
      cases b with
      | stateProof =>
        simp only [List.append_assoc, digest_append_inj, word_append_inj, sized_inj] at hparts
        obtain ⟨rfl, rfl, rfl, rfl⟩ := hparts
        rfl
      | _ => cases hkind
    | code blockHash number codeHash =>
      cases b with
      | code =>
        simp only [List.append_assoc, digest_append_inj, word_append_inj, Digest.bytes_inj] at hparts
        obtain ⟨rfl, rfl, rfl⟩ := hparts
        rfl
      | _ => cases hkind
    | helperTrieProof trie index root key head =>
      cases b with
      | helperTrieProof =>
        simp only [List.append_assoc, trie_append_inj, word_append_inj, digest_append_inj,
          append_word_inj, sized_inj] at hparts
        obtain ⟨rfl, rfl, rfl, rfl, rfl⟩ := hparts
        rfl
      | _ => cases hkind
  · exact fun h => h ▸ rfl

/-- The key of a request stands for the request: the bytes that are digested for it are those of no
other request, so that two requests share a key only if they are equal or their bytes collide. -/
theorem key_identifies (a b : Request) :
    (a.canonical = b.canonical ↔ a = b) ∧
      ((a.key = b.key ↔ a = b) ∨
        a.canonical ≠ b.canonical ∧ sha256 a.canonical = sha256 b.canonical) := by
  refine ⟨canonical_inj, ?_⟩
  by_cases hcollide : a.canonical ≠ b.canonical ∧ sha256 a.canonical = sha256 b.canonical
  · exact .inr hcollide
  left
  constructor
  · intro hkey
    by_contra hne
    exact hcollide ⟨fun h => hne (canonical_inj.mp h), congrArg RequestKey.digest hkey⟩
  · exact fun h => h ▸ rfl

end Request

end LightClient
