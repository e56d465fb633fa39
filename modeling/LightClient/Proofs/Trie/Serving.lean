/-
Module: LightClient.Proofs.Trie.Serving
Purpose: The proof that a trie makes of a key checks against its root, and says what the trie says;
  its nodes are hardly longer than the keys and values of the trie.
Main exports: Trie.verifyProof_prove, Trie.length_le_of_mem_prove, Trie.lastValue_eq_some
-/
import LightClient.Proofs.Trie.Proving
import LightClient.Proofs.Wire.Lengths

namespace LightClient

namespace Trie

/-! ### Proofs of a trie -/

/-- A walk visits nodes only that its lookup finds. -/
theorem exists_lookup_of_visited {lookup : Digest → Option Bytes} {expected : Digest}
    {rest raw : Bytes} (h : raw ∈ (walkFrom lookup expected rest).visited) :
    ∃ name, lookup name = some raw := by
  induction hlength : rest.length using Nat.strongRecOn generalizing expected rest with
  | ind length ih =>
    subst hlength
    rw [walkFrom_eq] at h
    cases hlookup : lookup expected with
    | none =>
      rw [hlookup] at h
      cases h
    | some raw' =>
      rw [hlookup] at h
      simp only at h
      cases hnode : Node.decode expected raw' with
      | error e =>
        rw [hnode, List.mem_singleton] at h
        exact ⟨expected, h ▸ hlookup⟩
      | ok n =>
        rw [hnode] at h
        simp only at h
        cases hturn : n.turn rest with
        | stop value =>
          rw [hturn, List.mem_singleton] at h
          exact ⟨expected, h ▸ hlookup⟩
        | go child rest' =>
          rw [hturn, Walk.through_visited] at h
          rcases List.mem_cons.mp h with h | h
          · exact ⟨expected, h ▸ hlookup⟩
          · exact ih _ (Node.turn_lt hnode hturn) h rfl

/-- A trie proves with its own nodes. -/
theorem mem_encodings_of_mem_prove {t : Trie} {key raw : Bytes} (h : raw ∈ t.prove key) :
    raw ∈ t.encodings := by
  unfold prove walk at h
  split at h
  · cases h
  · obtain ⟨name, hname⟩ := exists_lookup_of_visited h
    exact List.mem_map.mpr ⟨(name, raw), mem_of_lookup hname, rfl⟩

/-- The proof that a built trie makes of a key proves the value that the trie has for it, or that
it has none. -/
theorem verifyProof_prove {entries : List (Bytes × Bytes)}
    (hentries : ∀ e ∈ entries, e.1.Addressable ∧ e.2.Addressable)
    (hno : ¬ Collision (build entries).ownStrings) (key : Bytes) :
    verifyProof (build entries).root key ((build entries).prove key) =
      .ok ((build entries).get key) := by
  have hall : ¬ Collision
      ((build entries).prove key ++ (build entries).encodings ++ [[]]) := by
    intro hcollision
    apply hno
    apply hcollision.mono
    intro x hx
    rw [List.append_assoc] at hx
    rcases List.mem_append.mp hx with hx | hx
    · exact mem_ownStrings_of_mem (mem_encodings_of_mem_prove hx)
    · exact hx
  obtain ⟨hget, hproven, _⟩ := verifyProof_build hentries hall key
  rw [hget]
  exact hproven fun raw hraw => hraw

/-! ### The length of nodes -/

/-- Keys in nibbles and values that are no longer than given. -/
def Short (keyLimit valueLimit : Nat) (entries : List (Bytes × Bytes)) : Prop :=
  ∀ e ∈ entries, e.1.length ≤ keyLimit ∧ e.2.length ≤ valueLimit

namespace Short

variable {keyLimit valueLimit : Nat} {entries : List (Bytes × Bytes)}

theorem mono {limit : Nat} (h : Short keyLimit limit entries) (hlimit : limit ≤ valueLimit) :
    Short keyLimit valueLimit entries :=
  fun e he => ⟨(h e he).1, (h e he).2.trans hlimit⟩

theorem dropPath (h : Short keyLimit valueLimit entries) (n : Nat) :
    Short keyLimit valueLimit (dropPath n entries) := by
  intro e he
  obtain ⟨e', he', rfl⟩ := mem_dropPath.mp he
  constructor
  · exact (List.drop_sublist n e'.1).length_le.trans (h e' he').1
  · exact (h e' he').2

theorem under (h : Short keyLimit valueLimit entries) (n : Nat) :
    Short keyLimit valueLimit (under n entries) := by
  intro e he
  obtain ⟨m, _, hmem⟩ := mem_under.mp he
  constructor
  · exact (Nat.le_succ _).trans (h _ hmem).1
  · exact (h _ hmem).2

/-- The content of entries has keys of two nibbles a byte. -/
theorem content (h : Short keyLimit valueLimit entries) :
    Short (2 * keyLimit) valueLimit (content entries) := by
  induction entries using List.reverseRecOn with
  | nil => exact fun _ he => nomatch he
  | append_singleton entries e ih =>
    have hrest := ih fun x hx => h x (List.mem_append_left _ hx)
    obtain ⟨hkey, hvalue⟩ := h e (by simp)
    rw [content_append]
    split
    · exact hrest
    · intro x hx
      rcases mem_setEntry hx with rfl | hx
      · refine ⟨?_, hvalue⟩
        rw [length_nibbles]
        exact Nat.mul_le_mul_left 2 hkey
      · exact hrest x hx

end Short

theorem Node.length_encode_leaf_le (path value : Bytes) :
    (leaf path value).encode.length ≤ 60 + path.length + value.length := by
  have hlength := @Wire.NodeMessage.length_encode_le 0 (leaf path value).toMessage
    fun _ hc => nomatch hc
  simp only [toMessage, List.length_nil] at hlength
  unfold encode
  simp only [toMessage]
  omega

theorem Node.length_encode_extension_le (path : Bytes) (child : Digest) :
    (extension path child).encode.length ≤ 112 + path.length := by
  have hlength := @Wire.NodeMessage.length_encode_le 32 (extension path child).toMessage
    fun c hc => by rw [List.mem_singleton.mp hc, child.length_bytes]
  simp only [toMessage, List.length_singleton, List.length_nil] at hlength
  unfold encode
  simp only [toMessage]
  omega

theorem Node.length_encode_branch_le (children : Vector (Option Digest) 16)
    (value : Option Bytes) :
    (branch children value).encode.length ≤ 892 + (value.getD []).length := by
  have hlength := @Wire.NodeMessage.length_encode_le 32 (branch children value).toMessage
    fun c hc => by
      obtain ⟨child, _, rfl⟩ := List.mem_map.mp hc
      cases child with
      | none => exact Nat.zero_le 32
      | some d => exact d.length_bytes.le
  simp only [toMessage, List.length_map, Vector.length_toList, List.length_nil] at hlength
  unfold encode
  simp only [toMessage]
  omega

/-- The nodes that are planted for entries are hardly longer than their keys and values. -/
theorem Short.length_le_of_planted {keyLimit valueLimit : Nat} {entries : List (Bytes × Bytes)}
    {n : Node} (h : Short keyLimit valueLimit entries) (hn : Planted entries n) :
    n.encode.length ≤ 892 + keyLimit + valueLimit := by
  induction hn with
  | leaf path value =>
    obtain ⟨hpath, hvalue⟩ := h (path, value) List.mem_cons_self
    simp only at hpath hvalue
    have hleaf := Node.length_encode_leaf_le path value
    omega
  | @extension entries many =>
    obtain ⟨e, he⟩ := List.exists_mem_of_ne_nil entries (List.ne_nil_of_length_pos (by omega))
    have hshared := commonPath_prefix he
    have hpath := hshared.length_le
    have hkey := (h e he).1
    have hextension := Node.length_encode_extension_le (commonPath entries)
      (grow (Trie.dropPath (commonPath entries).length entries)).root
    omega
  | belowExtension many shared _ ih => exact ih (h.dropPath _)
  | @branch entries =>
    have hbranch := Node.length_encode_branch_le ((limbs entries).map fun t => t.map Trie.root)
      (valueHere entries)
    have hvalue : ((valueHere entries).getD []).length ≤ valueLimit := by
      cases hhere : valueHere entries with
      | none => exact Nat.zero_le _
      | some v => exact (h _ (mem_of_lookup hhere)).2
    omega
  | belowBranch many parting _ _ ih => exact ih (h.under _)

/-- The nodes in a proof of a built trie are hardly longer than its keys and values. -/
theorem length_le_of_mem_prove {keyLimit valueLimit : Nat} {entries : List (Bytes × Bytes)}
    (h : Short keyLimit valueLimit entries) {key raw : Bytes}
    (hraw : raw ∈ (build entries).prove key) :
    raw.length ≤ 892 + 2 * keyLimit + valueLimit := by
  obtain ⟨entry, hentry, rfl⟩ := List.mem_map.mp (mem_encodings_of_mem_prove hraw)
  obtain ⟨n, hn, rfl⟩ := mem_nodes_grow_iff.mp hentry
  exact h.content.length_le_of_planted hn

/-! ### Entries with one value for a key -/

/-- A key whose entries all have one value, not empty, has this value. -/
theorem lastValue_eq_some {entries : List (Bytes × Bytes)} {key value : Bytes}
    (hmem : (key, value) ∈ entries) (hne : value ≠ [])
    (hall : ∀ e ∈ entries, e.1 = key → e.2 = value) : lastValue entries key = some value := by
  unfold lastValue
  have hfiltered : (key, value) ∈ entries.filter fun e => e.1 = key ∧ e.2 ≠ [] := by
    simp [hmem, hne]
  obtain ⟨e, he⟩ : ∃ e, (entries.filter fun e => e.1 = key ∧ e.2 ≠ []).getLast? = some e :=
    Option.isSome_iff_exists.mp (List.getLast?_isSome.mpr (List.ne_nil_of_mem hfiltered))
  obtain ⟨hmem', hkey⟩ := List.mem_filter.mp (List.mem_of_getLast? he)
  rw [he, Option.map_some, hall e hmem' (of_decide_eq_true hkey).1]

end Trie

end LightClient
