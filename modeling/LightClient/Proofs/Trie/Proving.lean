/-
Module: LightClient.Proofs.Trie.Proving
Purpose: Exactly what a list of nodes proves against the root of a built trie: the last value of
  the key if it holds the proof that the trie makes, and otherwise that the first node of this
  proof that it does not hold is missing.
Main exports: Trie.encodings, Trie.walk_build, Trie.get_build, Trie.verifyProof_build
-/
import LightClient.Proofs.Trie.Content

namespace LightClient

namespace Trie

/-- The bytes of all nodes of a trie. -/
def encodings (t : Trie) : List Bytes :=
  t.nodes.map Prod.snd

/-- The byte strings that the walk through a trie has to tell apart: its nodes, and the empty
string, whose digest is the root of the empty trie. -/
def ownStrings (t : Trie) : List Bytes :=
  t.encodings ++ [[]]

theorem nil_mem_ownStrings (t : Trie) : [] ∈ t.ownStrings :=
  List.mem_append_right _ (List.mem_singleton.mpr rfl)

theorem mem_ownStrings_of_mem {t : Trie} {raw : Bytes} (h : raw ∈ t.encodings) :
    raw ∈ t.ownStrings :=
  List.mem_append_left _ h

theorem Tops.mem_encodings {n : Node} {entries : List (Bytes × Bytes)} (h : Tops n entries) :
    n.encode ∈ (grow entries).encodings :=
  List.mem_map.mpr ⟨_, h.mem, rfl⟩

/-- Each node of a trie is filed under the hash of its bytes. -/
theorem filedIn_grow (entries : List (Bytes × Bytes)) :
    FiledIn (grow entries).encodings (grow entries).nodes.find := by
  intro name raw h
  have hmem : (name, raw) ∈ (grow entries).nodes := mem_of_lookup h
  exact ⟨List.mem_map.mpr ⟨_, hmem, rfl⟩, (name_of_mem_grow hmem).symm⟩

/-- Without a collision, every node of a trie is found in it. -/
theorem find_grow {entries : List (Bytes × Bytes)}
    (hno : ¬ Collision (grow entries).encodings) :
    ∀ entry ∈ (grow entries).nodes, (grow entries).nodes.find entry.1 = some entry.2 := by
  intro entry he
  obtain ⟨raw, hfind⟩ := NodeIndex.exists_find he
  obtain ⟨hraw, hname⟩ := filedIn_grow entries _ _ hfind
  have hentry : entry.2 ∈ (grow entries).encodings := List.mem_map.mpr ⟨entry, he, rfl⟩
  rw [hfind, Collision.eq_of_not hno hraw hentry (hname.trans (name_of_mem_grow he))]

/-- Only with a collision is the root of a trie with entries that of the empty trie: its root node
has bytes, and the empty string has the same digest. -/
theorem collision_of_root_grow {entries : List (Bytes × Bytes)} {strings : List Bytes}
    (hne : entries ≠ []) (hproper : Proper entries)
    (hs : ∀ x ∈ (grow entries).encodings, x ∈ strings) (hnil : [] ∈ strings)
    (hroot : (grow entries).root = emptyRoot) : Collision strings := by
  obtain ⟨n, htops⟩ := exists_tops hne hproper
  rcases Collision.eq_or (hs _ htops.mem_encodings) hnil (htops.root.symm.trans hroot) with
    hempty | hcollision
  · exact absurd hempty n.encode_ne_nil
  · exact hcollision

/-- A trie without content has the empty root. -/
theorem root_build_of_empty {entries : List (Bytes × Bytes)} (hcontent : content entries = []) :
    (build entries).root = emptyRoot := by
  rw [build, hcontent, grow]

/-- From the root of a trie with entries, the walk finds the last value for the key. -/
theorem walkFrom_build {entries : List (Bytes × Bytes)}
    (hentries : ∀ e ∈ entries, e.1.Addressable ∧ e.2.Addressable)
    (hcontent : content entries ≠ []) (hno : ¬ Collision (build entries).encodings) (key : Bytes) :
    (walkFrom (build entries).nodes.find (build entries).root (nibbles key)).result =
      .ok (lastValue entries key) := by
  rw [← lookup_content]
  exact walkFrom_grow hcontent (sound_content hentries) (find_grow hno) _

/-- The walk through a built trie finds the last value for the key. -/
theorem walk_build {entries : List (Bytes × Bytes)}
    (hentries : ∀ e ∈ entries, e.1.Addressable ∧ e.2.Addressable)
    (hno : ¬ Collision (build entries).ownStrings) (key : Bytes) :
    (walk (build entries).nodes.find (build entries).root key).result =
      .ok (lastValue entries key) := by
  unfold walk
  by_cases hcontent : content entries = []
  · rw [if_pos (root_build_of_empty hcontent), ← lookup_content, hcontent]
    rfl
  · have hroot : (build entries).root ≠ emptyRoot := fun hroot =>
      hno (collision_of_root_grow hcontent (proper_content entries)
        (fun _ => mem_ownStrings_of_mem) (nil_mem_ownStrings _) hroot)
    rw [if_neg hroot]
    exact walkFrom_build hentries hcontent (fun h => hno (h.mono fun _ => mem_ownStrings_of_mem)) _

/-- A built trie holds the last value for every key. -/
theorem get_build {entries : List (Bytes × Bytes)}
    (hentries : ∀ e ∈ entries, e.1.Addressable ∧ e.2.Addressable)
    (hno : ¬ Collision (build entries).ownStrings) (key : Bytes) :
    (build entries).get key = lastValue entries key := by
  rw [get, walk_build hentries hno]

/-- Checking nodes against the root of a trie is a walk through the trie that stops at the first
node that is not among them. -/
theorem verifyProof_eq_restrict {entries : List (Bytes × Bytes)}
    (hentries : ∀ e ∈ entries, e.1.Addressable ∧ e.2.Addressable) {nodes : List Bytes}
    (hno : ¬ Collision (nodes ++ (build entries).ownStrings)) (key : Bytes) :
    verifyProof (build entries).root key nodes =
      (walk (build entries).nodes.find (build entries).root key).restrict (· ∈ nodes) := by
  have hown : ¬ Collision (build entries).ownStrings := fun h =>
    hno (h.mono fun _ => List.mem_append_right _)
  have hgiven : ¬ Collision nodes := fun h => hno (h.mono fun _ => List.mem_append_left _)
  have hend := walk_build hentries hown key
  have hfiled : FiledIn (build entries).encodings (build entries).nodes.find := filedIn_grow _
  unfold verifyProof
  simp only [walk] at hend ⊢
  split at hend
  next hempty =>
    rw [if_pos hempty, if_pos hempty]
    rfl
  next hempty =>
    rw [if_neg hempty, if_neg hempty]
    refine walkFrom_restrict hfiled (fun raw hraw => ?_) (by simp [hend])
    have hmem : raw ∈ (build entries).encodings := (hfiled _ _ hraw).1
    by_cases hgiven' : raw ∈ nodes
    · simp only [hgiven', decide_true, if_true]
      exact find_ofNodes_of_mem hgiven hgiven'
    · simp only [hgiven', decide_false, Bool.false_eq_true, if_false]
      cases hfound : (NodeIndex.ofNodes nodes).find (sha256 raw) with
      | none => rfl
      | some raw' =>
        obtain ⟨hraw', hname⟩ := filedIn_ofNodes _ _ _ hfound
        have heq : raw' = raw := Collision.eq_of_not hno (List.mem_append_left _ hraw')
          (List.mem_append_right _ (mem_ownStrings_of_mem hmem)) hname
        exact absurd (heq ▸ hraw') hgiven'

/-- What nodes prove against the root of a built trie. The trie holds the last value for the key;
nodes that hold the whole proof of the key prove just this, whatever else there is among them and
in whatever order; and otherwise the first node of the proof that they do not hold is missing. -/
theorem verifyProof_build {entries : List (Bytes × Bytes)}
    (hentries : ∀ e ∈ entries, e.1.Addressable ∧ e.2.Addressable) {nodes : List Bytes}
    (hno : ¬ Collision (nodes ++ (build entries).encodings ++ [[]])) (key : Bytes) :
    (build entries).get key = lastValue entries key ∧
      ((∀ raw ∈ (build entries).prove key, raw ∈ nodes) →
        verifyProof (build entries).root key nodes = .ok (lastValue entries key)) ∧
      ∀ before raw after, (build entries).prove key = before ++ raw :: after →
        (∀ x ∈ before, x ∈ nodes) → raw ∉ nodes →
        verifyProof (build entries).root key nodes = .error (.missingNode (sha256 raw)) := by
  rw [List.append_assoc] at hno
  have hown : ¬ Collision (build entries).ownStrings := fun h =>
    hno (h.mono fun _ => List.mem_append_right _)
  have hverify := verifyProof_eq_restrict hentries hno key
  refine ⟨get_build hentries hown key, fun hall => ?_, fun before raw after hproof hbefore hraw => ?_⟩
  · have hnone : ((build entries).prove key).find? (fun raw => !decide (raw ∈ nodes)) = none := by
      rw [List.find?_eq_none]
      intro raw hraw
      simpa using hall raw hraw
    rw [hverify, Walk.restrict]
    rw [prove] at hnone
    rw [hnone]
    exact walk_build hentries hown key
  · have hfirst : ((build entries).prove key).find? (fun raw => !decide (raw ∈ nodes)) =
        some raw := by
      rw [List.find?_eq_some_iff_append]
      exact ⟨by simpa using hraw, before, after, hproof, fun x hx => by simpa using hbefore x hx⟩
    rw [hverify, Walk.restrict]
    rw [prove] at hfirst
    rw [hfirst]

set_option maxRecDepth 100000 in
/-- The nodes that prove one key, given in the wrong order, prove it still, and miss the leaf of the
other key. The empty value given for that key last does not count. -/
theorem verifyProof_build_of_two_keys :
    let t := build [([0x10], [7]), ([0x23], [8]), ([0x10], [])]
    let nodes := (t.prove [0x23]).reverse
    t.get [0x10] = some [7] ∧ verifyProof t.root [0x23] nodes = .ok (some [8]) ∧
      verifyProof t.root [0x10] nodes =
        .error (.missingNode (sha256 [8, 1, 18, 1, 0, 34, 1, 7])) := by
  intro t nodes
  have hentries : ∀ e ∈ [([0x10], [7]), ([0x23], [8]), ([0x10], [])],
      Bytes.Addressable e.1 ∧ Bytes.Addressable e.2 := by
    simp [Bytes.Addressable]
  have hno : ¬ Collision (nodes ++ t.encodings ++ [[]]) := by decide +kernel
  obtain ⟨hget, _, hmissing⟩ := verifyProof_build hentries hno [0x10]
  obtain ⟨_, hproven, _⟩ := verifyProof_build hentries hno [0x23]
  refine ⟨hget, hproven fun raw hraw => List.mem_reverse.mpr hraw, ?_⟩
  refine hmissing ((t.prove [0x10]).take 1) _ [] ?_ ?_ ?_ <;> decide +kernel

end Trie

end LightClient
