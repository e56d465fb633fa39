/-
Module: LightClient.Proofs.Trie.Commitment
Purpose: A root commits to the content of the trie below it, and the root of a list to the list.
  Two tries with one root are gone down together along a key: as long as no nodes collide, the
  nodes on top are the same at every step.
Main exports: Trie.digested, Trie.lookup_eq_or_collision, Trie.lastValue_eq_or_collision,
  Trie.root_build_commits, Trie.lastValue_orderedEntries, Trie.orderedRoot_eq_or_collision,
  Trie.orderedRoot_inj
-/
import LightClient.Proofs.Bytes
import LightClient.Proofs.Trie.Proving
import LightClient.Trie.OrderedList

namespace LightClient

namespace Trie

/-- What is digested while a trie is built: its nodes, or the empty string if it has none. -/
def digested (entries : List (Bytes × Bytes)) : List Bytes :=
  if content entries = [] then [[]] else (build entries).encodings

/-- Two tries of entries with one root find the same under every rest of a key, or two of their
nodes collide. The nodes on top of both have one digest, so they are one node, whose turn leads to
two tries with one root again, of the same shorter rest. -/
theorem lookup_eq_or_collision {entries₁ entries₂ : List (Bytes × Bytes)} {strings : List Bytes}
    (hne₁ : entries₁ ≠ []) (hproper₁ : Proper entries₁)
    (hs₁ : ∀ x ∈ (grow entries₁).encodings, x ∈ strings)
    (hne₂ : entries₂ ≠ []) (hproper₂ : Proper entries₂)
    (hs₂ : ∀ x ∈ (grow entries₂).encodings, x ∈ strings)
    (hroot : (grow entries₁).root = (grow entries₂).root) (rest : Bytes) :
    entries₁.lookup rest = entries₂.lookup rest ∨ Collision strings := by
  induction hlength : rest.length using Nat.strongRecOn generalizing entries₁ entries₂ rest with
  | ind length ih =>
    subst hlength
    obtain ⟨n₁, htops₁⟩ := exists_tops hne₁ hproper₁
    obtain ⟨n₂, htops₂⟩ := exists_tops hne₂ hproper₂
    have hname : sha256 n₁.encode = sha256 n₂.encode :=
      htops₁.root.symm.trans (hroot.trans htops₂.root)
    rcases Collision.eq_or (hs₁ _ htops₁.mem_encodings) (hs₂ _ htops₂.mem_encodings) hname with
      hencode | hcollision
    · obtain rfl := Node.encode_inj htops₁.wellFormed htops₂.wellFormed hencode
      have hleads₁ := htops₁.leads rest
      have hleads₂ := htops₂.leads rest
      generalize n₁.turn rest = turn at hleads₁ hleads₂
      cases hleads₁ with
      | stop hfound₁ =>
        cases hleads₂ with
        | stop hfound₂ => exact .inl (hfound₁.trans hfound₂.symm)
      | go hchild₁ hbelow₁ hkeep₁ _ hnodes₁ hshorter hfound₁ =>
        cases hleads₂ with
        | go hchild₂ hbelow₂ hkeep₂ _ hnodes₂ _ hfound₂ =>
          have hrest := ih _ hshorter hbelow₁ hkeep₁
            (fun x hx => hs₁ x (List.map_subset _ hnodes₁ hx)) hbelow₂ hkeep₂
            (fun x hx => hs₂ x (List.map_subset _ hnodes₂ hx)) (hchild₁.trans hchild₂.symm) _ rfl
          rwa [hfound₁, hfound₂] at hrest
    · exact .inr hcollision

/-- Two tries with one root say the same about every key, or some of their nodes collide. -/
theorem lastValue_eq_or_collision {entries₁ entries₂ : List (Bytes × Bytes)}
    {strings : List Bytes} (hs₁ : ∀ x ∈ digested entries₁, x ∈ strings)
    (hs₂ : ∀ x ∈ digested entries₂, x ∈ strings)
    (hroot : (build entries₁).root = (build entries₂).root) (key : Bytes) :
    lastValue entries₁ key = lastValue entries₂ key ∨ Collision strings := by
  rw [← lookup_content, ← lookup_content]
  by_cases hc₁ : content entries₁ = []
  · rw [digested, if_pos hc₁] at hs₁
    have hnil : [] ∈ strings := hs₁ [] List.mem_cons_self
    by_cases hc₂ : content entries₂ = []
    · exact .inl (by rw [hc₁, hc₂])
    · rw [digested, if_neg hc₂] at hs₂
      have hempty : (build entries₂).root = emptyRoot := hroot.symm.trans (root_build_of_empty hc₁)
      exact .inr (collision_of_root_grow hc₂ (proper_content _) hs₂ hnil hempty)
  · rw [digested, if_neg hc₁] at hs₁
    by_cases hc₂ : content entries₂ = []
    · rw [digested, if_pos hc₂] at hs₂
      have hnil : [] ∈ strings := hs₂ [] List.mem_cons_self
      have hempty : (build entries₁).root = emptyRoot := hroot.trans (root_build_of_empty hc₂)
      exact .inr (collision_of_root_grow hc₁ (proper_content _) hs₁ hnil hempty)
    · rw [digested, if_neg hc₂] at hs₂
      exact lookup_eq_or_collision hc₁ (proper_content _) hs₁ hc₂ (proper_content _) hs₂ hroot _

/-- What is digested while two tries are built is among their nodes and the empty string. -/
theorem mem_of_digested {entries₁ entries₂ : List (Bytes × Bytes)} {x : Bytes}
    (h : x ∈ digested entries₁ ∨ x ∈ digested entries₂) :
    x ∈ (build entries₁).encodings ++ (build entries₂).encodings ++ [[]] := by
  have hcases : ∀ entries, x ∈ digested entries → x ∈ (build entries).encodings ∨ x = [] := by
    intro entries hx
    unfold digested at hx
    split at hx
    · exact .inr (List.mem_singleton.mp hx)
    · exact .inl hx
  simp only [List.mem_append, List.mem_singleton]
  rcases h with h | h
  · exact (hcases _ h).imp_left .inl
  · exact (hcases _ h).imp_left .inr

/-- The root of a trie commits to its content and to nothing else. Entries that say the same about
every key have one root and the same proofs, in whatever order they come, whatever they repeat and
whichever empty values are among them; and if the nodes of two tries do not collide with each other
or with the empty string, then tries with one root say the same about every key. -/
theorem root_build_commits (entries₁ entries₂ : List (Bytes × Bytes)) :
    ((∀ key, lastValue entries₁ key = lastValue entries₂ key) →
      (build entries₁).root = (build entries₂).root ∧
        ∀ key, (build entries₁).prove key = (build entries₂).prove key) ∧
    (¬ Collision ((build entries₁).encodings ++ (build entries₂).encodings ++ [[]]) →
      (build entries₁).root = (build entries₂).root →
        ∀ key, lastValue entries₁ key = lastValue entries₂ key) := by
  constructor
  · intro hsame
    have hbuild : build entries₁ = build entries₂ := by rw [build, build, content_congr hsame]
    rw [hbuild]
    exact ⟨rfl, fun _ => rfl⟩
  · intro hno hroot key
    exact (lastValue_eq_or_collision (fun _ hx => mem_of_digested (.inl hx))
      (fun _ hx => mem_of_digested (.inr hx)) hroot key).resolve_right hno

set_option maxRecDepth 100000 in
/-- Entries in another order, one key given twice and one with an empty value on top, make the same
trie; another value for one key makes another root. -/
theorem root_build_of_rewritten_entries :
    let plain := [([0x10], [7]), ([0x23], [8])]
    let messy := [([0x23], [9]), ([0x10], [7]), ([0x23], [8]), ([0x10], [])]
    let other := [([0x10], [7]), ([0x23], [9])]
    (build plain).root = (build messy).root ∧
      (build plain).prove [0x23] = (build messy).prove [0x23] ∧
      (build plain).root ≠ (build other).root := by
  intro plain messy other
  have hsame : ∀ key, lastValue plain key = lastValue messy key := by
    intro key
    by_cases h10 : key = [0x10]
    · subst h10
      rfl
    · by_cases h23 : key = [0x23]
      · subst h23
        rfl
      · simp [plain, messy, lastValue, Ne.symm h10, Ne.symm h23]
  have hno : ¬ Collision ((build plain).encodings ++ (build other).encodings ++ [[]]) := by
    decide +kernel
  obtain ⟨hroot, hprove⟩ := (root_build_commits plain messy).1 hsame
  refine ⟨hroot, hprove _, fun h => ?_⟩
  have hvalue := (root_build_commits plain other).2 hno h [0x23]
  exact absurd hvalue (by decide)

/-! ### Ordered lists -/

theorem orderedEntries_append (items : List Bytes) (item : Bytes) :
    orderedEntries (items ++ [item]) =
      orderedEntries items ++ [(orderedKey items.length, orderedValue item)] := by
  simp [orderedEntries, List.zipIdx_append]

/-- Places that a 32-bit word can hold have keys of their own. -/
theorem orderedKey_inj {i j : Nat} (hi : i < 2 ^ 32) (hj : j < 2 ^ 32) :
    orderedKey i = orderedKey j ↔ i = j :=
  Bytes.bigEndian_inj (show i < 256 ^ 4 by omega) (show j < 256 ^ 4 by omega)

/-- An ordered value is never empty, even that of an empty item. -/
theorem orderedValue_ne_nil (item : Bytes) : orderedValue item ≠ [] :=
  List.append_ne_nil_of_left_ne_nil (List.cons_ne_nil _ _) _

/-- Different items have different values, however long they are: the lengths in front of them
take the same room. -/
theorem orderedValue_inj {a b : Bytes} : orderedValue a = orderedValue b ↔ a = b := by
  constructor
  · intro h
    exact (List.append_inj h (by simp)).2
  · exact fun h => h ▸ rfl

/-- The entries of a list say which item is at which index. -/
theorem lastValue_orderedEntries {items : List Bytes} (hitems : items.length ≤ 2 ^ 32) {i : Nat}
    (hi : i < 2 ^ 32) :
    lastValue (orderedEntries items) (orderedKey i) = items[i]?.map orderedValue := by
  induction items using List.reverseRecOn with
  | nil => rfl
  | append_singleton items item ih =>
    rw [List.length_append, List.length_singleton] at hitems
    rw [orderedEntries_append, lastValue_append, ih (by omega)]
    by_cases hkey : items.length = i
    · subst hkey
      simp [orderedValue_ne_nil]
    · rw [if_neg fun h => hkey ((orderedKey_inj (by omega) hi).mp h.1), List.getElem?_append]
      split
      · rfl
      next hlt =>
        have hout : items[i]? = none := List.getElem?_eq_none (by omega)
        have hout' : [item][i - items.length]? = none :=
          List.getElem?_eq_none (by simp only [List.length_singleton]; omega)
        rw [hout, hout']

/-- Two lists with one root are equal, or some of the nodes below the root collide. -/
theorem orderedRoot_eq_or_collision {a b strings : List Bytes} (ha : a.length ≤ 2 ^ 32)
    (hb : b.length ≤ 2 ^ 32) (hsa : ∀ x ∈ digested (orderedEntries a), x ∈ strings)
    (hsb : ∀ x ∈ digested (orderedEntries b), x ∈ strings)
    (hroot : orderedRoot a = orderedRoot b) : a = b ∨ Collision strings := by
  by_cases hno : Collision strings
  · exact .inr hno
  left
  apply List.ext_getElem?
  intro i
  by_cases hi : i < 2 ^ 32
  · have hvalue :=
      (lastValue_eq_or_collision hsa hsb hroot (orderedKey i)).resolve_right hno
    rw [lastValue_orderedEntries ha hi, lastValue_orderedEntries hb hi] at hvalue
    exact Option.map_injective (fun _ _ h => orderedValue_inj.mp h) hvalue
  · rw [List.getElem?_eq_none (by omega), List.getElem?_eq_none (by omega)]

/-- The root of a list commits to the whole list: if the nodes below two roots do not collide with
each other or with the empty string, then only equal lists have one root. Which item is at which
index counts, an empty item counts, and so does the number of items. -/
theorem orderedRoot_inj {a b : List Bytes} (ha : a.length ≤ 2 ^ 32) (hb : b.length ≤ 2 ^ 32)
    (hno : ¬ Collision ((build (orderedEntries a)).encodings ++
      (build (orderedEntries b)).encodings ++ [[]])) :
    orderedRoot a = orderedRoot b ↔ a = b := by
  constructor
  · intro hroot
    exact (orderedRoot_eq_or_collision ha hb (fun _ hx => mem_of_digested (.inl hx))
      (fun _ hx => mem_of_digested (.inr hx)) hroot).resolve_right hno
  · exact fun h => h ▸ rfl

set_option maxRecDepth 100000 in
/-- One more item at the end changes the root, although it is empty. -/
theorem orderedRoot_of_empty_last_item : orderedRoot [[1], []] ≠ orderedRoot [[1]] :=
  (orderedRoot_inj (by simp) (by simp) (by decide +kernel)).not.mpr (by decide)

end Trie

end LightClient
