/-
Module: LightClient.Proofs.Trie.Content
Purpose: What a list of entries says about a key, and that the content a trie is grown from says
  the same. This is all that the content says, and it says it in one order: entries that say the
  same have one content.
Main exports: Bytes.Addressable, Trie.lastValue, Trie.lookup_content, Trie.Sorted,
  Trie.mem_content, Trie.content_congr, Trie.sound_content, Trie.proper_content
-/
import Mathlib.Data.List.Induction
import LightClient.Proofs.Trie.Growth

namespace LightClient

/-- A byte string that memory can hold: its length is at most the largest signed word. -/
def Bytes.Addressable (b : Bytes) : Prop :=
  b.length < 2 ^ 63

namespace Trie

/-- The value of the last entry for a key whose value is not empty. -/
def lastValue (entries : List (Bytes × Bytes)) (key : Bytes) : Option Bytes :=
  ((entries.filter fun e => e.1 = key ∧ e.2 ≠ []).getLast?).map Prod.snd

/-! ### Nibbles -/

theorem nibbles_cons (b : UInt8) (key : Bytes) :
    nibbles (b :: key) = b / 16 :: b % 16 :: nibbles key := rfl

theorem toNat_high (b : UInt8) : (b / 16).toNat = b.toNat / 16 :=
  UInt8.toNat_div b 16

theorem toNat_low (b : UInt8) : (b % 16).toNat = b.toNat % 16 :=
  UInt8.toNat_mod b 16

theorem nibbles_lt (key : Bytes) : ∀ n ∈ nibbles key, n < 16 := by
  induction key with
  | nil => exact fun _ hn => nomatch hn
  | cons b key ih =>
    intro n hn
    rw [nibbles_cons] at hn
    rw [UInt8.lt_iff_toNat_lt]
    show n.toNat < 16
    have hb := b.toNat_lt
    cases hn with
    | head =>
      rw [toNat_high]
      omega
    | tail _ hn =>
      cases hn with
      | head =>
        rw [toNat_low]
        omega
      | tail _ hn => exact UInt8.lt_iff_toNat_lt.mp (ih n hn)

theorem length_nibbles (key : Bytes) : (nibbles key).length = 2 * key.length := by
  induction key with
  | nil => rfl
  | cons b key ih =>
    rw [nibbles_cons]
    simp only [List.length_cons, ih]
    omega

/-- Different keys have different nibbles. -/
theorem nibbles_inj {a b : Bytes} : nibbles a = nibbles b ↔ a = b := by
  constructor
  · intro h
    induction a generalizing b with
    | nil =>
      cases b with
      | nil => rfl
      | cons y b => cases h
    | cons x a ih =>
      cases b with
      | nil => cases h
      | cons y b =>
        rw [nibbles_cons, nibbles_cons, List.cons.injEq, List.cons.injEq] at h
        obtain ⟨hhigh, hlow, hrest⟩ := h
        have hhigh' := congrArg UInt8.toNat hhigh
        have hlow' := congrArg UInt8.toNat hlow
        rw [toNat_high, toNat_high] at hhigh'
        rw [toNat_low, toNat_low] at hlow'
        have hxy : x = y := UInt8.toNat_inj.mp (by omega)
        rw [hxy, ih hrest]
  · exact fun h => h ▸ rfl

/-! ### The content of entries -/

theorem lookup_cons_ite (k v other : Bytes) (rest : List (Bytes × Bytes)) :
    ((k, v) :: rest).lookup other = if other = k then some v else rest.lookup other := by
  rw [List.lookup_cons]
  by_cases hother : other = k
  · rw [if_pos hother, beq_iff_eq.mpr hother]
  · rw [if_neg hother, beq_eq_false_iff_ne.mpr hother]

theorem lookup_setEntry (key value other : Bytes) (sorted : List (Bytes × Bytes)) :
    (setEntry key value sorted).lookup other =
      if other = key then some value else sorted.lookup other := by
  induction sorted with
  | nil => simp [setEntry]
  | cons e sorted ih =>
    obtain ⟨k, v⟩ := e
    unfold setEntry
    split
    next hkey =>
      subst hkey
      by_cases hother : other = key <;> simp [lookup_cons_ite, hother]
    next hkey =>
      split
      · simp only [lookup_cons_ite]
      · simp only [lookup_cons_ite, ih]
        by_cases hother : other = k
        · have hne : other ≠ key := fun h => hkey (h.symm.trans hother)
          simp only [hother, if_true]
          rw [if_neg (hother ▸ hne)]
        · simp only [hother, if_false]

theorem mem_setEntry {key value : Bytes} {sorted : List (Bytes × Bytes)} {e : Bytes × Bytes}
    (h : e ∈ setEntry key value sorted) : e = (key, value) ∨ e ∈ sorted := by
  induction sorted with
  | nil => exact .inl (List.mem_singleton.mp h)
  | cons e' sorted ih =>
    obtain ⟨k, v⟩ := e'
    unfold setEntry at h
    split at h
    · exact (List.mem_cons.mp h).imp_right (List.mem_cons_of_mem _)
    · split at h
      · exact List.mem_cons.mp h
      · rcases List.mem_cons.mp h with h | h
        · exact .inr (h ▸ List.mem_cons_self)
        · exact (ih h).imp_right (List.mem_cons_of_mem _)

/-- The newest entry decides about its key, unless its value is empty. -/
theorem content_append (entries : List (Bytes × Bytes)) (e : Bytes × Bytes) :
    content (entries ++ [e]) =
      if e.2 = [] then content entries else setEntry (nibbles e.1) e.2 (content entries) := by
  simp [content]

theorem lastValue_append (entries : List (Bytes × Bytes)) (e : Bytes × Bytes) (key : Bytes) :
    lastValue (entries ++ [e]) key =
      if e.1 = key ∧ e.2 ≠ [] then some e.2 else lastValue entries key := by
  unfold lastValue
  by_cases h : e.1 = key ∧ e.2 ≠ []
  · simp [List.filter_append, h]
  · rw [if_neg h, List.filter_append, List.filter_cons_of_neg (by simpa using h), List.filter_nil,
      List.append_nil]

/-- The content of entries has, under the nibbles of a key, the last value for the key. -/
theorem lookup_content (entries : List (Bytes × Bytes)) (key : Bytes) :
    (content entries).lookup (nibbles key) = lastValue entries key := by
  induction entries using List.reverseRecOn with
  | nil => rfl
  | append_singleton entries e ih =>
    rw [content_append, lastValue_append]
    by_cases hempty : e.2 = []
    · simp [hempty, ih]
    · rw [if_neg hempty, lookup_setEntry, ih]
      by_cases hkey : e.1 = key
      · simp [hkey, hempty]
      · have hnibbles : nibbles key ≠ nibbles e.1 := fun h => hkey (nibbles_inj.mp h).symm
        simp [hkey, hnibbles]

/-- Every entry of the content is an entry that was given, with a value that is not empty. -/
theorem exists_of_mem_content {entries : List (Bytes × Bytes)} {e : Bytes × Bytes}
    (h : e ∈ content entries) :
    ∃ given ∈ entries, given.2 ≠ [] ∧ e = (nibbles given.1, given.2) := by
  induction entries using List.reverseRecOn with
  | nil => cases h
  | append_singleton entries last ih =>
    have hearlier : e ∈ content entries →
        ∃ given ∈ entries ++ [last], given.2 ≠ [] ∧ e = (nibbles given.1, given.2) := by
      intro he
      obtain ⟨given, hgiven, hrest⟩ := ih he
      exact ⟨given, List.mem_append_left _ hgiven, hrest⟩
    rw [content_append] at h
    split at h
    next => exact hearlier h
    next hempty =>
      rcases mem_setEntry h with h | h
      · exact ⟨last, List.mem_append_right _ List.mem_cons_self, hempty, h⟩
      · exact hearlier h

/-- The content of entries is one that a trie can hold. -/
theorem proper_content (entries : List (Bytes × Bytes)) : Proper (content entries) := by
  intro e he
  obtain ⟨given, _, hvalue, rfl⟩ := exists_of_mem_content he
  exact ⟨nibbles_lt given.1, hvalue⟩

/-- The content of entries that memory can hold is sound. -/
theorem sound_content {entries : List (Bytes × Bytes)}
    (h : ∀ e ∈ entries, e.1.Addressable ∧ e.2.Addressable) : Sound (content entries) := by
  intro e he
  obtain ⟨given, hgiven, hvalue, rfl⟩ := exists_of_mem_content he
  obtain ⟨hkey, hlength⟩ := h given hgiven
  unfold Bytes.Addressable at hkey hlength
  refine ⟨nibbles_lt given.1, ?_, hvalue, show given.2.length < 2 ^ 64 by omega⟩
  rw [length_nibbles]
  omega

/-! ### The order of the content -/

/-- Entries in the order of their keys, each key once. -/
def Sorted (entries : List (Bytes × Bytes)) : Prop :=
  entries.Pairwise fun a b => a.1 < b.1

theorem sorted_setEntry (key value : Bytes) {sorted : List (Bytes × Bytes)} (h : Sorted sorted) :
    Sorted (setEntry key value sorted) := by
  induction sorted with
  | nil => exact List.pairwise_singleton _ _
  | cons e sorted ih =>
    obtain ⟨k, v⟩ := e
    obtain ⟨hfirst, hrest⟩ := List.pairwise_cons.mp h
    unfold setEntry
    split
    next hkey =>
      subst hkey
      exact List.pairwise_cons.mpr ⟨hfirst, hrest⟩
    next hkey =>
      split
      next hlt =>
        refine List.pairwise_cons.mpr ⟨fun e he => ?_, h⟩
        cases he with
        | head => exact hlt
        | tail _ he => exact List.lt_trans hlt (hfirst e he)
      next hge =>
        have hlt : k < key := Std.lt_of_le_of_ne (List.not_lt.mp hge) (Ne.symm hkey)
        refine List.pairwise_cons.mpr ⟨fun e he => ?_, ih hrest⟩
        rcases mem_setEntry he with rfl | he
        · exact hlt
        · exact hfirst e he

theorem sorted_content (entries : List (Bytes × Bytes)) : Sorted (content entries) := by
  induction entries using List.reverseRecOn with
  | nil => exact List.Pairwise.nil
  | append_singleton entries e ih =>
    rw [content_append]
    split
    · exact ih
    · exact sorted_setEntry _ _ ih

namespace Sorted

variable {sorted sorted' : List (Bytes × Bytes)}

theorem nodup (h : Sorted sorted) : sorted.Nodup := by
  refine List.Pairwise.imp (fun {a b} hlt => ?_) h
  intro heq
  rw [heq] at hlt
  exact List.lt_irrefl _ hlt

/-- An entry is found under its key. -/
theorem lookup_eq_some (h : Sorted sorted) {key value : Bytes} :
    sorted.lookup key = some value ↔ (key, value) ∈ sorted := by
  constructor
  · exact mem_of_lookup
  · intro hmem
    obtain ⟨before, after, rfl⟩ := List.append_of_mem hmem
    have hbefore := (List.pairwise_append.mp h).2.2
    refine List.lookup_eq_some_iff.mpr ⟨before, after, rfl, fun e he => ?_⟩
    have hlt : e.1 < key := hbefore e he _ List.mem_cons_self
    rw [bne_iff_ne]
    exact fun heq => List.lt_irrefl _ (heq ▸ hlt)

/-- Sorted lists of the same entries are equal. -/
theorem ext (h : Sorted sorted) (h' : Sorted sorted') (hmem : ∀ e, e ∈ sorted ↔ e ∈ sorted') :
    sorted = sorted' :=
  List.Perm.eq_of_pairwise (fun _ _ _ _ hlt hgt => absurd hgt (List.lt_asymm hlt)) h h'
    ((List.perm_ext_iff_of_nodup h.nodup h'.nodup).mpr hmem)

end Sorted

/-- The content of entries consists of the last values of the keys. -/
theorem mem_content {entries : List (Bytes × Bytes)} {e : Bytes × Bytes} :
    e ∈ content entries ↔ ∃ key, e.1 = nibbles key ∧ lastValue entries key = some e.2 := by
  constructor
  · intro h
    obtain ⟨given, _, _, rfl⟩ := exists_of_mem_content h
    exact ⟨given.1, rfl, by rw [← lookup_content, (sorted_content entries).lookup_eq_some.mpr h]⟩
  · rintro ⟨key, hkey, hvalue⟩
    rw [← lookup_content, ← hkey] at hvalue
    exact (sorted_content entries).lookup_eq_some.mp hvalue

/-- Entries that say the same about every key have the same content. -/
theorem content_congr {entries entries' : List (Bytes × Bytes)}
    (h : ∀ key, lastValue entries key = lastValue entries' key) :
    content entries = content entries' := by
  refine (sorted_content entries).ext (sorted_content entries') fun e => ?_
  rw [mem_content, mem_content]
  simp only [h]

end Trie

end LightClient
