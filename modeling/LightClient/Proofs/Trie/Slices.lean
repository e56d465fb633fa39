/-
Module: LightClient.Proofs.Trie.Slices
Purpose: The trie that is raised from slices of the sorted content is the grown one, and no access
  to the list, to its keys or to the children of a branch ever fails. In a sorted list, what the
  first and the last key share is shared by all keys, and the keys with one next nibble stand
  together.
Main exports: Trie.lower, Trie.Sorted.commonPath_eq, Trie.Sorted.exists_others, Trie.layer_lower,
  Trie.run_lower, Trie.Comes, Trie.sprout_lower, Trie.raise_lower, Trie.assemble_comes
-/
import LightClient.Proofs.Trie.Content
import LightClient.Trie.Slices

namespace LightClient

namespace Trie

/-! ### Entries further down -/

/-- The entries with more nibbles in front of their keys. -/
def lower (front : Bytes) (entries : List (Bytes × Bytes)) : List (Bytes × Bytes) :=
  entries.map fun e => (front ++ e.1, e.2)

@[simp] theorem lower_nil (front : Bytes) : lower front [] = [] := rfl

@[simp] theorem lower_cons (front key value : Bytes) (rest : List (Bytes × Bytes)) :
    lower front ((key, value) :: rest) = (front ++ key, value) :: lower front rest := rfl

@[simp] theorem lower_append (front : Bytes) (xs ys : List (Bytes × Bytes)) :
    lower front (xs ++ ys) = lower front xs ++ lower front ys := List.map_append

@[simp] theorem length_lower (front : Bytes) (entries : List (Bytes × Bytes)) :
    (lower front entries).length = entries.length := List.length_map _

theorem lower_lower (front next : Bytes) (entries : List (Bytes × Bytes)) :
    lower front (lower next entries) = lower (front ++ next) entries := by
  simp [lower]

@[simp] theorem lower_empty (entries : List (Bytes × Bytes)) : lower [] entries = entries := by
  simp [lower]

/-- A path that all keys share can be taken from them and put back. -/
theorem lower_dropPath {path : Bytes} {entries : List (Bytes × Bytes)}
    (hall : ∀ e ∈ entries, path <+: e.1) : lower path (dropPath path.length entries) = entries := by
  induction entries with
  | nil => rfl
  | cons e entries ih =>
    obtain ⟨key, value⟩ := e
    obtain ⟨tail, rfl⟩ : path <+: key := hall _ List.mem_cons_self
    have hrest := ih fun e he => hall e (List.mem_cons_of_mem _ he)
    simp only [dropPath, List.map_cons, List.drop_left, lower_cons] at hrest ⊢
    rw [hrest]

/-- What goes on with a nibble in front is found under it, and nothing else is. -/
theorem under_lower (m : Nat) (n : UInt8) (entries : List (Bytes × Bytes)) :
    under m (lower [n] entries) = if n.toNat = m then entries else [] := by
  induction entries with
  | nil => simp [under]
  | cons e entries ih =>
    obtain ⟨key, value⟩ := e
    unfold under at ih ⊢
    simp only [lower_cons, List.singleton_append, List.filterMap_cons]
    split at ih
    next hm => simp [hm, ih]
    next hm => simp [hm, ih]

theorem under_append (n : Nat) (xs ys : List (Bytes × Bytes)) :
    under n (xs ++ ys) = under n xs ++ under n ys := List.filterMap_append

/-- A key that ends is under no nibble. -/
theorem under_filter (n : Nat) (entries : List (Bytes × Bytes)) :
    under n (entries.filter fun e => e.1 ≠ []) = under n entries := by
  rw [under, List.filterMap_filter, under]
  congr 1
  funext ⟨key, value⟩
  cases key <;> rfl

/-! ### Paths that sorted keys share -/

theorem prefix_sharedPath {path a b : Bytes} (ha : path <+: a) (hb : path <+: b) :
    path <+: sharedPath a b := by
  induction path generalizing a b with
  | nil => exact List.nil_prefix
  | cons n path ih =>
    obtain ⟨a, rfl⟩ := ha
    obtain ⟨b, rfl⟩ := hb
    rw [List.cons_append, List.cons_append, sharedPath, if_pos rfl]
    exact (List.prefix_cons_inj n).mpr (ih (List.prefix_append _ _) (List.prefix_append _ _))

theorem prefix_foldl_sharedPath {path start : Bytes} {entries : List (Bytes × Bytes)}
    (hstart : path <+: start) (hall : ∀ e ∈ entries, path <+: e.1) :
    path <+: entries.foldl (fun path e => sharedPath path e.1) start := by
  induction entries generalizing start with
  | nil => exact hstart
  | cons e entries ih =>
    obtain ⟨hfirst, hrest⟩ := List.forall_mem_cons.mp hall
    exact ih (prefix_sharedPath hstart hfirst) hrest

/-- What two keys share is shared by every key between them. -/
theorem sharedPath_prefix_of_le {a b c : Bytes} (hab : a ≤ b) (hbc : b ≤ c) :
    sharedPath a c <+: b := by
  -- nibble by nibble: where the outer keys agree, the one between them cannot differ
  induction a generalizing b c with
  | nil => exact List.nil_prefix
  | cons x a ih =>
    cases c with
    | nil => exact List.nil_prefix
    | cons z c =>
      unfold sharedPath
      split
      next hxz =>
        subst hxz
        cases b with
        | nil => exact absurd (List.nil_lt_cons x a) hab
        | cons y b =>
          rcases List.cons_le_cons_iff.mp hab with hxy | ⟨rfl, hle⟩
          · rcases List.cons_le_cons_iff.mp hbc with hyx | ⟨rfl, _⟩
            · exact absurd hyx (UInt8.lt_asymm hxy)
            · exact absurd hxy (UInt8.lt_irrefl _)
          · rcases List.cons_le_cons_iff.mp hbc with hyx | ⟨_, hle'⟩
            · exact absurd hyx (UInt8.lt_irrefl _)
            · exact (List.prefix_cons_inj x).mpr (ih hle hle')
      next => exact List.nil_prefix

theorem lt_of_append_lt_append (front : Bytes) {a b : Bytes} (h : front ++ a < front ++ b) :
    a < b := by
  induction front with
  | nil => exact h
  | cons n front ih =>
    rw [List.cons_append, List.cons_append, List.cons_lt_cons_iff] at h
    rcases h with hlt | ⟨_, hlt⟩
    · exact absurd hlt (UInt8.lt_irrefl n)
    · exact ih hlt

namespace Sorted

variable {first : Bytes × Bytes} {rest : List (Bytes × Bytes)}

/-- The first key of a sorted list is not above any other, and the last one not below. -/
theorem le_last (h : Sorted (first :: rest)) {e : Bytes × Bytes} (he : e ∈ first :: rest) :
    first.1 ≤ e.1 ∧ e.1 ≤ ((first :: rest).getLast (List.cons_ne_nil _ _)).1 := by
  constructor
  · rcases List.mem_cons.mp he with rfl | he
    · exact List.le_refl _
    · exact List.le_of_lt (List.rel_of_pairwise_cons h he)
  · obtain ⟨before, last, heq⟩ : ∃ before last, first :: rest = before ++ [last] :=
      ⟨_, _, (List.dropLast_concat_getLast (List.cons_ne_nil _ _)).symm⟩
    simp only [heq, List.getLast_concat] at h he ⊢
    rcases List.mem_append.mp he with he | he
    · exact List.le_of_lt ((List.pairwise_append.mp h).2.2 e he last (List.mem_singleton_self _))
    · rw [List.mem_singleton.mp he]
      exact List.le_refl _

/-- Entries stay sorted without the nibbles that all keys start with. -/
protected theorem dropPath {path : Bytes} {entries : List (Bytes × Bytes)} (h : Sorted entries)
    (hall : ∀ e ∈ entries, path <+: e.1) : Sorted (dropPath path.length entries) := by
  rw [← lower_dropPath hall] at h
  refine (List.pairwise_map.mp h).imp fun {a b} hlt => ?_
  exact lt_of_append_lt_append path hlt

protected theorem under {entries : List (Bytes × Bytes)} (h : Sorted entries) (n : UInt8) :
    Sorted (under n.toNat entries) := by
  refine List.Pairwise.filterMap _ ?_ h
  rintro ⟨a, v⟩ ⟨b, w⟩ hlt x hx y hy
  cases a with
  | nil => cases hx
  | cons k a =>
    cases b with
    | nil => cases hy
    | cons l b =>
      simp only at hx hy hlt
      split at hx
      next hk =>
        split at hy
        next hl =>
          cases hx
          cases hy
          rw [UInt8.toNat_inj.mp (hk.trans hl.symm), List.cons_lt_cons_iff] at hlt
          rcases hlt with hlt | ⟨_, hlt⟩
          · exact absurd hlt (UInt8.lt_irrefl _)
          · exact hlt
        next => cases hy
      next => cases hx

/-- All keys of a sorted list share what its first and its last key share. -/
theorem commonPath_eq (h : Sorted (first :: rest)) :
    commonPath (first :: rest) =
      sharedPath first.1 ((first :: rest).getLast (List.cons_ne_nil _ _)).1 := by
  have hlast := List.getLast_mem (List.cons_ne_nil first rest)
  have hall : ∀ e ∈ first :: rest, sharedPath first.1
      ((first :: rest).getLast (List.cons_ne_nil _ _)).1 <+: e.1 := fun e he =>
    sharedPath_prefix_of_le (h.le_last he).1 (h.le_last he).2
  obtain ⟨hfirst, hrest⟩ := List.forall_mem_cons.mp hall
  have hstart : ∀ e ∈ first :: rest, commonPath (first :: rest) <+: e.1 :=
    fun _ he => commonPath_prefix he
  have hle : commonPath (first :: rest) <+: sharedPath first.1
      ((first :: rest).getLast (List.cons_ne_nil _ _)).1 :=
    prefix_sharedPath (hstart _ List.mem_cons_self) (hstart _ hlast)
  exact hle.eq_of_length_le (prefix_foldl_sharedPath hfirst hrest).length_le

/-- Only the first key of a sorted list can have come to its end. -/
theorem ne_nil_of_mem_rest (h : Sorted (first :: rest)) {e : Bytes × Bytes} (he : e ∈ rest) :
    e.1 ≠ [] := by
  intro hnil
  have hlt : first.1 < e.1 := List.rel_of_pairwise_cons h he
  rw [hnil] at hlt
  exact List.not_lt_nil _ hlt

/-- The keys of a sorted list that do not end are all of them, or all but the first one. -/
theorem filter_ne_nil (h : Sorted (first :: rest)) :
    ((first :: rest).filter fun e => e.1 ≠ []) =
      if first.1 = [] then rest else first :: rest := by
  have hrest : (rest.filter fun e => e.1 ≠ []) = rest :=
    List.filter_eq_self.mpr fun e he => decide_eq_true (h.ne_nil_of_mem_rest he)
  rw [List.filter_cons, hrest]
  by_cases hfirst : first.1 = [] <;> simp [hfirst]

/-- The key that ends here is the first one of a sorted list. -/
theorem valueHere_eq (h : Sorted (first :: rest)) :
    valueHere (first :: rest) = if first.1 = [] then some first.2 else none := by
  obtain ⟨key, value⟩ := first
  have hrest : rest.lookup [] = none := by
    rw [List.lookup_eq_none_iff]
    intro e he
    simpa using (h.ne_nil_of_mem_rest he).symm
  rw [valueHere, lookup_cons_ite, hrest]
  simp only [eq_comm]

/-- In a sorted list the keys that go on with the nibble of the first one stand in front, and the
others go on with higher ones. -/
theorem exists_others {n : UInt8} {entries : List (Bytes × Bytes)} (h : Sorted entries)
    (hkeys : ∀ e ∈ entries, ∃ m key, e.1 = m :: key ∧ n ≤ m) :
    ∃ others, entries = lower [n] (under n.toNat entries) ++ others ∧
      ∀ e ∈ others, ∃ m key, e.1 = m :: key ∧ n < m := by
  induction entries with
  | nil => exact ⟨[], rfl, fun _ he => nomatch he⟩
  | cons e entries ih =>
    obtain ⟨key, value⟩ := e
    obtain ⟨⟨m, key, rfl, hm⟩, hrest⟩ := List.forall_mem_cons.mp hkeys
    obtain ⟨hfirst, hsorted⟩ := List.pairwise_cons.mp h
    by_cases hn : m = n
    · subst hn
      obtain ⟨others, heq, hothers⟩ := ih hsorted hrest
      refine ⟨others, ?_, hothers⟩
      have hunder : under m.toNat ((m :: key, value) :: entries) =
          (key, value) :: under m.toNat entries := by simp [under]
      rw [hunder, lower_cons, List.cons_append, ← heq]
      rfl
    · -- no later key goes on with the nibble either
      have hlt : n < m := Std.lt_of_le_of_ne hm (Ne.symm hn)
      have hhigher : ∀ e ∈ (m :: key, value) :: entries, ∃ m key, e.1 = m :: key ∧ n < m := by
        intro e he
        rcases List.mem_cons.mp he with rfl | he
        · exact ⟨m, key, rfl, hlt⟩
        · obtain ⟨m', key', heq, _⟩ := hrest e he
          refine ⟨m', key', heq, ?_⟩
          have hbehind : m :: key < e.1 := hfirst e he
          rw [heq, List.cons_lt_cons_iff] at hbehind
          rcases hbehind with hlt' | ⟨rfl, _⟩
          · exact UInt8.lt_trans hlt hlt'
          · exact hlt
      have hunder : under n.toNat ((m :: key, value) :: entries) = [] := by
        rw [List.eq_nil_iff_forall_not_mem]
        intro e he
        obtain ⟨m', hm', hmem⟩ := mem_under.mp he
        obtain ⟨_, _, heq, hlt'⟩ := hhigher _ hmem
        cases heq
        exact UInt8.lt_irrefl _ (UInt8.toNat_inj.mp hm' ▸ hlt')
      exact ⟨_, by rw [hunder]; rfl, hhigher⟩

/-- Sorted keys that all go on are those with the nibble of the first one, and higher others. -/
theorem exists_first_run (h : Sorted (first :: rest))
    (hkeys : ∀ e ∈ first :: rest, e.1 ≠ []) :
    ∃ (n : UInt8) (others : List (Bytes × Bytes)), under n.toNat (first :: rest) ≠ [] ∧
      first :: rest = lower [n] (under n.toNat (first :: rest)) ++ others ∧
        ∀ e ∈ others, ∃ m key, e.1 = m :: key ∧ n < m := by
  obtain ⟨key, value⟩ := first
  obtain ⟨n, key, rfl⟩ := List.exists_cons_of_ne_nil (hkeys _ List.mem_cons_self)
  have hleast : ∀ e ∈ (n :: key, value) :: rest, ∃ m key, e.1 = m :: key ∧ n ≤ m := by
    intro e he
    rcases List.mem_cons.mp he with rfl | hlater
    · exact ⟨n, key, rfl, UInt8.le_refl n⟩
    · obtain ⟨m, key', hkey⟩ := List.exists_cons_of_ne_nil (hkeys e he)
      have hlt : n :: key < e.1 := List.rel_of_pairwise_cons h hlater
      rw [hkey, List.cons_lt_cons_iff] at hlt
      refine ⟨m, key', hkey, ?_⟩
      rcases hlt with hlt | ⟨rfl, _⟩
      · exact UInt8.le_of_lt hlt
      · exact UInt8.le_refl n
  obtain ⟨others, hsplit, hothers⟩ := h.exists_others hleast
  refine ⟨n, others, ?_, hsplit, hothers⟩
  exact List.ne_nil_of_mem (a := (key, value)) (mem_under.mpr ⟨n, rfl, List.mem_cons_self⟩)

end Sorted

/-- Behind a run there is nothing under its nibble, and the same as before under the others. -/
theorem under_others {n : UInt8} {rest others : List (Bytes × Bytes)}
    (hsplit : rest = lower [n] (under n.toNat rest) ++ others) (k : Nat) :
    under k others = if n.toNat = k then [] else under k rest := by
  have hunder : under k rest =
      (if n.toNat = k then under n.toNat rest else []) ++ under k others := by
    conv_lhs => rw [hsplit, under_append, under_lower]
  split
  next hk =>
    subst hk
    rw [if_pos rfl] at hunder
    exact List.self_eq_append_right.mp hunder
  next hk =>
    rw [if_neg hk] at hunder
    exact hunder.symm

/-! ### One layer -/

/-- The nibbles that two keys share from a depth on are counted. -/
theorem shared_append (front a b : Bytes) {depth common : Nat}
    (h : front.length = depth + common) :
    shared (front ++ a) (front ++ b) depth common =
      .ok (common + (sharedPath a b).length) := by
  induction a generalizing front b common with
  | nil => simp [shared, sharedPath, h]
  | cons x a ih =>
    cases b with
    | nil => simp [shared, sharedPath, h]
    | cons y b =>
      have hwithin : depth + common < (front ++ x :: a).length ∧
          depth + common < (front ++ y :: b).length := by simp [h]
      have hx : Checked.item (front ++ x :: a) (depth + common) = .ok x :=
        Checked.item_eq_ok.mpr (by simp [← h])
      have hy : Checked.item (front ++ y :: b) (depth + common) = .ok y :=
        Checked.item_eq_ok.mpr (by simp [← h])
      rw [shared, dif_pos hwithin, hx, hy]
      unfold sharedPath
      by_cases hxy : x = y
      · subst hxy
        have hnext : shared (front ++ [x] ++ a) (front ++ [x] ++ b) depth (common + 1) =
            .ok (common + 1 + (sharedPath a b).length) := by
          apply ih
          simp [h]
          omega
        simp only [List.append_assoc, List.singleton_append] at hnext
        simp only [Bind.bind, Except.bind, if_true, hnext, List.length_cons]
        congr 1
        omega
      · simp [Bind.bind, Except.bind, hxy]

theorem layer_leaf (front path value : Bytes) :
    layer (lower front [(path, value)]) front.length = .ok (.leaf path value) := by
  simp [lower, layer, Checked.rest, Bind.bind, Except.bind]

/-- The nibbles between two depths of a key are those of the path between them. -/
theorem slice_append {path key : Bytes} (front : Bytes) (h : path <+: key) :
    Checked.slice (front ++ key) front.length (front.length + path.length) = .ok path := by
  obtain ⟨tail, rfl⟩ := h
  refine Checked.slice_eq_ok.mpr ⟨⟨Nat.le_add_right _ _, ?_⟩, ?_⟩
  · simp only [List.length_append]
    omega
  · rw [← List.append_assoc, List.take_left' (by simp), List.drop_left]

/-- A slice of several sorted keys has an extension where they share a path, and a branch where they
part. -/
theorem layer_lower (front : Bytes) {entries : List (Bytes × Bytes)} (h : Sorted entries)
    (hmany : 2 ≤ entries.length) :
    layer (lower front entries) front.length =
      .ok (if commonPath entries = [] then
        .branch (valueHere entries) (lower front (entries.filter fun e => e.1 ≠ []))
      else .extension (commonPath entries)) := by
  obtain ⟨⟨key, value⟩, rest, rfl⟩ := List.exists_cons_of_length_pos (Nat.lt_of_succ_lt hmany)
  have hlast : Checked.item (lower front ((key, value) :: rest))
      ((lower front ((key, value) :: rest)).length - 1) =
        .ok (front ++ (((key, value) :: rest).getLast (List.cons_ne_nil _ _)).1,
          (((key, value) :: rest).getLast (List.cons_ne_nil _ _)).2) := by
    refine Checked.item_eq_ok.mpr ?_
    rw [← List.getLast?_eq_getElem?, lower, List.getLast?_map,
      List.getLast?_eq_some_getLast (List.cons_ne_nil _ _)]
    rfl
  have hfirst : Checked.item (lower front ((key, value) :: rest)) 0 =
      .ok (front ++ key, value) := rfl
  have hshared := shared_append front key
    (((key, value) :: rest).getLast (List.cons_ne_nil _ _)).1 (Nat.add_zero _).symm
  have hprefix : commonPath ((key, value) :: rest) <+: key := commonPath_prefix List.mem_cons_self
  have hslice := slice_append front hprefix
  unfold layer
  split
  next heq =>
    rw [← length_lower front, heq] at hmany
    exact absurd hmany (Nat.not_succ_le_self 1)
  next =>
    rw [hfirst, hlast, h.valueHere_eq, h.filter_ne_nil]
    simp only [Bind.bind, Except.bind, hshared, Nat.zero_add, ← h.commonPath_eq, hslice]
    by_cases hpath : commonPath ((key, value) :: rest) = []
    · rw [if_neg (by simp [hpath]), if_pos hpath]
      by_cases hkey : key = []
      · simp [hkey, Checked.rest]
      · simp [hkey]
    · rw [if_pos (List.length_pos_iff.mpr hpath), if_neg hpath]

/-! ### One run -/

theorem item_append (front key : Bytes) (n : UInt8) :
    Checked.item (front ++ n :: key) front.length = .ok n :=
  Checked.item_eq_ok.mpr (by simp)

theorem runLength_lower (front : Bytes) {n : UInt8} (same : List (Bytes × Bytes))
    {others : List (Bytes × Bytes)} (hothers : ∀ e ∈ others, ∃ m key, e.1 = m :: key ∧ n < m) :
    runLength n front.length (lower front (lower [n] same ++ others)) = .ok same.length := by
  induction same with
  | nil =>
    cases others with
    | nil => rfl
    | cons e others =>
      obtain ⟨⟨m, key, hkey, hlt⟩, _⟩ := List.forall_mem_cons.mp hothers
      have hne : m ≠ n := fun heq => UInt8.lt_irrefl _ (heq ▸ hlt)
      obtain ⟨_, value⟩ := e
      cases hkey
      simp [runLength, item_append, Bind.bind, Except.bind, hne]
  | cons e same ih =>
    obtain ⟨key, value⟩ := e
    simp only [lower_cons, List.cons_append, List.nil_append, runLength, item_append, ih,
      Bind.bind, Except.bind, if_true, List.length_cons]
    rfl

/-- The first run of a slice are the entries that go on with the nibble of the first one. -/
theorem run_lower (front : Bytes) {n : UInt8} {same others : List (Bytes × Bytes)}
    (hsame : same ≠ []) (hothers : ∀ e ∈ others, ∃ m key, e.1 = m :: key ∧ n < m) :
    run (lower front (lower [n] same ++ others)) front.length =
      .ok (some (n, lower (front ++ [n]) same, lower front others)) := by
  obtain ⟨⟨key, value⟩, same, rfl⟩ := List.exists_cons_of_ne_nil hsame
  have hlength := runLength_lower front ((key, value) :: same) hothers
  have hslice : Checked.slice (lower front (lower [n] ((key, value) :: same) ++ others)) 0
      ((key, value) :: same).length = .ok (lower (front ++ [n]) ((key, value) :: same)) := by
    refine Checked.slice_eq_ok.mpr ⟨⟨Nat.zero_le _, by simp⟩, ?_⟩
    rw [lower_append, lower_lower, List.take_left' (by simp), List.drop_zero]
  have hrest : Checked.rest (lower front (lower [n] ((key, value) :: same) ++ others))
      ((key, value) :: same).length = .ok (lower front others) := by
    refine Checked.rest_eq_ok.mpr ⟨by simp, ?_⟩
    rw [lower_append, lower_lower, List.drop_left' (by simp)]
  simp only [lower_cons, List.cons_append, List.nil_append] at hlength hslice hrest ⊢
  simp only [run, item_append, hlength, hslice, hrest, Bind.bind, Except.bind]

/-! ### All layers -/

/-- The computation comes to a trie with the given root, whose nodes are those of the given trie
besides the ones that were filed before. -/
def Comes (x : Except Overrun Trie) (t : Trie) (filed : NodeIndex) : Prop :=
  ∃ t', x = .ok t' ∧ t'.root = t.root ∧ ∀ entry, entry ∈ t'.nodes ↔ entry ∈ t.nodes ∨ entry ∈ filed

variable {entries : List (Bytes × Bytes)} {depth : Nat} {filed : NodeIndex}

theorem raise_of_leaf {path value : Bytes} (h : layer entries depth = .ok (.leaf path value)) :
    Comes (raise entries depth filed) (plant (.leaf path value) []) filed := by
  refine ⟨plant (.leaf path value) filed, ?_, rfl, fun entry => by simp⟩
  rw [raise]
  split <;> simp_all

theorem raise_of_extension {path : Bytes} {t : Trie}
    (h : layer entries depth = .ok (.extension path))
    (hbelow : Comes (raise entries (depth + path.length) filed) t filed) :
    Comes (raise entries depth filed) (plant (.extension path t.root) t.nodes) filed := by
  obtain ⟨t', hraise, hroot, hnodes⟩ := hbelow
  refine ⟨plant (.extension path t'.root) t'.nodes, ?_, ?_, fun entry => ?_⟩
  · rw [raise]
    split <;> simp_all [Bind.bind, Except.bind]
  · rw [root_plant, root_plant, hroot]
  · rw [nodes_plant, nodes_plant, List.mem_cons, List.mem_cons, hnodes, hroot, or_assoc]

theorem raise_of_branch {value : Option Bytes} {rest : List (Bytes × Bytes)}
    {children : Vector (Option Digest) 16} {index : NodeIndex}
    (h : layer entries depth = .ok (.branch value rest))
    (hsprout : sprout rest depth (Vector.replicate 16 none) filed = .ok (children, index)) :
    raise entries depth filed = .ok (plant (.branch children value) index) := by
  rw [raise]
  split <;> simp_all [Bind.bind, Except.bind]

theorem sprout_nil {children : Vector (Option Digest) 16} :
    sprout [] depth children filed = .ok (children, filed) := by
  rw [sprout]
  split <;> simp_all [run]

theorem sprout_cons {rest same others : List (Bytes × Bytes)} {n : UInt8} {below : Trie}
    {children : Vector (Option Digest) 16} (hn : n.toNat < 16)
    (hrun : run rest depth = .ok (some (n, same, others)))
    (hraise : raise same (depth + 1) filed = .ok below) :
    sprout rest depth children filed =
      sprout others depth (children.set n.toNat (some below.root)) below.nodes := by
  conv_lhs => rw [sprout]
  split <;> simp_all [Bind.bind, Except.bind, setChild]

theorem grow_nil : grow [] = ⟨emptyRoot, []⟩ := by
  rw [grow]

theorem mem_nodes_limbs {entry : Digest × Bytes} :
    entry ∈ ((limbs entries).toList.flatMap fun t => (t.map Trie.nodes).getD []) ↔
      ∃ n, n < 16 ∧ entry ∈ (grow (under n entries)).nodes := by
  constructor
  · intro h
    obtain ⟨limb, hlimb, hentry⟩ := List.mem_flatMap.mp h
    cases limb with
    | none => cases hentry
    | some t =>
      obtain ⟨n, hn, _, rfl⟩ := mem_limbs hlimb
      exact ⟨n, hn, hentry⟩
  · rintro ⟨n, hn, hentry⟩
    have hsub : under n entries ≠ [] := by
      intro hnil
      rw [hnil, grow_nil] at hentry
      cases hentry
    have hlimb : some (grow (under n entries)) ∈ (limbs entries).toList := by
      apply List.mem_of_getElem? (i := n)
      rw [Vector.getElem?_toList, getElem?_limbs, if_pos hn, if_neg hsub]
    exact List.mem_flatMap.mpr ⟨_, hlimb, hentry⟩

/-- The runs of sorted entries raise the tries under the nibbles, each once. -/
theorem sprout_lower (front : Bytes) (rest : List (Bytes × Bytes)) (h : Sorted rest)
    (hkeys : ∀ e ∈ rest, e.1 ≠ []) (hproper : Proper rest)
    (hraise : ∀ (n : UInt8) (filed : NodeIndex), under n.toNat rest ≠ [] →
      Comes (raise (lower (front ++ [n]) (under n.toNat rest)) (front.length + 1) filed)
        (grow (under n.toNat rest)) filed)
    (children : Vector (Option Digest) 16) (filed : NodeIndex) :
    ∃ children' index, sprout (lower front rest) front.length children filed =
        .ok (children', index) ∧
      (∀ n (hn : n < 16), children'[n] =
        if under n rest = [] then children[n] else some (grow (under n rest)).root) ∧
      ∀ entry, entry ∈ index ↔
        (∃ n, n < 16 ∧ entry ∈ (grow (under n rest)).nodes) ∨ entry ∈ filed := by
  -- on the length: each round takes the first run off the slice
  induction hlength : rest.length using Nat.strongRecOn generalizing rest children filed with
  | ind length ih =>
    subst hlength
    cases hrest : rest with
    | nil =>
      refine ⟨children, filed, sprout_nil, fun n hn => by simp [under], fun entry => ?_⟩
      simp [under, grow_nil]
    | cons first tail =>
      rw [← hrest]
      obtain ⟨n, others, hsame, hsplit, hothers⟩ :
          ∃ (n : UInt8) (others : List (Bytes × Bytes)), under n.toNat rest ≠ [] ∧
            rest = lower [n] (under n.toNat rest) ++ others ∧
              ∀ e ∈ others, ∃ m key, e.1 = m :: key ∧ n < m := by
        rw [hrest] at h hkeys ⊢
        exact h.exists_first_run hkeys
      have hn : n.toNat < 16 := by
        by_contra hlarge
        exact hsame (hproper.under_eq_nil hlarge)
      have hunder := under_others hsplit
      have hsub : ∀ e ∈ others, e ∈ rest := fun e he =>
        hsplit ▸ List.mem_append_right _ he
      have hshorter : others.length < rest.length := by
        have hpositive := List.length_pos_iff.mpr hsame
        have hsum := congrArg List.length hsplit
        rw [List.length_append, length_lower] at hsum
        omega
      have hsorted : Sorted others := (List.pairwise_append.mp (hsplit ▸ h)).2.1
      -- what is known of the tries under the nibbles holds for the other runs too
      have hlater : ∀ (m : UInt8) (filed : NodeIndex), under m.toNat others ≠ [] →
          Comes (raise (lower (front ++ [m]) (under m.toNat others)) (front.length + 1) filed)
            (grow (under m.toNat others)) filed := by
        intro m filed hne
        have hm : ¬ n.toNat = m.toNat := fun heq => hne ((hunder _).trans (if_pos heq))
        rw [hunder, if_neg hm] at hne ⊢
        exact hraise m filed hne
      obtain ⟨below, hbelow, hroot, hnodes⟩ := hraise n filed hsame
      obtain ⟨children', index, hsprout, hchildren, hindex⟩ := ih _ hshorter others hsorted
        (fun e he => hkeys e (hsub e he)) (fun e he => hproper e (hsub e he)) hlater
        (children.set n.toNat (some below.root)) below.nodes rfl
      have hrun := run_lower front hsame hothers
      rw [← hsplit] at hrun
      refine ⟨children', index, (sprout_cons hn hrun hbelow).trans hsprout, fun k hk => ?_,
        fun entry => ?_⟩
      · rw [hchildren, hunder]
        by_cases hnk : n.toNat = k
        · subst hnk
          rw [if_pos rfl, if_pos rfl, if_neg hsame, hroot, Vector.getElem_set_self]
        · rw [if_neg hnk, Vector.getElem_set_ne _ _ hnk]
      · rw [hindex, hnodes, ← or_assoc]
        apply or_congr_left
        constructor
        · rintro (⟨k, hk, hentry⟩ | hentry)
          · rw [hunder] at hentry
            split at hentry
            · rw [grow_nil] at hentry
              cases hentry
            · exact ⟨k, hk, hentry⟩
          · exact ⟨n.toNat, hn, hentry⟩
        · rintro ⟨k, hk, hentry⟩
          by_cases hnk : n.toNat = k
          · exact .inr (hnk ▸ hentry)
          · exact .inl ⟨k, hk, by rwa [hunder, if_neg hnk]⟩

/-- A slice of sorted entries raises the trie that grows from what is left of their keys. -/
theorem raise_lower {entries : List (Bytes × Bytes)} (hne : entries ≠ []) (h : Sorted entries)
    (hproper : Proper entries) (front : Bytes) (filed : NodeIndex) :
    Comes (raise (lower front entries) front.length filed) (grow entries) filed := by
  induction entries using grow.induct generalizing front filed with
  | case1 => exact absurd rfl hne
  | case2 path value =>
    rw [grow_leaf]
    exact raise_of_leaf (layer_leaf front path value)
  | case3 a b tail path hpath ih =>
    have hmany : 2 ≤ (a :: b :: tail).length := by simp
    have hall : ∀ e ∈ a :: b :: tail, commonPath (a :: b :: tail) <+: e.1 := fun _ =>
      commonPath_prefix
    have hlayer := layer_lower front h hmany
    rw [if_neg hpath] at hlayer
    have hbelow := ih (by simp [Trie.dropPath]) (h.dropPath hall) (hproper.dropPath _)
      (front ++ commonPath (a :: b :: tail)) filed
    rw [← lower_lower, lower_dropPath hall, List.length_append] at hbelow
    rw [grow_extension hmany hpath]
    exact raise_of_extension hlayer hbelow
  -- a key that ends here is the value of the branch, and only the others make runs
  | case4 a b tail path hpath ih =>
    have hmany : 2 ≤ (a :: b :: tail).length := by simp
    have hparting : commonPath (a :: b :: tail) = [] := not_not.mp hpath
    have hlayer := layer_lower front h hmany
    rw [if_pos hparting] at hlayer
    obtain ⟨children, index, hsprout, hchildren, hindex⟩ := sprout_lower front
      ((a :: b :: tail).filter fun e => e.1 ≠ []) (List.Pairwise.filter _ h)
      (fun e he => of_decide_eq_true (List.mem_filter.mp he).2)
      (fun e he => hproper e (List.mem_filter.mp he).1)
      (fun n filed hsub => by
        rw [under_filter] at hsub ⊢
        have hbelow := ih n.toNat hsub hsub (h.under n) (hproper.under _) (front ++ [n]) filed
        rwa [List.length_append, List.length_singleton] at hbelow)
      (Vector.replicate 16 none) filed
    have hsame : children = (limbs (a :: b :: tail)).map fun t => t.map Trie.root := by
      apply Vector.ext
      intro n hn
      rw [hchildren, under_filter, Vector.getElem_replicate, limbs, Vector.getElem_map,
        Vector.getElem_map, Vector.getElem_range]
      split <;> rfl
    rw [grow_branch hmany hparting, ← hsame]
    refine ⟨_, raise_of_branch hlayer hsprout, rfl, fun entry => ?_⟩
    simp only [nodes_plant, List.mem_cons, hindex, under_filter, mem_nodes_limbs, or_assoc]

/-- The slices of the content raise the trie that grows from it: the computation does not stop, and
comes to the same root and to the same nodes. -/
theorem assemble_comes (entries : List (Bytes × Bytes)) :
    Comes (assemble entries) (build entries) [] := by
  unfold assemble build
  split
  next hcontent =>
    rw [hcontent, grow_nil]
    exact ⟨_, rfl, rfl, by simp⟩
  next hcontent =>
    have hraise := raise_lower hcontent (sorted_content entries) (proper_content entries) [] []
    rwa [lower_empty] at hraise

end Trie

end LightClient
