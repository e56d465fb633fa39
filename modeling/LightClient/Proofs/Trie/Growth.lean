/-
Module: LightClient.Proofs.Trie.Growth
Purpose: The node on top of a grown trie takes a rest of a key to the entry with that rest, or to
  the trie of shorter keys that this entry is in. Its three kinds follow the growth: a leaf, an
  extension over shorter keys, a branch of sixteen parts. So a walk finds the entry, if its lookup
  finds the nodes of the trie.
Main exports: Trie.Sound, Trie.Proper, Trie.limbs, Trie.Planted, Trie.mem_nodes_grow_iff,
  Trie.Leads, Trie.Tops, Trie.exists_tops, Trie.walkFrom_grow
-/
import LightClient.Proofs.Trie.Nodes
import LightClient.Proofs.Trie.Walks
import LightClient.Trie.Build

namespace LightClient

namespace Trie

/-! ### Entries, shortened -/

theorem sharedPath_prefix_left (as bs : Bytes) : sharedPath as bs <+: as := by
  induction as generalizing bs with
  | nil => exact List.nil_prefix
  | cons a as ih =>
    cases bs with
    | nil => exact List.nil_prefix
    | cons b bs =>
      unfold sharedPath
      split
      · exact (List.prefix_cons_inj a).mpr (ih bs)
      · exact List.nil_prefix

theorem sharedPath_prefix_right (as bs : Bytes) : sharedPath as bs <+: bs := by
  induction as generalizing bs with
  | nil => exact List.nil_prefix
  | cons a as ih =>
    cases bs with
    | nil => exact List.nil_prefix
    | cons b bs =>
      unfold sharedPath
      split
      next hab =>
        rw [hab]
        exact (List.prefix_cons_inj b).mpr (ih bs)
      next => exact List.nil_prefix

theorem foldl_sharedPath_prefix (path : Bytes) (entries : List (Bytes × Bytes)) :
    entries.foldl (fun path e => sharedPath path e.1) path <+: path ∧
      ∀ e ∈ entries, entries.foldl (fun path e => sharedPath path e.1) path <+: e.1 := by
  induction entries generalizing path with
  | nil => exact ⟨List.prefix_rfl, fun _ he => nomatch he⟩
  | cons a rest ih =>
    have h := ih (sharedPath path a.1)
    constructor
    · exact h.1.trans (sharedPath_prefix_left _ _)
    · intro e he
      cases he with
      | head => exact h.1.trans (sharedPath_prefix_right _ _)
      | tail _ he => exact h.2 e he

/-- Every key starts with the common path. -/
theorem commonPath_prefix {entries : List (Bytes × Bytes)} {e : Bytes × Bytes}
    (he : e ∈ entries) : commonPath entries <+: e.1 := by
  cases entries with
  | nil => cases he
  | cons a rest =>
    have h := foldl_sharedPath_prefix a.1 rest
    cases he with
    | head => exact h.1
    | tail _ he => exact h.2 e he

theorem mem_dropPath {n : Nat} {entries : List (Bytes × Bytes)} {e : Bytes × Bytes} :
    e ∈ dropPath n entries ↔ ∃ e' ∈ entries, e = (e'.1.drop n, e'.2) := by
  simp [dropPath, eq_comm]

theorem mem_under {n : Nat} {entries : List (Bytes × Bytes)} {e : Bytes × Bytes} :
    e ∈ under n entries ↔ ∃ m : UInt8, m.toNat = n ∧ (m :: e.1, e.2) ∈ entries := by
  constructor
  · intro he
    obtain ⟨⟨key, value⟩, hmem, hsome⟩ := List.mem_filterMap.mp he
    cases key with
    | nil => cases hsome
    | cons m key =>
      simp only at hsome
      split at hsome
      next hm =>
        cases hsome
        exact ⟨m, hm, hmem⟩
      next => cases hsome
  · rintro ⟨m, hm, hmem⟩
    exact List.mem_filterMap.mpr ⟨_, hmem, by simp [hm]⟩

/-- Below a path that all keys share, an entry is found under the rest of its key. -/
theorem lookup_dropPath {path : Bytes} {entries : List (Bytes × Bytes)}
    (hall : ∀ e ∈ entries, path <+: e.1) (rest : Bytes) :
    (dropPath path.length entries).lookup rest = entries.lookup (path ++ rest) := by
  induction entries with
  | nil => rfl
  | cons e entries ih =>
    obtain ⟨key, value⟩ := e
    obtain ⟨tail, rfl⟩ : path <+: key := hall _ List.mem_cons_self
    have hkeys : (rest == tail) = (path ++ rest == path ++ tail) := by
      rw [Bool.eq_iff_iff, beq_iff_eq, beq_iff_eq, List.append_cancel_left_eq]
    have hrest := ih fun e he => hall e (List.mem_cons_of_mem _ he)
    simp only [dropPath, List.map_cons, List.lookup_cons, List.drop_left, hkeys] at hrest ⊢
    rw [hrest]

/-- A key that lacks the path all entries share is not among them. -/
theorem lookup_eq_none_of_common {path rest : Bytes} {entries : List (Bytes × Bytes)}
    (hall : ∀ e ∈ entries, path <+: e.1) (hrest : ¬ path <+: rest) :
    entries.lookup rest = none := by
  rw [List.lookup_eq_none_iff]
  intro e he
  have hne : rest ≠ e.1 := fun h => hrest (by rw [h]; exact hall e he)
  simpa using hne

/-- Below a branch, an entry is found under the nibble that comes next. -/
theorem lookup_under (n : UInt8) (entries : List (Bytes × Bytes)) (rest : Bytes) :
    (under n.toNat entries).lookup rest = entries.lookup (n :: rest) := by
  induction entries with
  | nil => rfl
  | cons e entries ih =>
    obtain ⟨key, value⟩ := e
    unfold under at ih ⊢
    cases key with
    | nil =>
      have hkeys : (n :: rest == []) = false := rfl
      rw [List.filterMap_cons_none (by rfl), List.lookup_cons, hkeys, ih]
    | cons m key =>
      by_cases hm : m = n
      · subst hm
        have hkeys : (m :: rest == m :: key) = (rest == key) := by simp
        rw [List.filterMap_cons_some (b := (key, value)) (by simp), List.lookup_cons,
          List.lookup_cons, hkeys, ih]
      · have hnat : m.toNat ≠ n.toNat := fun h => hm (UInt8.toNat_inj.mp h)
        have hkeys : (n :: rest == m :: key) = false := by simp [Ne.symm hm]
        rw [List.filterMap_cons_none (by simp [hnat]), List.lookup_cons, hkeys, ih]

/-! ### One layer of growth -/

/-- The tries below a branch, one for each nibble that some key goes on with. -/
def limbs (entries : List (Bytes × Bytes)) : Vector (Option Trie) 16 :=
  (Vector.range 16).map fun n =>
    if under n entries = [] then none else some (grow (under n entries))

theorem grow_leaf (path value : Bytes) : grow [(path, value)] = plant (.leaf path value) [] := by
  rw [grow]

theorem grow_extension {entries : List (Bytes × Bytes)} (hmany : 2 ≤ entries.length)
    (hpath : commonPath entries ≠ []) :
    grow entries =
      plant (.extension (commonPath entries)
          (grow (dropPath (commonPath entries).length entries)).root)
        (grow (dropPath (commonPath entries).length entries)).nodes := by
  match entries, hmany with
  | a :: b :: entries, _ =>
    rw [grow]
    simp only [hpath, ne_eq, not_false_eq_true, dite_true]

theorem grow_branch {entries : List (Bytes × Bytes)} (hmany : 2 ≤ entries.length)
    (hpath : commonPath entries = []) :
    grow entries =
      plant (.branch ((limbs entries).map fun t => t.map Trie.root) (valueHere entries))
        ((limbs entries).toList.flatMap fun t => (t.map Trie.nodes).getD []) := by
  match entries, hmany with
  | a :: b :: entries, _ =>
    rw [grow]
    simp only [hpath, ne_eq, not_true_eq_false, dite_false]
    rfl

/-- The limb of a nibble. -/
theorem getElem?_limbs (entries : List (Bytes × Bytes)) (n : Nat) :
    (limbs entries)[n]? =
      if n < 16 then
        some (if under n entries = [] then none else some (grow (under n entries)))
      else none := by
  by_cases hn : n < 16
  · simp [limbs, hn]
  · simp [hn]

theorem mem_limbs {entries : List (Bytes × Bytes)} {t : Trie}
    (h : some t ∈ (limbs entries).toList) :
    ∃ n, n < 16 ∧ under n entries ≠ [] ∧ t = grow (under n entries) := by
  obtain ⟨n, hget⟩ := List.mem_iff_getElem?.mp h
  rw [Vector.getElem?_toList, getElem?_limbs] at hget
  split at hget
  next hn =>
    split at hget
    · cases hget
    next hsub =>
      cases hget
      exact ⟨n, hn, hsub, rfl⟩
  next => cases hget

/-! ### Entries that a trie can hold -/

/-- Entries that a trie can hold: keys in nibbles, and no empty value. -/
def Proper (entries : List (Bytes × Bytes)) : Prop :=
  ∀ e ∈ entries, (∀ n ∈ e.1, n < 16) ∧ e.2 ≠ []

/-- Entries whose nodes can be read back: a trie can hold them, and their lengths fit a word. -/
def Sound (entries : List (Bytes × Bytes)) : Prop :=
  ∀ e ∈ entries, (∀ n ∈ e.1, n < 16) ∧ e.1.length < 2 ^ 64 ∧ e.2 ≠ [] ∧ e.2.length < 2 ^ 64

namespace Proper

variable {entries : List (Bytes × Bytes)}

theorem dropPath (h : Proper entries) (n : Nat) : Proper (dropPath n entries) := by
  intro e he
  obtain ⟨e', he', rfl⟩ := mem_dropPath.mp he
  obtain ⟨hnibbles, hvalue⟩ := h e' he'
  exact ⟨fun m hm => hnibbles m (List.mem_of_mem_drop hm), hvalue⟩

theorem under (h : Proper entries) (n : Nat) : Proper (under n entries) := by
  intro e he
  obtain ⟨m, _, hmem⟩ := mem_under.mp he
  obtain ⟨hnibbles, hvalue⟩ := h _ hmem
  exact ⟨fun k hk => hnibbles k (List.mem_cons_of_mem _ hk), hvalue⟩

/-- The nibbles that all keys share are nibbles. -/
theorem commonPath (h : Proper entries) (hne : entries ≠ []) :
    ∀ n ∈ commonPath entries, n < 16 := by
  obtain ⟨e, he⟩ := List.exists_mem_of_ne_nil entries hne
  have hshared := commonPath_prefix he
  exact fun n hn => (h e he).1 n (hshared.subset hn)

/-- There is nothing under a number that is no nibble. -/
theorem under_eq_nil (h : Proper entries) {n : Nat} (hn : ¬ n < 16) : Trie.under n entries = [] := by
  rw [List.eq_nil_iff_forall_not_mem]
  intro e he
  obtain ⟨m, hm, hmem⟩ := mem_under.mp he
  have hnibble := (h _ hmem).1 m List.mem_cons_self
  rw [UInt8.lt_iff_toNat_lt] at hnibble
  exact hn (hm ▸ hnibble)

end Proper

namespace Sound

variable {entries : List (Bytes × Bytes)}

theorem proper (h : Sound entries) : Proper entries := by
  intro e he
  obtain ⟨hnibbles, _, hvalue, _⟩ := h e he
  exact ⟨hnibbles, hvalue⟩

theorem dropPath (h : Sound entries) (n : Nat) : Sound (dropPath n entries) := by
  intro e he
  obtain ⟨e', he', rfl⟩ := mem_dropPath.mp he
  obtain ⟨hnibbles, hlength, hvalue⟩ := h e' he'
  refine ⟨fun m hm => hnibbles m (List.mem_of_mem_drop hm), ?_, hvalue⟩
  rw [List.length_drop]
  omega

theorem under (h : Sound entries) (n : Nat) : Sound (under n entries) := by
  intro e he
  obtain ⟨m, _, hmem⟩ := mem_under.mp he
  obtain ⟨hnibbles, hlength, hvalue⟩ := h _ hmem
  rw [List.length_cons] at hlength
  exact ⟨fun k hk => hnibbles k (List.mem_cons_of_mem _ hk), by omega, hvalue⟩

theorem length_commonPath (h : Sound entries) (hne : entries ≠ []) :
    (commonPath entries).length < 2 ^ 64 := by
  obtain ⟨e, he⟩ := List.exists_mem_of_ne_nil entries hne
  obtain ⟨_, hlength, _⟩ := h e he
  have hshared := commonPath_prefix he
  exact hshared.length_le.trans_lt hlength

end Sound

/-! ### The nodes of a grown trie -/

@[simp] theorem root_plant (n : Node) (below : NodeIndex) :
    (plant n below).root = sha256 n.encode := rfl

@[simp] theorem nodes_plant (n : Node) (below : NodeIndex) :
    (plant n below).nodes = (sha256 n.encode, n.encode) :: below := rfl

/-- The nodes below a branch are the nodes of its limbs. -/
theorem nodes_limb_subset {entries : List (Bytes × Bytes)} (hmany : 2 ≤ entries.length)
    (hpath : commonPath entries = []) {n : Nat} (hn : n < 16) (hsub : under n entries ≠ []) :
    (grow (under n entries)).nodes ⊆ (grow entries).nodes := by
  intro entry he
  have hlimb : some (grow (under n entries)) ∈ (limbs entries).toList := by
    apply List.mem_of_getElem? (i := n)
    rw [Vector.getElem?_toList, getElem?_limbs, if_pos hn, if_neg hsub]
  rw [grow_branch hmany hpath, nodes_plant]
  exact List.mem_cons_of_mem _ (List.mem_flatMap.mpr ⟨_, hlimb, he⟩)

/-- A node that is planted where the trie of some entries grows: on top of it, or on top of a trie
below it. -/
inductive Planted : List (Bytes × Bytes) → Node → Prop where
  | leaf (path value : Bytes) : Planted [(path, value)] (.leaf path value)
  | extension {entries : List (Bytes × Bytes)} (many : 2 ≤ entries.length)
      (shared : commonPath entries ≠ []) :
      Planted entries (.extension (commonPath entries)
        (grow (dropPath (commonPath entries).length entries)).root)
  | belowExtension {entries : List (Bytes × Bytes)} {n : Node} (many : 2 ≤ entries.length)
      (shared : commonPath entries ≠ [])
      (below : Planted (dropPath (commonPath entries).length entries) n) : Planted entries n
  | branch {entries : List (Bytes × Bytes)} (many : 2 ≤ entries.length)
      (parting : commonPath entries = []) :
      Planted entries (.branch ((limbs entries).map fun t => t.map Trie.root) (valueHere entries))
  | belowBranch {entries : List (Bytes × Bytes)} {n : Node} {nibble : Nat}
      (many : 2 ≤ entries.length) (parting : commonPath entries = []) (isNibble : nibble < 16)
      (below : Planted (under nibble entries) n) : Planted entries n

theorem not_planted_nil {n : Node} : ¬ Planted [] n := by
  intro h
  cases h with
  | extension many => simp at many
  | belowExtension many => simp at many
  | branch many => simp at many
  | belowBranch many => simp at many

/-- The nodes of a grown trie are the planted ones, filed under their digests. -/
theorem mem_nodes_grow_iff {entries : List (Bytes × Bytes)} {entry : Digest × Bytes} :
    entry ∈ (grow entries).nodes ↔
      ∃ n, Planted entries n ∧ entry = (sha256 n.encode, n.encode) := by
  constructor
  -- downwards along the recursion of the builder, upwards along the rules for planted nodes
  · induction entries using grow.induct with
    | case1 =>
      rw [grow]
      intro h
      cases h
    | case2 path value =>
      rw [grow_leaf, nodes_plant, List.mem_singleton]
      exact fun h => ⟨_, .leaf path value, h⟩
    | case3 a b tail path hpath ih =>
      have hmany : 2 ≤ (a :: b :: tail).length := by simp
      rw [grow_extension hmany hpath, nodes_plant]
      intro h
      rcases List.mem_cons.mp h with h | h
      · exact ⟨_, .extension hmany hpath, h⟩
      · obtain ⟨n, hn, heq⟩ := ih h
        exact ⟨n, .belowExtension hmany hpath hn, heq⟩
    | case4 a b tail path hpath ih =>
      have hmany : 2 ≤ (a :: b :: tail).length := by simp
      rw [grow_branch hmany (not_not.mp hpath), nodes_plant]
      intro h
      rcases List.mem_cons.mp h with h | h
      · exact ⟨_, .branch hmany (not_not.mp hpath), h⟩
      · obtain ⟨limb, hlimb, hentry⟩ := List.mem_flatMap.mp h
        cases limb with
        | none => cases hentry
        | some t =>
          obtain ⟨nibble, hnibble, hsub, rfl⟩ := mem_limbs hlimb
          obtain ⟨n, hn, heq⟩ := ih nibble hsub hentry
          exact ⟨n, .belowBranch hmany (not_not.mp hpath) hnibble hn, heq⟩
  · rintro ⟨n, hn, rfl⟩
    induction hn with
    | leaf path value =>
      rw [grow_leaf, nodes_plant]
      exact List.mem_cons_self
    | extension many shared =>
      rw [grow_extension many shared, nodes_plant]
      exact List.mem_cons_self
    | belowExtension many shared _ ih =>
      rw [grow_extension many shared, nodes_plant]
      exact List.mem_cons_of_mem _ ih
    | branch many parting =>
      rw [grow_branch many parting, nodes_plant]
      exact List.mem_cons_self
    | belowBranch many parting isNibble below ih =>
      have hsub : under _ _ ≠ [] := fun hnil => not_planted_nil (hnil ▸ below)
      exact nodes_limb_subset many parting isNibble hsub ih

/-- The nodes of a grown trie are filed under their digests. -/
theorem name_of_mem_grow {entries : List (Bytes × Bytes)} {entry : Digest × Bytes}
    (h : entry ∈ (grow entries).nodes) : entry.1 = sha256 entry.2 := by
  obtain ⟨n, _, rfl⟩ := mem_nodes_grow_iff.mp h
  rfl

/-! ### The node on top of a grown trie -/

/-- Where a turn at the top of the trie of entries leads: it stops at what is entered under the
rest of the key, or goes on to the trie of some of the entries, where this is entered under what is
then left of the key. -/
inductive Leads (entries : List (Bytes × Bytes)) (rest : Bytes) : Turn → Prop where
  | stop {value : Option Bytes} (lookup : entries.lookup rest = value) :
      Leads entries rest (.stop value)
  | go {below : List (Bytes × Bytes)} {child : Digest} {rest' : Bytes}
      (root : (grow below).root = child) (nonempty : below ≠ []) (proper : Proper below)
      (sound : Sound entries → Sound below) (nodes : (grow below).nodes ⊆ (grow entries).nodes)
      (shorter : rest'.length < rest.length)
      (lookup : below.lookup rest' = entries.lookup rest) : Leads entries rest (.go child rest')

/-- The node on top of the trie of entries: its digest is the root, and each of its turns leads to
what is entered under the rest of the key. -/
structure Tops (n : Node) (entries : List (Bytes × Bytes)) : Prop where
  root : (grow entries).root = sha256 n.encode
  mem : (sha256 n.encode, n.encode) ∈ (grow entries).nodes
  wellFormed : n.WellFormed
  fits : Sound entries → n.Fits
  leads : ∀ rest, Leads entries rest (n.turn rest)

theorem tops_leaf {path value : Bytes} (hproper : Proper [(path, value)]) :
    Tops (.leaf path value) [(path, value)] := by
  refine ⟨by rw [grow_leaf]; rfl, by rw [grow_leaf]; exact List.mem_cons_self,
    hproper _ List.mem_cons_self, fun hsound => ?_, fun rest => ?_⟩
  · obtain ⟨_, hpath, _, hvalue⟩ := hsound _ List.mem_cons_self
    exact ⟨hpath, hvalue⟩
  · exact .stop (by simp)

theorem tops_extension {entries : List (Bytes × Bytes)} (hproper : Proper entries)
    (hmany : 2 ≤ entries.length) (hpath : commonPath entries ≠ []) :
    Tops (.extension (commonPath entries)
      (grow (dropPath (commonPath entries).length entries)).root) entries := by
  have hne : entries ≠ [] := List.ne_nil_of_length_pos (by omega)
  have hall : ∀ e ∈ entries, commonPath entries <+: e.1 := fun e he => commonPath_prefix he
  have hgrow := grow_extension hmany hpath
  refine ⟨by rw [hgrow]; rfl, by rw [hgrow]; exact List.mem_cons_self,
    ⟨hproper.commonPath hne, hpath⟩, fun hsound => hsound.length_commonPath hne, fun rest => ?_⟩
  by_cases hrest : commonPath entries <+: rest
  · obtain ⟨tail, rfl⟩ := hrest
    have hturn : (commonPath entries).isPrefixOf (commonPath entries ++ tail) = true :=
      List.isPrefixOf_iff_prefix.mpr (List.prefix_append _ _)
    have hpos : 0 < (commonPath entries).length := List.length_pos_iff.mpr hpath
    simp only [Node.turn, hturn, if_true, List.drop_left]
    refine .go rfl (by simpa [dropPath] using hne) (hproper.dropPath _)
      (fun hsound => hsound.dropPath _) ?_ ?_ (lookup_dropPath hall tail)
    · rw [hgrow]
      exact fun entry he => List.mem_cons_of_mem _ he
    · rw [List.length_append]
      omega
  · have hturn : (commonPath entries).isPrefixOf rest = false := by
      rw [Bool.eq_false_iff]
      exact fun h => hrest (List.isPrefixOf_iff_prefix.mp h)
    simp only [Node.turn, hturn, Bool.false_eq_true, if_false]
    exact .stop (lookup_eq_none_of_common hall hrest)

theorem tops_branch {entries : List (Bytes × Bytes)} (hproper : Proper entries)
    (hmany : 2 ≤ entries.length) (hpath : commonPath entries = []) :
    Tops (.branch ((limbs entries).map fun t => t.map Trie.root) (valueHere entries)) entries := by
  have hgrow := grow_branch hmany hpath
  have hvalue : ∀ v, valueHere entries = some v → ([], v) ∈ entries := fun v hv => mem_of_lookup hv
  refine ⟨by rw [hgrow]; rfl, by rw [hgrow]; exact List.mem_cons_self,
    fun h => (hproper _ (hvalue _ h)).2 rfl, fun hsound v h => (hsound _ (hvalue v h)).2.2.2,
    fun rest => ?_⟩
  cases rest with
  | nil => exact .stop rfl
  | cons n rest =>
    have hlookup := lookup_under n entries rest
    simp only [Node.turn, Vector.getElem?_map, getElem?_limbs]
    by_cases hsub : under n.toNat entries = []
    · rw [hsub, List.lookup_nil] at hlookup
      have hnone : Leads entries (n :: rest) (.stop none) := .stop hlookup.symm
      by_cases hn : n.toNat < 16
      · simpa [hn, hsub] using hnone
      · simpa [hn] using hnone
    · have hn : n.toNat < 16 := by
        by_contra hlarge
        exact hsub (hproper.under_eq_nil hlarge)
      simp only [hn, hsub, if_true, if_false, Option.map_some, Option.join_some]
      exact .go rfl hsub (hproper.under _) (fun hsound => hsound.under _)
        (nodes_limb_subset hmany hpath hn hsub) (by simp) hlookup

/-- A trie with entries has a node on top. -/
theorem exists_tops {entries : List (Bytes × Bytes)} (hne : entries ≠ [])
    (hproper : Proper entries) : ∃ n, Tops n entries := by
  match entries, hne with
  | [(path, value)], _ => exact ⟨_, tops_leaf hproper⟩
  | a :: b :: entries, _ =>
    by_cases hpath : commonPath (a :: b :: entries) = []
    · exact ⟨_, tops_branch hproper (by simp) hpath⟩
    · exact ⟨_, tops_extension hproper (by simp) hpath⟩

/-! ### The walk through a grown trie -/

/-- A walk that starts at the top of a trie takes the turn of the node on top. -/
theorem walkFrom_of_tops {lookup : Digest → Option Bytes} {entries : List (Bytes × Bytes)}
    {n : Node} (htops : Tops n entries) (hsound : Sound entries)
    (hlookup : ∀ entry ∈ (grow entries).nodes, lookup entry.1 = some entry.2) (rest : Bytes) :
    (walkFrom lookup (grow entries).root rest).result =
      match n.turn rest with
      | .stop value => .ok value
      | .go child rest' => (walkFrom lookup child rest').result := by
  have hfound : lookup (sha256 n.encode) = some n.encode := hlookup _ htops.mem
  rw [walkFrom_eq, htops.root, hfound]
  simp only [Node.decode_encode _ htops.wellFormed (htops.fits hsound)]
  cases n.turn rest <;> rfl

/-- The walk finds what is entered under the rest of the key, and nothing if nothing is. -/
theorem walkFrom_grow {lookup : Digest → Option Bytes} {entries : List (Bytes × Bytes)}
    (hne : entries ≠ []) (hsound : Sound entries)
    (hlookup : ∀ entry ∈ (grow entries).nodes, lookup entry.1 = some entry.2) (rest : Bytes) :
    (walkFrom lookup (grow entries).root rest).result = .ok (entries.lookup rest) := by
  induction hlength : rest.length using Nat.strongRecOn generalizing entries rest with
  | ind length ih =>
    subst hlength
    obtain ⟨n, htops⟩ := exists_tops hne hsound.proper
    have hleads := htops.leads rest
    rw [walkFrom_of_tops htops hsound hlookup]
    generalize n.turn rest = turn at hleads
    cases hleads with
    | stop hfound => exact congrArg _ hfound.symm
    | go hchild hbelow _ hkeep hnodes hshorter hfound =>
      subst hchild
      have hrest := ih _ hshorter hbelow (hkeep hsound)
        (fun entry he => hlookup entry (hnodes he)) _ rfl
      exact hrest.trans (congrArg _ hfound)

end Trie

end LightClient
