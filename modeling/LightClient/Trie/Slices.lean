/-
Module: LightClient.Trie.Slices
Purpose: The trie of a sorted list of entries, raised from slices of the list, where every access to
  the list, to its keys and to the children of a branch is checked.
Main exports: Trie.shared, Trie.Layer, Trie.layer, Trie.run, Trie.raise, Trie.assemble
-/
import LightClient.Checked
import LightClient.Trie.Build

namespace LightClient

namespace Trie

/-! ### One layer -/

/-- The loop that counts the nibbles which two keys share from a depth on, when it has counted some
of them. -/
def shared (first last : Bytes) (depth common : Nat) : Except Overrun Nat :=
  if _hwithin : depth + common < first.length ∧ depth + common < last.length then do
    let a ← Checked.item first (depth + common)
    let b ← Checked.item last (depth + common)
    if a = b then shared first last depth (common + 1) else .ok common
  else .ok common
termination_by first.length - (depth + common)

/-- What there is of a slice at a depth. -/
inductive Layer where
  /-- One entry: what is left of its key, and its value. -/
  | leaf (path value : Bytes)
  /-- Keys that go on with the same nibbles. -/
  | extension (path : Bytes)
  /-- Keys that part: the value of the one that ends here, and the entries of the others. -/
  | branch (value : Option Bytes) (rest : List (Bytes × Bytes))

/-- Looks at a slice of a sorted list whose keys share so many nibbles. What the first and the last
key share is shared by all keys between them, and only the first key can end here. -/
def layer (entries : List (Bytes × Bytes)) (depth : Nat) : Except Overrun Layer :=
  match entries with
  | [(key, value)] => do
    let path ← Checked.rest key depth
    .ok (.leaf path value)
  | entries => do
    let first ← Checked.item entries 0
    let last ← Checked.item entries (entries.length - 1)
    let common ← shared first.1 last.1 depth 0
    if 0 < common then
      let path ← Checked.slice first.1 depth (depth + common)
      .ok (.extension path)
    else if first.1.length = depth then
      let rest ← Checked.rest entries 1
      .ok (.branch (some first.2) rest)
    else .ok (.branch none entries)

/-- How many keys at the start of a slice have the nibble at a depth. -/
def runLength (nibble : UInt8) (depth : Nat) : List (Bytes × Bytes) → Except Overrun Nat
  | [] => .ok 0
  | e :: rest => do
    let next ← Checked.item e.1 depth
    if next = nibble then (runLength nibble depth rest).map (· + 1) else .ok 0

/-- The entries at the start of a slice whose keys have the same nibble at a depth: the nibble,
these entries, and the others. -/
def run (rest : List (Bytes × Bytes)) (depth : Nat) :
    Except Overrun (Option (UInt8 × List (Bytes × Bytes) × List (Bytes × Bytes))) :=
  match rest with
  | [] => .ok none
  | e :: _ => do
    let nibble ← Checked.item e.1 depth
    let past ← runLength nibble depth rest
    let same ← Checked.slice rest 0 past
    let others ← Checked.rest rest past
    .ok (some (nibble, same, others))

def setChild (children : Vector (Option Digest) 16) (nibble : UInt8) (child : Digest) :
    Except Overrun (Vector (Option Digest) 16) :=
  if _hnibble : nibble.toNat < 16 then .ok (children.set nibble.toNat (some child))
  else .error (.item nibble.toNat 16)

/-! ### Every layer takes nibbles from the keys, and every run takes entries -/

theorem weight_append (xs ys : List (Bytes × Bytes)) :
    weight (xs ++ ys) = weight xs + weight ys := by
  induction xs with
  | nil => exact (Nat.zero_add _).symm
  | cons e xs ih => simp only [List.cons_append, weight, ih, Nat.add_assoc]

theorem dropPath_dropPath (m n : Nat) (entries : List (Bytes × Bytes)) :
    dropPath n (dropPath m entries) = dropPath (m + n) entries := by
  simp [dropPath, List.drop_drop]

theorem weight_dropPath_add_lt {m n : Nat} {e : Bytes × Bytes} {rest : List (Bytes × Bytes)}
    (hn : 0 < n) (he : m + n ≤ e.1.length) :
    weight (dropPath (m + n) (e :: rest)) < weight (dropPath m (e :: rest)) := by
  rw [← dropPath_dropPath]
  refine weight_dropPath_lt hn ?_
  rw [List.length_drop]
  omega

/-- Splitting a slice splits its weight. -/
theorem weight_dropPath_part (n k : Nat) (entries : List (Bytes × Bytes)) :
    weight (dropPath n (entries.take k)) + weight (dropPath n (entries.drop k)) =
      weight (dropPath n entries) := by
  rw [← weight_append]
  simp only [dropPath, ← List.map_append, List.take_append_drop]

/-- Below an extension there is less left of the keys. -/
theorem weight_of_extension {entries : List (Bytes × Bytes)} {depth : Nat} {path : Bytes}
    (h : layer entries depth = .ok (.extension path)) :
    weight (dropPath (depth + path.length) entries) < weight (dropPath depth entries) := by
  unfold layer at h
  split at h
  next =>
    obtain ⟨path, _, h⟩ := bind_eq_ok.mp h
    cases h
  next =>
    obtain ⟨first, hfirst, h⟩ := bind_eq_ok.mp h
    obtain ⟨last, _, h⟩ := bind_eq_ok.mp h
    obtain ⟨common, _, h⟩ := bind_eq_ok.mp h
    split at h
    next hcommon =>
      obtain ⟨path, hpath, h⟩ := bind_eq_ok.mp h
      cases h
      obtain ⟨⟨_, hwithin⟩, rfl⟩ := Checked.slice_eq_ok.mp hpath
      have hlength : ((first.1.take (depth + common)).drop depth).length = common := by
        rw [List.length_drop, List.length_take]
        omega
      rw [hlength]
      cases entries with
      | nil => cases hfirst
      | cons e rest =>
        cases Option.some.inj (Checked.item_eq_ok.mp hfirst)
        exact weight_dropPath_add_lt hcommon hwithin
    next =>
      split at h
      next =>
        obtain ⟨rest, _, h⟩ := bind_eq_ok.mp h
        cases h
      next => cases h

/-- What is left beside the value of a branch is no more than the slice. -/
theorem weight_of_branch {entries rest : List (Bytes × Bytes)} {depth : Nat}
    {value : Option Bytes} (h : layer entries depth = .ok (.branch value rest)) :
    weight (dropPath depth rest) ≤ weight (dropPath depth entries) ∧
      rest.length ≤ entries.length := by
  unfold layer at h
  split at h
  next =>
    obtain ⟨path, _, h⟩ := bind_eq_ok.mp h
    cases h
  next =>
    obtain ⟨first, _, h⟩ := bind_eq_ok.mp h
    obtain ⟨last, _, h⟩ := bind_eq_ok.mp h
    obtain ⟨common, _, h⟩ := bind_eq_ok.mp h
    split at h
    next =>
      obtain ⟨path, _, h⟩ := bind_eq_ok.mp h
      cases h
    next =>
      split at h
      next =>
        obtain ⟨rest, hrest, h⟩ := bind_eq_ok.mp h
        cases h
        obtain ⟨_, rfl⟩ := Checked.rest_eq_ok.mp hrest
        have hpart := weight_dropPath_part depth 1 entries
        rw [List.length_drop]
        omega
      next =>
        cases h
        exact ⟨Nat.le_refl _, Nat.le_refl _⟩

/-- Below a run there is less left of the keys, and the other entries are no more than before. -/
theorem weight_of_run {rest same others : List (Bytes × Bytes)} {depth : Nat} {nibble : UInt8}
    (h : run rest depth = .ok (some (nibble, same, others))) :
    weight (dropPath (depth + 1) same) < weight (dropPath depth rest) ∧
      weight (dropPath depth others) ≤ weight (dropPath depth rest) ∧
      same.length ≤ rest.length ∧ others.length < rest.length := by
  unfold run at h
  split at h
  next => cases h
  next e rest =>
    obtain ⟨next, hnext, h⟩ := bind_eq_ok.mp h
    obtain ⟨past, hpast, h⟩ := bind_eq_ok.mp h
    obtain ⟨slice, hslice, h⟩ := bind_eq_ok.mp h
    obtain ⟨tail, htail, h⟩ := bind_eq_ok.mp h
    cases h
    obtain ⟨⟨_, hwithin⟩, rfl⟩ := Checked.slice_eq_ok.mp hslice
    obtain ⟨_, rfl⟩ := Checked.rest_eq_ok.mp htail
    -- the run starts with the entry whose nibble it is, which is beyond the depth
    have hpositive : 0 < past := by
      unfold runLength at hpast
      obtain ⟨next', hnext', hpast⟩ := bind_eq_ok.mp hpast
      rw [hnext] at hnext'
      cases hnext'
      rw [if_pos rfl] at hpast
      cases hlength : runLength nibble depth rest with
      | error overrun =>
        rw [hlength] at hpast
        cases hpast
      | ok length =>
        rw [hlength] at hpast
        cases hpast
        exact Nat.succ_pos _
    obtain ⟨hdepth, _⟩ := List.getElem?_eq_some_iff.mp (Checked.item_eq_ok.mp hnext)
    have hpart := weight_dropPath_part depth past (e :: rest)
    obtain ⟨k, rfl⟩ := Nat.exists_eq_succ_of_ne_zero (Nat.ne_of_gt hpositive)
    have hlt : weight (dropPath (depth + 1) (e :: rest.take k)) <
        weight (dropPath depth (e :: rest.take k)) := weight_dropPath_add_lt Nat.one_pos hdepth
    simp only [List.drop_zero, List.take_succ_cons, List.length_take, List.length_drop,
      List.length_cons, List.drop_succ_cons, Nat.succ_eq_add_one] at *
    omega

/-! ### All layers -/

mutual

/-- The trie of a slice of a sorted list whose keys share so many nibbles, above the nodes that are
filed already. -/
def raise (entries : List (Bytes × Bytes)) (depth : Nat) (filed : NodeIndex) :
    Except Overrun Trie :=
  match _hlayer : layer entries depth with
  | .error overrun => .error overrun
  | .ok (.leaf path value) => .ok (plant (.leaf path value) filed)
  | .ok (.extension path) => do
    let below ← raise entries (depth + path.length) filed
    .ok (plant (.extension path below.root) below.nodes)
  | .ok (.branch value rest) => do
    let (children, filed) ← sprout rest depth (Vector.replicate 16 none) filed
    .ok (plant (.branch children value) filed)
termination_by 2 * weight (dropPath depth entries) + entries.length + 1
decreasing_by
  · have h := weight_of_extension _hlayer
    omega
  · have h := weight_of_branch _hlayer
    omega

/-- The children of a branch, and the nodes below it: every run of entries raises a child. -/
def sprout (rest : List (Bytes × Bytes)) (depth : Nat) (children : Vector (Option Digest) 16)
    (filed : NodeIndex) : Except Overrun (Vector (Option Digest) 16 × NodeIndex) :=
  match _hrun : run rest depth with
  | .error overrun => .error overrun
  | .ok none => .ok (children, filed)
  | .ok (some (nibble, same, others)) => do
    let below ← raise same (depth + 1) filed
    let children ← setChild children nibble below.root
    sprout others depth children below.nodes
termination_by 2 * weight (dropPath depth rest) + rest.length
decreasing_by
  · have h := weight_of_run _hrun
    omega
  · have h := weight_of_run _hrun
    omega

end

/-- The trie of a list of entries, which are sorted first. -/
def assemble (entries : List (Bytes × Bytes)) : Except Overrun Trie :=
  match content entries with
  | [] => .ok ⟨emptyRoot, []⟩
  | sorted => raise sorted 0 []

end Trie

end LightClient
