/-
Module: LightClient.Trie.Build
Purpose: The trie of a list of entries, its proofs and its content.
Main exports: Trie, Trie.build, Trie.prove, Trie.get
-/
import LightClient.Trie.Walk

namespace LightClient

/-- A trie: its root, and all its nodes filed under their digests. -/
structure Trie where
  root : Digest
  nodes : Trie.NodeIndex

namespace Trie

/-- Sets the value of a key in a list that is ordered by key and holds every key once. -/
def setEntry (key value : Bytes) : List (Bytes × Bytes) → List (Bytes × Bytes)
  | [] => [(key, value)]
  | (k, v) :: rest =>
    if key = k then (key, value) :: rest
    else if key < k then (key, value) :: (k, v) :: rest
    else (k, v) :: setEntry key value rest

/-- What a list of entries says: every key, in nibbles and in order, with its last value that is
not empty. -/
def content (entries : List (Bytes × Bytes)) : List (Bytes × Bytes) :=
  entries.foldl
    (fun sorted e => if e.2 = [] then sorted else setEntry (nibbles e.1) e.2 sorted) []

/-- The longest common start of two nibble strings. -/
def sharedPath : Bytes → Bytes → Bytes
  | a :: as, b :: bs => if a = b then a :: sharedPath as bs else []
  | _, _ => []

/-- The nibbles that all keys start with. -/
def commonPath : List (Bytes × Bytes) → Bytes
  | [] => []
  | e :: rest => rest.foldl (fun path e => sharedPath path e.1) e.1

/-- The entries without the first `n` nibbles of their keys. -/
def dropPath (n : Nat) (entries : List (Bytes × Bytes)) : List (Bytes × Bytes) :=
  entries.map fun e => (e.1.drop n, e.2)

/-- The entries whose keys go on with nibble `n`, without that nibble. -/
def under (n : Nat) (entries : List (Bytes × Bytes)) : List (Bytes × Bytes) :=
  entries.filterMap fun e =>
    match e.1 with
    | [] => none
    | m :: rest => if m.toNat = n then some (rest, e.2) else none

/-- The value of the key that ends here. -/
def valueHere (entries : List (Bytes × Bytes)) : Option Bytes :=
  entries.lookup []

/-- The number of nibbles in all keys. -/
def weight : List (Bytes × Bytes) → Nat
  | [] => 0
  | e :: rest => e.1.length + weight rest

theorem sharedPath_length_le (as bs : Bytes) :
    (sharedPath as bs).length ≤ as.length ∧ (sharedPath as bs).length ≤ bs.length := by
  induction as generalizing bs with
  | nil => simp [sharedPath]
  | cons a as ih =>
    cases bs with
    | nil => simp [sharedPath]
    | cons b bs =>
      unfold sharedPath
      split
      · have h := ih bs
        simp only [List.length_cons]
        omega
      · simp

theorem foldl_sharedPath_length_le (path : Bytes) (entries : List (Bytes × Bytes)) :
    (entries.foldl (fun path e => sharedPath path e.1) path).length ≤ path.length ∧
      ∀ e ∈ entries,
        (entries.foldl (fun path e => sharedPath path e.1) path).length ≤ e.1.length := by
  induction entries generalizing path with
  | nil => simp
  | cons a rest ih =>
    have hs := sharedPath_length_le path a.1
    have h := ih (sharedPath path a.1)
    simp only [List.foldl_cons, List.mem_cons]
    constructor
    · omega
    · intro e he
      cases he with
      | inl he =>
        subst he
        omega
      | inr he => exact h.2 e he

theorem commonPath_length_le {entries : List (Bytes × Bytes)} {e : Bytes × Bytes}
    (he : e ∈ entries) : (commonPath entries).length ≤ e.1.length := by
  cases entries with
  | nil => cases he
  | cons a rest =>
    have h := foldl_sharedPath_length_le a.1 rest
    unfold commonPath
    cases he with
    | head => exact h.1
    | tail _ he => exact h.2 e he

theorem weight_dropPath_le (n : Nat) (entries : List (Bytes × Bytes)) :
    weight (dropPath n entries) ≤ weight entries := by
  induction entries with
  | nil => exact Nat.le_refl _
  | cons e rest ih =>
    simp only [dropPath, List.map_cons, weight, List.length_drop] at ih ⊢
    omega

/-- Below an extension the keys are shorter. -/
theorem weight_dropPath_lt {n : Nat} {e : Bytes × Bytes} {rest : List (Bytes × Bytes)}
    (hn : 0 < n) (he : n ≤ e.1.length) :
    weight (dropPath n (e :: rest)) < weight (e :: rest) := by
  have h := weight_dropPath_le n rest
  simp only [dropPath, List.map_cons, weight, List.length_drop] at h ⊢
  omega

theorem weight_under_le (n : Nat) (entries : List (Bytes × Bytes)) :
    weight (under n entries) + (under n entries).length ≤ weight entries := by
  induction entries with
  | nil => exact Nat.le_refl _
  | cons e rest ih =>
    obtain ⟨key, value⟩ := e
    simp only [weight]
    unfold under at ih ⊢
    cases key with
    | nil =>
      simp only [List.filterMap_cons_none, List.length_nil]
      omega
    | cons m key =>
      by_cases hm : m.toNat = n
      · simp only [List.filterMap_cons, hm, if_true, weight, List.length_cons]
        omega
      · simp only [List.filterMap_cons, hm, if_false, List.length_cons]
        omega

/-- Below a branch the keys are shorter. -/
theorem weight_under_lt {n : Nat} {entries : List (Bytes × Bytes)} (h : under n entries ≠ []) :
    weight (under n entries) < weight entries := by
  have hle := weight_under_le n entries
  have hpos := List.length_pos_iff.mpr h
  omega

/-- The trie with a new root above the given nodes. -/
def plant (n : Node) (below : NodeIndex) : Trie :=
  let raw := n.encode
  let name := sha256 raw
  ⟨name, (name, raw) :: below⟩

/-- The trie of a list of distinct keys in nibbles: one key is a leaf; a start that all keys share
is an extension; otherwise the keys part in a branch. -/
def grow (entries : List (Bytes × Bytes)) : Trie :=
  match _hentries : entries with
  | [] => ⟨emptyRoot, []⟩
  | [(path, value)] => plant (.leaf path value) []
  | _ :: _ :: _ =>
    let path := commonPath entries
    if _hpath : path ≠ [] then
      let below := grow (dropPath path.length entries)
      plant (.extension path below.root) below.nodes
    else
      let below := (Vector.range 16).map fun n =>
        let sub := under n entries
        if _hsub : sub = [] then none else some (grow sub)
      plant (.branch (below.map fun t => t.map Trie.root) (valueHere entries))
        (below.toList.flatMap fun t => (t.map Trie.nodes).getD [])
termination_by weight entries
decreasing_by
  · subst _hentries
    exact weight_dropPath_lt (List.length_pos_iff.mpr _hpath)
      (commonPath_length_le List.mem_cons_self)
  · subst _hentries
    exact weight_under_lt _hsub

/-- The trie of a list of entries. An entry with an empty value is passed over, a later entry for a
key replaces an earlier one. -/
def build (entries : List (Bytes × Bytes)) : Trie :=
  grow (content entries)

/-- The nodes that prove the value or the absence of a key. -/
def prove (t : Trie) (key : Bytes) : List Bytes :=
  (walk t.nodes.find t.root key).visited

def get (t : Trie) (key : Bytes) : Option Bytes :=
  match (walk t.nodes.find t.root key).result with
  | .ok value => value
  | .error _ => none

end Trie

end LightClient
