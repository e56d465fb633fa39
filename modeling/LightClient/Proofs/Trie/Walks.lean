/-
Module: LightClient.Proofs.Trie.Walks
Purpose: What a walk says depends on the nodes it meets only: walks over different sets of nodes
  agree, a walk over fewer nodes goes as far as its nodes carry it, and a walk over more nodes goes
  the same way.
Main exports: Trie.Node.turn, Trie.walkFrom_eq, Trie.FiledIn, Trie.walk_agree,
  Trie.walkFrom_restrict, Trie.walk_extend, Trie.walk_missing
-/
import LightClient.Proofs.Digest
import LightClient.Trie.Walk

namespace LightClient

namespace Trie

/-! ### One step of a walk -/

/-- What a node makes of the rest of a key. -/
inductive Turn where
  /-- The walk ends with a value or an absence. -/
  | stop (value : Option Bytes)
  /-- The walk goes on at a child with what is then left of the key. -/
  | go (child : Digest) (rest : Bytes)

/-- The turn that a walk takes at a node. -/
def Node.turn : Node → Bytes → Turn
  | .leaf path value, rest => .stop (if rest = path then some value else none)
  | .extension path child, rest =>
    if path.isPrefixOf rest then .go child (rest.drop path.length) else .stop none
  | .branch _ value, [] => .stop value
  | .branch children _, n :: rest =>
    match (children[n.toNat]?).join with
    | none => .stop none
    | some child => .go child rest

/-- A walk that goes on has less of the key left. -/
theorem Node.turn_lt {name child : Digest} {raw rest rest' : Bytes} {n : Node}
    (hnode : Node.decode name raw = .ok n) (hturn : n.turn rest = .go child rest') :
    rest'.length < rest.length := by
  cases n with
  | leaf path value => cases hturn
  | extension path child' =>
    have hne : path ≠ [] := Node.path_ne_nil_of_decode hnode
    simp only [Node.turn] at hturn
    split at hturn
    next hprefix =>
      cases hturn
      have hle : path.length ≤ rest.length := (List.isPrefixOf_iff_prefix.mp hprefix).length_le
      have hpos : 0 < path.length := List.length_pos_iff.mpr hne
      rw [List.length_drop]
      omega
    next => cases hturn
  | branch children value =>
    cases rest with
    | nil => cases hturn
    | cons m rest =>
      simp only [Node.turn] at hturn
      split at hturn
      · cases hturn
      · cases hturn
        simp

/-- One step of a walk, in terms of the turn it takes. -/
theorem walkFrom_eq (lookup : Digest → Option Bytes) (expected : Digest) (rest : Bytes) :
    walkFrom lookup expected rest =
      match lookup expected with
      | none => ⟨[], .error (.missingNode expected)⟩
      | some raw =>
        match Node.decode expected raw with
        | .error e => ⟨[raw], .error e⟩
        | .ok n =>
          match n.turn rest with
          | .stop value => ⟨[raw], .ok value⟩
          | .go child rest' => (walkFrom lookup child rest').through raw := by
  rw [walkFrom]
  cases lookup expected with
  | none => rfl
  | some raw =>
    simp only
    split
    next e hnode => rw [hnode]
    next path value hnode => rw [hnode]; rfl
    next path child hnode =>
      rw [hnode]
      simp only [Node.turn]
      split <;> rfl
    next children value hnode =>
      rw [hnode]
      cases rest with
      | nil => rfl
      | cons m rest =>
        simp only [Node.turn]
        cases (children[m.toNat]?).join <;> rfl

@[simp] theorem Walk.through_result (raw : Bytes) (w : Walk) :
    (w.through raw).result = w.result := rfl

@[simp] theorem Walk.through_visited (raw : Bytes) (w : Walk) :
    (w.through raw).visited = raw :: w.visited := rfl

/-! ### Nodes filed under their digests -/

/-- A lookup that finds only the given nodes, each under its own digest. -/
def FiledIn (nodes : List Bytes) (lookup : Digest → Option Bytes) : Prop :=
  ∀ name raw, lookup name = some raw → raw ∈ nodes ∧ sha256 raw = name

/-- What is filed among some nodes is filed among more. -/
theorem FiledIn.mono {nodes more : List Bytes} {lookup : Digest → Option Bytes}
    (h : FiledIn nodes lookup) (hsub : ∀ x ∈ nodes, x ∈ more) : FiledIn more lookup := by
  intro name raw hraw
  obtain ⟨hmem, hname⟩ := h name raw hraw
  exact ⟨hsub raw hmem, hname⟩

/-- What is found in a list of pairs is in the list. -/
theorem mem_of_lookup {α β : Type} [BEq α] [LawfulBEq α] {l : List (α × β)} {a : α} {b : β}
    (h : l.lookup a = some b) : (a, b) ∈ l := by
  obtain ⟨before, after, rfl, _⟩ := List.lookup_eq_some_iff.mp h
  exact List.mem_append_right _ List.mem_cons_self

/-- Something is found under every digest that something is filed under. -/
theorem NodeIndex.exists_find {index : NodeIndex} {name : Digest} {raw : Bytes}
    (h : (name, raw) ∈ index) : ∃ raw', index.find name = some raw' :=
  Option.isSome_iff_exists.mp (List.lookup_isSome_iff.mpr ⟨_, h, beq_self_eq_true _⟩)

theorem filedIn_ofNodes (nodes : List Bytes) : FiledIn nodes (NodeIndex.ofNodes nodes).find := by
  intro name raw h
  have hmem : (name, raw) ∈ NodeIndex.ofNodes nodes := mem_of_lookup h
  rw [NodeIndex.ofNodes, List.mem_reverse] at hmem
  obtain ⟨raw', hraw', heq⟩ := List.mem_map.mp hmem
  cases heq
  exact ⟨hraw', rfl⟩

/-- Without a collision, a node among the given ones is found. -/
theorem find_ofNodes_of_mem {nodes : List Bytes} (hno : ¬ Collision nodes) {raw : Bytes}
    (h : raw ∈ nodes) : (NodeIndex.ofNodes nodes).find (sha256 raw) = some raw := by
  have hmem : (sha256 raw, raw) ∈ NodeIndex.ofNodes nodes :=
    List.mem_reverse.mpr (List.mem_map.mpr ⟨raw, h, rfl⟩)
  obtain ⟨raw', hfind⟩ := NodeIndex.exists_find hmem
  obtain ⟨hraw', hname⟩ := filedIn_ofNodes nodes _ _ hfind
  rw [hfind, Collision.eq_of_not hno hraw' h hname]

/-! ### Two walks -/

/-- Two walks from one digest along one key meet the same nodes, and so come to the same value,
unless two of the nodes collide. -/
theorem walkFrom_agree {strings : List Bytes} {lookup₁ lookup₂ : Digest → Option Bytes}
    (h₁ : FiledIn strings lookup₁) (h₂ : FiledIn strings lookup₂) {expected : Digest}
    {rest : Bytes} {v₁ v₂ : Option Bytes}
    (hv₁ : (walkFrom lookup₁ expected rest).result = .ok v₁)
    (hv₂ : (walkFrom lookup₂ expected rest).result = .ok v₂) :
    v₁ = v₂ ∨ Collision strings := by
  induction hlength : rest.length using Nat.strongRecOn generalizing expected rest with
  | ind length ih =>
    subst hlength
    rw [walkFrom_eq] at hv₁ hv₂
    cases hl₁ : lookup₁ expected with
    | none => simp [hl₁] at hv₁
    | some raw₁ =>
      cases hl₂ : lookup₂ expected with
      | none => simp [hl₂] at hv₂
      | some raw₂ =>
        obtain ⟨hmem₁, hname₁⟩ := h₁ _ _ hl₁
        obtain ⟨hmem₂, hname₂⟩ := h₂ _ _ hl₂
        rcases Collision.eq_or hmem₁ hmem₂ (hname₁.trans hname₂.symm) with hraw | hcollision
        · subst hraw
          simp only [hl₁] at hv₁
          simp only [hl₂] at hv₂
          cases hnode : Node.decode expected raw₁ with
          | error e => simp [hnode] at hv₁
          | ok n =>
            simp only [hnode] at hv₁ hv₂
            cases hturn : n.turn rest with
            | stop value =>
              simp only [hturn, Except.ok.injEq] at hv₁ hv₂
              exact .inl (hv₁.symm.trans hv₂)
            | go child rest' =>
              simp only [hturn, Walk.through_result] at hv₁ hv₂
              exact ih _ (Node.turn_lt hnode hturn) hv₁ hv₂ rfl
        · exact .inr hcollision

/-- Two walks from one root along one key come to the same value, unless two of the nodes
collide. -/
theorem walk_agree {strings : List Bytes} {lookup₁ lookup₂ : Digest → Option Bytes}
    (h₁ : FiledIn strings lookup₁) (h₂ : FiledIn strings lookup₂) {root : Digest} {key : Bytes}
    {v₁ v₂ : Option Bytes} (hv₁ : (walk lookup₁ root key).result = .ok v₁)
    (hv₂ : (walk lookup₂ root key).result = .ok v₂) : v₁ = v₂ ∨ Collision strings := by
  unfold walk at hv₁ hv₂
  split at hv₁
  next hempty =>
    rw [if_pos hempty] at hv₂
    cases hv₁
    cases hv₂
    exact .inl rfl
  next hempty =>
    rw [if_neg hempty] at hv₂
    exact walkFrom_agree h₁ h₂ hv₁ hv₂

/-- What a walk comes to where only some of its nodes are at hand: the first one that is not at
hand is reported as missing. -/
def Walk.restrict (has : Bytes → Bool) (w : Walk) : Except ProofError (Option Bytes) :=
  match w.visited.find? fun raw => !has raw with
  | some raw => .error (.missingNode (sha256 raw))
  | none => w.result

/-- A walk with a second lookup goes the way of the first one, up to the first node that the
second one does not find. The first walk must not miss a node itself. -/
theorem walkFrom_restrict {strings : List Bytes} {lookup lookup' : Digest → Option Bytes}
    {has : Bytes → Bool} (hfiled : FiledIn strings lookup)
    (hhas : ∀ raw, lookup (sha256 raw) = some raw →
      lookup' (sha256 raw) = if has raw then some raw else none)
    {expected : Digest} {rest : Bytes}
    (hend : ∀ name, (walkFrom lookup expected rest).result ≠ .error (.missingNode name)) :
    (walkFrom lookup' expected rest).result =
      (walkFrom lookup expected rest).restrict has := by
  -- the walk goes on with a shorter rest of the key, whatever node it meets
  induction hlength : rest.length using Nat.strongRecOn generalizing expected rest with
  | ind length ih =>
    subst hlength
    cases hl : lookup expected with
    | none =>
      exact absurd (by rw [walkFrom_eq, hl]) (hend expected)
    | some raw =>
      have hname : sha256 raw = expected := (hfiled _ _ hl).2
      have hl' : lookup' expected = if has raw then some raw else none := by
        rw [← hname] at hl ⊢
        exact hhas raw hl
      rw [walkFrom_eq lookup expected] at hend ⊢
      rw [walkFrom_eq lookup' expected, hl']
      simp only [hl] at hend ⊢
      cases hraw : has raw with
      | false =>
        -- the walk ends here: this node is the first one that is not at hand
        have hfirst : ∀ visited : List Bytes, (raw :: visited).find? (fun raw => !has raw) =
            some raw := fun visited => by simp [hraw]
        simp only [Bool.false_eq_true, if_false]
        cases hnode : Node.decode expected raw with
        | error e => simp only [Walk.restrict, hfirst, hname]
        | ok n =>
          cases hturn : n.turn rest with
          | stop value => simp only [hturn, Walk.restrict, hfirst, hname]
          | go child rest' =>
            simp only [hturn, Walk.restrict, Walk.through_visited, hfirst, hname]
      | true =>
        simp only [if_true]
        cases hnode : Node.decode expected raw with
        | error e => simp [Walk.restrict, hraw]
        | ok n =>
          simp only [hnode] at hend
          cases hturn : n.turn rest with
          | stop value => simp [hturn, Walk.restrict, hraw]
          | go child rest' =>
            simp only [hturn, Walk.through_result] at hend ⊢
            rw [ih _ (Node.turn_lt hnode hturn) hend rfl]
            simp [Walk.restrict, hraw]

/-- A walk that misses no node is not changed by a lookup that finds still more. -/
theorem walk_extend {strings : List Bytes} {lookup lookup' : Digest → Option Bytes}
    (hfiled : FiledIn strings lookup)
    (hextend : ∀ name raw, lookup name = some raw → lookup' name = some raw) {root : Digest}
    {key : Bytes}
    (hend : ∀ name, (walk lookup root key).result ≠ .error (.missingNode name)) :
    (walk lookup' root key).result = (walk lookup root key).result := by
  unfold walk at hend ⊢
  split
  next => rfl
  next hroot =>
    rw [if_neg hroot] at hend
    have hall : ∀ raw, lookup (sha256 raw) = some raw →
        lookup' (sha256 raw) = if (fun _ => true) raw then some raw else none :=
      fun raw hraw => hextend _ raw hraw
    have hnone : ((walkFrom lookup root (nibbles key)).visited.find? fun _ => !true) = none :=
      List.find?_eq_none.mpr fun _ _ => Bool.false_ne_true
    rw [walkFrom_restrict hfiled hall hend, Walk.restrict, hnone]

/-! ### Missing nodes -/

/-- Reading a node never complains of a missing one. -/
theorem Node.decode_ne_missing (name missing : Digest) (raw : Bytes) :
    decode name raw ≠ .error (.missingNode missing) := by
  unfold decode
  split
  · simp
  · split <;> simp

/-- The node that a walk reports as missing is one that the lookup does not find. -/
theorem walkFrom_missing {lookup : Digest → Option Bytes} {expected missing : Digest}
    {rest : Bytes} (h : (walkFrom lookup expected rest).result = .error (.missingNode missing)) :
    lookup missing = none := by
  induction hlength : rest.length using Nat.strongRecOn generalizing expected rest with
  | ind length ih =>
    subst hlength
    rw [walkFrom_eq] at h
    cases hl : lookup expected with
    | none =>
      simp only [hl, Except.error.injEq, ProofError.missingNode.injEq] at h
      rw [← h, hl]
    | some raw =>
      simp only [hl] at h
      cases hnode : Node.decode expected raw with
      | error e =>
        simp only [hnode, Except.error.injEq] at h
        exact absurd (h ▸ hnode) (Node.decode_ne_missing _ _ _)
      | ok n =>
        simp only [hnode] at h
        cases hturn : n.turn rest with
        | stop value => simp [hturn] at h
        | go child rest' =>
          simp only [hturn, Walk.through_result] at h
          exact ih _ (Node.turn_lt hnode hturn) h rfl

/-- A walk complains of a missing node only where the lookup finds none. -/
theorem walk_missing {lookup : Digest → Option Bytes} {root missing : Digest} {key : Bytes}
    (h : (walk lookup root key).result = .error (.missingNode missing)) :
    lookup missing = none := by
  unfold walk at h
  split at h
  · cases h
  · exact walkFrom_missing h

end Trie

end LightClient
