/-
Module: LightClient.Proofs.Trie.Nodes
Purpose: A well-formed node is read back from its bytes, and different nodes have different bytes.
Main exports: Trie.Node.Fits, Trie.Node.decode_encode, Trie.Node.encode_ne_nil,
  Trie.Node.encode_inj
-/
import LightClient.Proofs.Digest
import LightClient.Proofs.Wire.Messages
import LightClient.Trie.Node

namespace LightClient

namespace Trie

namespace Node

/-- The byte strings in a node have lengths that fit a word. -/
def Fits : Node → Prop
  | leaf path value => path.length < 2 ^ 64 ∧ value.length < 2 ^ 64
  | extension path _ => path.length < 2 ^ 64
  | branch _ value => ∀ v, value = some v → v.length < 2 ^ 64

theorem bytes_ne_nil (d : Digest) : d.bytes ≠ [] := by
  intro h
  have hlength := d.length_bytes
  rw [h] at hlength
  cases hlength

/-- A child is read back from what a branch writes for it. -/
theorem child?_written (c : Option Digest) : child? ((c.map Digest.bytes).getD []) = some c := by
  cases c with
  | none => simp [child?]
  | some d => simp [child?, bytes_ne_nil]

theorem mapM_child?_written (cs : List (Option Digest)) :
    (cs.map fun c => (c.map Digest.bytes).getD []).mapM child? = some cs := by
  induction cs with
  | nil => rfl
  | cons c cs ih => simp [child?_written, ih]

theorem length_written_lt (children : List (Option Digest)) :
    ∀ b ∈ children.map fun c => (c.map Digest.bytes).getD [], b.length < 2 ^ 64 := by
  intro b hb
  obtain ⟨c, _, rfl⟩ := List.mem_map.mp hb
  cases c with
  | none => simp
  | some d => simp [d.length_bytes]

theorem not_any_of_nibbles {path : Bytes} (h : ∀ n ∈ path, n < 16) :
    (path.any fun n => 16 ≤ n) = false := by
  rw [List.any_eq_false]
  intro n hn
  simpa using h n hn

theorem branchOfMessage_toMessage {children : Vector (Option Digest) 16} {value : Option Bytes}
    (hvalue : value ≠ some []) :
    branchOfMessage (branch children value).toMessage = .ok (branch children value) := by
  have hread : (branch children value).toMessage.children.mapM child? = some children.toList :=
    mapM_child?_written children.toList
  have hlength : (branch children value).toMessage.children.length = 16 := by simp [toMessage]
  unfold branchOfMessage
  rw [if_neg (by simp [toMessage]), if_pos hlength, hread]
  simp only [Vector.length_toList, dite_true, toMessage, Except.ok.injEq, branch.injEq]
  refine ⟨rfl, ?_⟩
  cases value with
  | none => rfl
  | some v =>
    have hv : v ≠ [] := fun hv => hvalue (by rw [hv])
    simp [hv]

/-- The message of a well-formed node holds the node. -/
theorem ofMessage_toMessage {n : Node} (h : n.WellFormed) : ofMessage n.toMessage = .ok n := by
  cases n with
  | leaf path value =>
    obtain ⟨hpath, hvalue⟩ := h
    simp [ofMessage, toMessage, not_any_of_nibbles hpath, leafOfMessage, hvalue,
      Wire.NodeType.ofNumber, Wire.NodeType.number]
  | extension path child =>
    obtain ⟨hpath, hne⟩ := h
    simp [ofMessage, toMessage, not_any_of_nibbles hpath, extensionOfMessage, hne,
      Wire.NodeType.ofNumber, Wire.NodeType.number]
  | branch children value =>
    have htype : Wire.NodeType.ofNumber (branch children value).toMessage.type = .branch := rfl
    unfold ofMessage
    rw [if_neg (by simp [toMessage]), htype]
    exact branchOfMessage_toMessage h

/-- The message of a node that fits its length fields is read back from its bytes. -/
theorem decode?_toMessage {n : Node} (h : n.Fits) :
    Wire.Message.decode? n.encode = some n.toMessage := by
  cases n with
  | leaf path value =>
    apply Wire.NodeMessage.decode?_encode
    simpa [Wire.Message.fields, toMessage, Fits] using h
  | extension path child =>
    apply Wire.NodeMessage.decode?_encode
    simpa [Wire.Message.fields, toMessage, child.length_bytes, Fits] using h
  | branch children value =>
    have hvalue : (value.getD []).length < 2 ^ 64 := by
      cases value with
      | none => simp
      | some v => exact h v rfl
    apply Wire.NodeMessage.decode?_encode
    simp only [Wire.Message.fields, toMessage, Wire.measured_append, Wire.measured_numberField,
      Wire.measured_bytesField, Wire.measured_bytesFields, true_and]
    exact ⟨⟨by simp, length_written_lt _⟩, hvalue⟩

/-- A well-formed node is read back from its bytes, whatever digest it is known by. -/
theorem decode_encode (name : Digest) {n : Node} (hform : n.WellFormed) (hfits : n.Fits) :
    decode name n.encode = .ok n := by
  rw [decode, decode?_toMessage hfits]
  simp only [ofMessage_toMessage hform]

/-- A node always has bytes, since the number of its type is never left out. -/
theorem encode_ne_nil (n : Node) : n.encode ≠ [] := by
  have htype : n.toMessage.type.toInt64.toUInt64 ≠ 0 := by
    cases n with
    | leaf => exact (by decide : Wire.NodeType.leaf.number.toInt64.toUInt64 ≠ 0)
    | extension => exact (by decide : Wire.NodeType.extension.number.toInt64.toUInt64 ≠ 0)
    | branch => exact (by decide : Wire.NodeType.branch.number.toInt64.toUInt64 ≠ 0)
  simp [encode, Wire.Message.encode, Wire.encode, Wire.Message.fields, Wire.numberField, htype,
    Wire.Field.encode, Wire.key_ne_nil]

/-! ### Different nodes have different bytes -/

theorem encode_leaf (path value : Bytes) :
    (leaf path value).encode =
      8 :: 1 :: (Wire.encode (Wire.bytesField 2 path) ++
        Wire.encode (Wire.bytesField 4 value)) := by
  have htype : Wire.encode (Wire.numberField 1 Wire.NodeType.leaf.number.toInt64.toUInt64) =
      [8, 1] := by decide
  rw [encode, toMessage, Wire.NodeMessage.encode_eq, htype]
  rfl

theorem encode_extension (path : Bytes) (child : Digest) :
    (extension path child).encode =
      8 :: 2 :: (Wire.encode (Wire.bytesField 2 path) ++
        Wire.encode (Wire.bytesFields 3 [child.bytes])) := by
  have htype : Wire.encode (Wire.numberField 1 Wire.NodeType.extension.number.toInt64.toUInt64) =
      [8, 2] := by decide
  rw [encode, toMessage, Wire.NodeMessage.encode_eq, htype, Wire.encode_bytesField_nil,
    List.append_nil]
  rfl

theorem encode_branch (children : Vector (Option Digest) 16) (value : Option Bytes) :
    (branch children value).encode =
      8 :: 3 :: (Wire.encode (Wire.bytesFields 3
          (children.toList.map fun c => (c.map Digest.bytes).getD [])) ++
        Wire.encode (Wire.bytesField 4 (value.getD []))) := by
  have htype : Wire.encode (Wire.numberField 1 Wire.NodeType.branch.number.toInt64.toUInt64) =
      [8, 3] := by decide
  rw [encode, toMessage, Wire.NodeMessage.encode_eq, htype, Wire.encode_bytesField_nil]
  rfl

/-- A path ends at the first byte that is no nibble. -/
theorem append_cons_inj_of_nibbles {p q r s : Bytes} {x y : UInt8} (hp : ∀ n ∈ p, n < 16)
    (hq : ∀ n ∈ q, n < 16) (hx : ¬ x < 16) (hy : ¬ y < 16) (h : p ++ x :: r = q ++ y :: s) :
    p = q ∧ x :: r = y :: s := by
  induction p generalizing q with
  | nil =>
    cases q with
    | nil => exact ⟨rfl, h⟩
    | cons b q =>
      obtain ⟨rfl, _⟩ := List.cons.inj h
      exact absurd (hq x List.mem_cons_self) hx
  | cons a p ih =>
    cases q with
    | nil =>
      obtain ⟨rfl, _⟩ := List.cons.inj h
      exact absurd (hp a List.mem_cons_self) hy
    | cons b q =>
      obtain ⟨rfl, hmore⟩ := List.cons.inj h
      obtain ⟨rfl, hrest⟩ := ih (fun n hn => hp n (List.mem_cons_of_mem _ hn))
        (fun n hn => hq n (List.mem_cons_of_mem _ hn)) hmore
      exact ⟨rfl, hrest⟩

/-- Paths are told apart by what is written for them and the byte that announces the next field:
this byte is neither a nibble nor the one that announces a path. -/
theorem encode_path_inj {p q r s : Bytes} {x y : UInt8} (hp : ∀ n ∈ p, n < 16)
    (hq : ∀ n ∈ q, n < 16) (hx : 18 < x) (hy : 18 < y)
    (h : Wire.encode (Wire.bytesField 2 p) ++ x :: r =
      Wire.encode (Wire.bytesField 2 q) ++ y :: s) : p = q ∧ x :: r = y :: s := by
  have hkey : Wire.key 2 2 = [18] := by decide
  have hnibble : ∀ z : UInt8, 18 < z → ¬ z < 16 := fun z hz hlow =>
    UInt8.lt_irrefl z (UInt8.lt_trans hlow (UInt8.lt_trans (by decide) hz))
  by_cases hpnil : p = []
  · by_cases hqnil : q = []
    · rw [hpnil, hqnil] at h ⊢
      exact ⟨rfl, h⟩
    · rw [hpnil, Wire.encode_bytesField_of_ne hqnil, hkey] at h
      obtain ⟨rfl, _⟩ := List.cons.inj h
      exact absurd hx (UInt8.lt_irrefl 18)
  · by_cases hqnil : q = []
    · rw [hqnil, Wire.encode_bytesField_of_ne hpnil, hkey] at h
      obtain ⟨rfl, _⟩ := List.cons.inj h
      exact absurd hy (UInt8.lt_irrefl 18)
    · simp only [Wire.encode_bytesField_of_ne hpnil, Wire.encode_bytesField_of_ne hqnil,
        List.append_assoc, List.append_cancel_left_eq] at h
      exact append_cons_inj_of_nibbles hp hq (hnibble x hx) (hnibble y hy)
        (Varint.encode_append_inj h).2

/-- Well-formed leaves can be told apart by their bytes. -/
theorem encode_leaf_inj {path path' value value' : Bytes} (h : (leaf path value).WellFormed)
    (h' : (leaf path' value').WellFormed)
    (hbytes : (leaf path value).encode = (leaf path' value').encode) :
    leaf path value = leaf path' value' := by
  have hkey : Wire.key 4 2 = [34] := by decide
  rw [encode_leaf, encode_leaf, List.cons.injEq, List.cons.injEq,
    Wire.encode_bytesField_of_ne h.2, Wire.encode_bytesField_of_ne h'.2, hkey] at hbytes
  obtain ⟨rfl, hrest⟩ := encode_path_inj h.1 h'.1 (by decide) (by decide) hbytes.2.2
  rw [(Varint.encode_append_inj (List.cons.inj hrest).2).2]

/-- Well-formed extensions can be told apart by their bytes. -/
theorem encode_extension_inj {path path' : Bytes} {child child' : Digest}
    (h : (extension path child).WellFormed) (h' : (extension path' child').WellFormed)
    (hbytes : (extension path child).encode = (extension path' child').encode) :
    extension path child = extension path' child' := by
  have hkey : Wire.key 3 2 = [26] := by decide
  rw [encode_extension, encode_extension, List.cons.injEq, List.cons.injEq,
    Wire.encode_bytesFields_cons, Wire.encode_bytesFields_cons, hkey] at hbytes
  obtain ⟨rfl, hrest⟩ := encode_path_inj h.1 h'.1 (by decide) (by decide) hbytes.2.2
  have hwritten := (Varint.encode_append_inj (List.cons.inj hrest).2).2
  rw [List.append_cancel_right_eq] at hwritten
  rw [Digest.bytes_inj.mp hwritten]

/-- Well-formed branches can be told apart by their bytes. -/
theorem encode_branch_inj {children children' : Vector (Option Digest) 16}
    {value value' : Option Bytes} (h : (branch children value).WellFormed)
    (h' : (branch children' value').WellFormed)
    (hbytes : (branch children value).encode = (branch children' value').encode) :
    branch children value = branch children' value' := by
  rw [encode_branch, encode_branch, List.cons.injEq, List.cons.injEq] at hbytes
  obtain ⟨hchildren, hvalues⟩ := Wire.encode_bytesFields_append_inj (by simp)
    (length_written_lt _) (length_written_lt _) hbytes.2.2
  have hread := congrArg (List.mapM child?) hchildren
  rw [mapM_child?_written, mapM_child?_written, Option.some.injEq, Vector.toList_inj] at hread
  have hvalue := Wire.encode_bytesField_inj hvalues
  rw [hread]
  cases value with
  | none =>
    cases value' with
    | none => rfl
    | some v' => exact absurd (congrArg some hvalue.symm) h'
  | some v =>
    cases value' with
    | none => exact absurd (congrArg some hvalue) h
    | some v' => rw [show v = v' from hvalue]

/-- Different well-formed nodes have different bytes, however long their paths and values are. -/
theorem encode_inj {a b : Node} (ha : a.WellFormed) (hb : b.WellFormed)
    (h : a.encode = b.encode) : a = b := by
  cases a with
  | leaf path value =>
    cases b with
    | leaf path' value' => exact encode_leaf_inj ha hb h
    | extension => simp [encode_leaf, encode_extension] at h
    | branch => simp [encode_leaf, encode_branch] at h
  | extension path child =>
    cases b with
    | leaf => simp [encode_leaf, encode_extension] at h
    | extension path' child' => exact encode_extension_inj ha hb h
    | branch => simp [encode_extension, encode_branch] at h
  | branch children value =>
    cases b with
    | leaf => simp [encode_leaf, encode_branch] at h
    | extension => simp [encode_extension, encode_branch] at h
    | branch children' value' => exact encode_branch_inj ha hb h

end Node

end Trie

end LightClient
