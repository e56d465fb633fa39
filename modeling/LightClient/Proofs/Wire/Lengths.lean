/-
Module: LightClient.Proofs.Wire.Lengths
Purpose: Written messages are not much longer than what they hold.
Main exports: Wire.HeaderMessage.length_encode_le, Wire.BlockParams.length_encode_le,
  Wire.NodeMessage.length_encode_le
-/
import LightClient.Proofs.Wire.Fields
import LightClient.Wire.Payloads

namespace LightClient

theorem Varint.length_groups_le (limit n : Nat) : (groups limit n).length ≤ limit := by
  induction limit generalizing n with
  | zero => exact Nat.le_refl 0
  | succ limit ih =>
    unfold groups
    split
    · exact Nat.succ_le_succ (Nat.zero_le limit)
    · exact Nat.succ_le_succ (ih _)

theorem Varint.length_encode_le (v : UInt64) : (encode v).length ≤ 10 :=
  length_groups_le 10 v.toNat

namespace Wire

theorem length_key_le (number layout : Nat) : (key number layout).length ≤ 10 :=
  Varint.length_encode_le _

/-- A number takes its key and one varint. -/
theorem Field.length_encode_number_le (number : Nat) (v : UInt64) :
    (Field.encode ⟨number, .number v⟩).length ≤ 20 := by
  have hkey := length_key_le number 0
  have hvalue := Varint.length_encode_le v
  simp only [Field.encode, List.length_append]
  omega

/-- A byte string takes its key, its length and itself. -/
theorem Field.length_encode_bytes_le (number : Nat) (b : Bytes) :
    (Field.encode ⟨number, .bytes b⟩).length ≤ 20 + b.length := by
  have hkey := length_key_le number 2
  have hlength := Varint.length_encode_le (UInt64.ofNat b.length)
  simp only [Field.encode, List.length_append]
  omega

theorem length_encode_numberField_le (number : Nat) (v : UInt64) :
    (encode (numberField number v)).length ≤ 20 := by
  unfold numberField
  split
  · exact Nat.zero_le 20
  · rw [encode, List.flatMap_singleton]
    exact Field.length_encode_number_le number v

theorem length_encode_bytesField_le (number : Nat) (b : Bytes) :
    (encode (bytesField number b)).length ≤ 20 + b.length := by
  unfold bytesField
  split
  · exact Nat.zero_le _
  · rw [encode, List.flatMap_singleton]
    exact Field.length_encode_bytes_le number b

theorem length_encode_bytesFields_le {number limit : Nat} {bs : List Bytes}
    (hbs : ∀ b ∈ bs, b.length ≤ limit) :
    (encode (bytesFields number bs)).length ≤ bs.length * (20 + limit) := by
  induction bs with
  | nil => exact Nat.zero_le _
  | cons b bs ih =>
    have hsplit : encode (bytesFields number (b :: bs)) =
        Field.encode ⟨number, .bytes b⟩ ++ encode (bytesFields number bs) := encode_cons _ _
    have hfirst := Field.length_encode_bytes_le number b
    have hb := hbs b List.mem_cons_self
    have hrest := ih fun x hx => hbs x (List.mem_cons_of_mem _ hx)
    rw [hsplit, List.length_append, List.length_cons, Nat.succ_mul]
    omega

theorem HeaderMessage.length_encode_le (m : HeaderMessage) :
    (Message.encode m).length ≤ 140 + m.parentHash.length + m.stateRoot.length +
      m.transactionsRoot.length + m.receiptsRoot.length + m.ommersHash.length +
      m.extra.length := by
  have hparent := length_encode_bytesField_le 1 m.parentHash
  have hnumber := length_encode_numberField_le 2 m.number
  have hstate := length_encode_bytesField_le 3 m.stateRoot
  have htransactions := length_encode_bytesField_le 4 m.transactionsRoot
  have hreceipts := length_encode_bytesField_le 5 m.receiptsRoot
  have hommers := length_encode_bytesField_le 6 m.ommersHash
  have hextra := length_encode_bytesField_le 7 m.extra
  simp only [Message.encode, Message.fields, encode_append, List.length_append]
  omega

theorem BlockParams.length_encode_le (m : BlockParams) :
    (Message.encode m).length ≤ 40 + m.blockHash.length := by
  have hhash := length_encode_bytesField_le 1 m.blockHash
  have hnumber := length_encode_numberField_le 2 m.blockNumber
  simp only [Message.encode, Message.fields, encode_append, List.length_append]
  omega

theorem NodeMessage.length_encode_le {limit : Nat} {m : NodeMessage}
    (hchildren : ∀ c ∈ m.children, c.length ≤ limit) :
    (Message.encode m).length ≤
      60 + m.path.length + m.children.length * (20 + limit) + m.value.length := by
  have htype := length_encode_numberField_le 1 m.type.toInt64.toUInt64
  have hpath := length_encode_bytesField_le 2 m.path
  have hlist := @length_encode_bytesFields_le 3 limit m.children hchildren
  have hvalue := length_encode_bytesField_le 4 m.value
  simp only [Message.encode, Message.fields, encode_append, List.length_append]
  omega

end Wire

end LightClient
