/-
Module: LightClient.Proofs.Wire.Exchanges
Purpose: The parameters of each kind of request, and the reply to it, are laid out in the order of
  their fields and read back from their bytes.
Main exports: Wire.Message.Nestable, Wire.HeaderRangeParams.decode?_encode,
  Wire.BlockParams.decode?_encode, Wire.StateParams.decode?_encode, Wire.CodeParams.decode?_encode,
  Wire.HelperTrieParams.decode?_encode, Wire.HeaderListMessage.decode?_encode,
  Wire.BodyMessage.decode?_encode, Wire.ReceiptsMessage.decode?_encode,
  Wire.ProofMessage.decode?_encode, Wire.CodeMessage.decode?_encode
-/
import LightClient.Proofs.Header
import LightClient.Proofs.Wire.Lengths

namespace LightClient

namespace Wire

/-! ### Messages in messages -/

/-- Nothing in written fields is longer than what is written. -/
theorem measured_of_length {fs : List Field} (h : (encode fs).length < 2 ^ 64) : Measured fs := by
  intro f hf b hb
  obtain ⟨before, behind, rfl⟩ := List.append_of_mem hf
  obtain ⟨number, payload⟩ := f
  obtain rfl : payload = .bytes b := hb
  simp only [encode, List.flatMap_append, List.flatMap_cons, Field.encode, List.length_append] at h
  omega

namespace Message

/-- A message that can be a field of another one: it can be written, and its length fits a word. -/
def Nestable {α : Type} [Message α] (m : α) : Prop :=
  (∀ f ∈ fields m, f.Writable) ∧ (encode m).length < 2 ^ 64

theorem nestable_of_length {α : Type} [Message α] {m : α} {last : Nat} (hlaid : Laid last (fields m))
    (hlast : last < 2 ^ 29) (h : (encode m).length < 2 ^ 64) : Nestable m :=
  ⟨hlaid.writable hlast (measured_of_length h), h⟩

/-- A message in a message is read back, where there is depth left for it. -/
theorem Nestable.nested?_encode {α : Type} [Message α] {depth : Nat} {m : α} (h : Nestable m)
    (hdepth : 1 < depth)
    (hfold : (fields m).foldlM (absorb (depth - 1)) blank = some m) :
    nested? depth blank (.bytes (encode m)) = some m :=
  merge?_encode (by omega) h.1 hfold

end Message

/-- A header in a message is read back. -/
theorem HeaderMessage.nested?_encode {m : HeaderMessage} (h : (Message.encode m).length < 2 ^ 64) :
    Message.nested? 100 Message.blank (.bytes (Message.encode m)) = some m :=
  (Message.nestable_of_length m.laid (by omega) h).nested?_encode (by omega) (foldlM_fields 99 m)

/-- A message that may be missing is taken up if it is there. -/
theorem foldlM_optionalField {α β : Type} [Message β] {g : α → Field → Option α} {number : Nat}
    (put : Option β → α) (m : Option β)
    (hput : ∀ x, m = some x → g (put none) (Message.field number x) = some (put (some x))) :
    (m.toList.map (Message.field number)).foldlM g (put none) = some (put m) := by
  cases m with
  | none => rfl
  | some x => simp [hput x rfl]

/-! ### Parameters of requests -/

namespace HeaderRangeParams

theorem laid (m : HeaderRangeParams) : Laid 3 (Message.fields m) := by
  have hanchor := (group_bytesField 1 m.anchor).laid (by omega)
  have hnumber := hanchor.append (group_numberField 2 m.anchorNumber) (by omega)
  exact hnumber.append (group_numberField 3 m.count) (by omega)

/-- The parameters of a header range request are read back. -/
theorem decode?_encode {m : HeaderRangeParams} (h : Measured (Message.fields m)) :
    Message.decode? (Message.encode m) = some m := by
  apply Message.decode?_encode (m.laid.writable (by omega) h)
  refine foldlM_append_of (t := { m with count := 0 }) ?_
    (foldlM_numberField (fun h => by rw [← h]) rfl)
  refine foldlM_append_of (t := ⟨m.anchor, 0, 0⟩) ?_
    (foldlM_numberField (fun h => by rw [← h]) rfl)
  exact foldlM_bytesField (fun h => by rw [h]; rfl) rfl

end HeaderRangeParams

namespace BlockParams

theorem laid (m : BlockParams) : Laid 2 (Message.fields m) :=
  ((group_bytesField 1 m.blockHash).laid (by omega)).append (group_numberField 2 m.blockNumber)
    (by omega)

theorem foldlM_fields (depth : Nat) (m : BlockParams) :
    (Message.fields m).foldlM (Message.absorb depth) Message.blank = some m := by
  refine foldlM_append_of (t := { m with blockNumber := 0 }) ?_
    (foldlM_numberField (fun h => by rw [← h]) rfl)
  exact foldlM_bytesField (fun h => by rw [h]; rfl) rfl

/-- The parameters of a request for a block are read back. -/
theorem decode?_encode {m : BlockParams} (h : Measured (Message.fields m)) :
    Message.decode? (Message.encode m) = some m :=
  Message.decode?_encode (m.laid.writable (by omega) h) (foldlM_fields 100 m)

/-- A block in a message is read back. -/
theorem nested?_encode {m : BlockParams} (h : (Message.encode m).length < 2 ^ 64) :
    Message.nested? 100 Message.blank (.bytes (Message.encode m)) = some m :=
  (Message.nestable_of_length m.laid (by omega) h).nested?_encode (by omega) (foldlM_fields 99 m)

end BlockParams

namespace StateParams

theorem laid (m : StateParams) : Laid 3 (Message.fields m) := by
  have hblock := (group_fields 1 m.block.toList).laid (by omega)
  have hroot := hblock.append (group_bytesField 2 m.root) (by omega)
  exact hroot.append (group_bytesField 3 m.key) (by omega)

/-- The parameters of a state proof request are read back. -/
theorem decode?_encode {m : StateParams} (h : Measured (Message.fields m)) :
    Message.decode? (Message.encode m) = some m := by
  apply Message.decode?_encode (m.laid.writable (by omega) h)
  refine foldlM_append_of (t := { m with key := [] }) ?_
    (foldlM_bytesField (fun h => by rw [← h]) rfl)
  refine foldlM_append_of (t := ⟨m.block, [], []⟩) ?_
    (foldlM_bytesField (fun h => by rw [← h]) rfl)
  refine foldlM_optionalField (fun b => (⟨b, [], []⟩ : StateParams)) m.block fun b hb => ?_
  have hread := BlockParams.nested?_encode (measured_fields.mp
    (measured_append.mp (measured_append.mp h).1).1 b (Option.mem_toList.mpr hb))
  simp [Message.absorb, Message.field, hread]

end StateParams

namespace CodeParams

theorem laid (m : CodeParams) : Laid 2 (Message.fields m) :=
  ((group_fields 1 m.block.toList).laid (by omega)).append (group_bytesField 2 m.codeHash)
    (by omega)

/-- The parameters of a code request are read back. -/
theorem decode?_encode {m : CodeParams} (h : Measured (Message.fields m)) :
    Message.decode? (Message.encode m) = some m := by
  apply Message.decode?_encode (m.laid.writable (by omega) h)
  refine foldlM_append_of (t := { m with codeHash := [] }) ?_
    (foldlM_bytesField (fun h => by rw [← h]) rfl)
  refine foldlM_optionalField (fun b => (⟨b, []⟩ : CodeParams)) m.block fun b hb => ?_
  have hread := BlockParams.nested?_encode (measured_fields.mp (measured_append.mp h).1 b
    (Option.mem_toList.mpr hb))
  simp [Message.absorb, Message.field, hread]

end CodeParams

namespace HelperTrieParams

theorem laid (m : HelperTrieParams) : Laid 3 (Message.fields m) := by
  have htrie := (group_numberField 1 m.trie.toUInt64).laid (by omega)
  have hsection := htrie.append (group_numberField 2 m.sectionIndex) (by omega)
  exact hsection.append (group_bytesField 3 m.key) (by omega)

/-- The parameters of a helper trie proof request are read back. -/
theorem decode?_encode {m : HelperTrieParams} (h : Measured (Message.fields m)) :
    Message.decode? (Message.encode m) = some m := by
  have hword : m.trie.toUInt64.toUInt32 = m.trie := UInt32.toUInt32_toUInt64 m.trie
  apply Message.decode?_encode (m.laid.writable (by omega) h)
  refine foldlM_append_of (t := { m with key := [] }) ?_
    (foldlM_bytesField (fun h => by rw [← h]) rfl)
  refine foldlM_append_of (t := ⟨m.trie, 0, []⟩) ?_
    (foldlM_numberField (fun h => by rw [← h]) rfl)
  refine foldlM_numberField (fun h => ?_) ?_
  · rw [h] at hword
    rw [← hword]
    rfl
  · simp only [Message.absorb, Payload.number?, Option.map_some, hword]
    rfl

end HelperTrieParams

/-! ### Replies -/

namespace HeaderListMessage

theorem laid (m : HeaderListMessage) : Laid 1 (Message.fields m) :=
  (group_fields 1 m.headers).laid (by omega)

/-- The headers of a list are appended one by one. -/
theorem foldlM_fields {headers : List HeaderMessage}
    (hheaders : ∀ h ∈ headers, (Message.encode h).length < 2 ^ 64) (before : List HeaderMessage) :
    (headers.map (Message.field 1)).foldlM (Message.absorb 100) (⟨before⟩ : HeaderListMessage) =
      some ⟨before ++ headers⟩ := by
  induction headers generalizing before with
  | nil => simp
  | cons h rest ih =>
    have hread := HeaderMessage.nested?_encode (hheaders h List.mem_cons_self)
    have hfirst : Message.absorb 100 (⟨before⟩ : HeaderListMessage) (Message.field 1 h) =
        some ⟨before ++ [h]⟩ := by
      simp [Message.absorb, Message.field, hread]
    have hrest := ih (fun x hx => hheaders x (List.mem_cons_of_mem _ hx)) (before ++ [h])
    rw [List.append_assoc, List.singleton_append] at hrest
    rw [List.map_cons, List.foldlM_cons, hfirst]
    exact hrest

/-- A list of headers is read back. -/
theorem decode?_encode {m : HeaderListMessage} (h : Measured (Message.fields m)) :
    Message.decode? (Message.encode m) = some m :=
  Message.decode?_encode (m.laid.writable (by omega) h) (foldlM_fields (measured_fields.mp h) [])

end HeaderListMessage

namespace BodyMessage

theorem laid (m : BodyMessage) : Laid 2 (Message.fields m) :=
  ((group_bytesFields 1 m.transactions).laid (by omega)).append (group_bytesFields 2 m.ommers)
    (by omega)

/-- A body is read back. -/
theorem decode?_encode {m : BodyMessage} (h : Measured (Message.fields m)) :
    Message.decode? (Message.encode m) = some m := by
  apply Message.decode?_encode (m.laid.writable (by omega) h)
  refine foldlM_append_of (t := ⟨m.transactions, []⟩) ?_
    (foldlM_bytesFields (fun l => (⟨m.transactions, l⟩ : BodyMessage)) (fun _ _ => rfl) []
      m.ommers)
  exact foldlM_bytesFields (fun l => (⟨l, []⟩ : BodyMessage)) (fun _ _ => rfl) [] m.transactions

end BodyMessage

namespace ReceiptsMessage

theorem laid (m : ReceiptsMessage) : Laid 1 (Message.fields m) :=
  (group_bytesFields 1 m.receipts).laid (by omega)

/-- Receipts are read back. -/
theorem decode?_encode {m : ReceiptsMessage} (h : Measured (Message.fields m)) :
    Message.decode? (Message.encode m) = some m := by
  apply Message.decode?_encode (m.laid.writable (by omega) h)
  exact foldlM_bytesFields (fun l => (⟨l⟩ : ReceiptsMessage)) (fun _ _ => rfl) [] m.receipts

end ReceiptsMessage

namespace ProofMessage

theorem laid (m : ProofMessage) : Laid 2 (Message.fields m) :=
  ((group_bytesFields 1 m.nodes).laid (by omega)).append (group_fields 2 m.header.toList)
    (by omega)

/-- A proof is read back, with the header that goes with it. -/
theorem decode?_encode {m : ProofMessage} (h : Measured (Message.fields m)) :
    Message.decode? (Message.encode m) = some m := by
  apply Message.decode?_encode (m.laid.writable (by omega) h)
  refine foldlM_append_of (t := ⟨m.nodes, none⟩)
    (foldlM_bytesFields (fun l => (⟨l, none⟩ : ProofMessage)) (fun _ _ => rfl) [] m.nodes) ?_
  refine foldlM_optionalField (fun h => (⟨m.nodes, h⟩ : ProofMessage)) m.header fun x hx => ?_
  have hread := HeaderMessage.nested?_encode (measured_fields.mp (measured_append.mp h).2 x
    (Option.mem_toList.mpr hx))
  simp [Message.absorb, Message.field, hread]

end ProofMessage

namespace CodeMessage

theorem laid (m : CodeMessage) : Laid 1 (Message.fields m) :=
  (group_bytesField 1 m.code).laid (by omega)

/-- Code is read back. -/
theorem decode?_encode {m : CodeMessage} (h : Measured (Message.fields m)) :
    Message.decode? (Message.encode m) = some m := by
  apply Message.decode?_encode (m.laid.writable (by omega) h)
  obtain ⟨code⟩ := m
  refine foldlM_bytesField (fun hempty => ?_) rfl
  cases hempty
  rfl

end CodeMessage

end Wire

/-- A header whose extra data memory can hold can be a field of another message. -/
theorem Header.length_toMessage_lt {h : Header} (hextra : h.extra.length < 2 ^ 63) :
    (Wire.Message.encode h.toMessage).length < 2 ^ 64 := by
  have hlength := Wire.HeaderMessage.length_encode_le h.toMessage
  simp only [toMessage, Digest.length_bytes] at hlength ⊢
  omega

end LightClient
