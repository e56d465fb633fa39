/-
Module: LightClient.Proofs.Wire.Faithfulness
Purpose: All messages are written faithfully: each is read back from its bytes, written in the order
  of its fields and without what a reader assumes anyway; a header is read back from its canonical
  bytes, and no other header has the same ones.
Main exports: Wire.Message.Faithful, Header.encode_injective, Wire.FaithfulEncodings,
  Wire.encodings_faithful
-/
import LightClient.Proofs.Wire.Updates

namespace LightClient

namespace Wire

/-- How the messages of one type are written and read. A message is read back from its bytes if the
byte strings in it, and the messages in it, have lengths that fit a word: memory holds no others.
Its fields come in the order of their numbers, and none of them says what a message without fields
says. Of several values for one field the last one counts, unless the values are gathered: those of
a repeated field in a list, those of a message in one message. -/
structure Message.Faithful (α : Type) [Message α] (gathered : List Nat) : Prop where
  readBack (m : α) : Measured (fields m) → decode? (encode m) = some m
  ordered (m : α) : (fields m).Pairwise fun f g => f.number ≤ g.number
  sparing (m : α) (f : Field) : f ∈ fields m → absorb 100 blank f ≠ some (blank : α)
  lastWins (bs : Bytes) (before behind : List Field) (f : Field) (m : α) :
    Wire.decode? 100 bs = some (before ++ f :: behind) → (∀ g ∈ behind, g.number ≠ f.number) →
    f.number ∉ gathered → decode? bs = some m →
    ∃ alone : α, absorb 100 blank f = some alone ∧ part f.number m = part f.number alone

/-! ### Replies -/

theorem HeaderMessage.faithful : Message.Faithful HeaderMessage [] where
  readBack m h := Message.decode?_encode (m.laid.writable (by omega) h) (foldlM_fields 100 m)
  ordered m := m.laid.ordered
  sparing m f hf := by
    simp only [Message.fields, List.mem_append, mem_bytesField, mem_numberField] at hf
    rcases hf with (((((⟨hne, rfl⟩ | ⟨hne, rfl⟩) | ⟨hne, rfl⟩) | ⟨hne, rfl⟩) | ⟨hne, rfl⟩) |
      ⟨hne, rfl⟩) | ⟨hne, rfl⟩ <;>
    simp [Message.absorb, Message.blank, Payload.bytes?, Payload.number?, hne]
  lastWins _ _ _ _ _ := Message.part_of_decode? takes

theorem HeaderListMessage.faithful : Message.Faithful HeaderListMessage [1] where
  readBack _ h := decode?_encode h
  ordered m := m.laid.ordered
  sparing m f hf := by
    obtain ⟨x, _, rfl⟩ := List.mem_map.mp hf
    simp [Message.absorb, Message.blank, Message.field]
  lastWins _ _ _ _ _ := Message.part_of_decode? takes

theorem BodyMessage.faithful : Message.Faithful BodyMessage [1, 2] where
  readBack _ h := decode?_encode h
  ordered m := m.laid.ordered
  sparing m f hf := by
    rcases List.mem_append.mp hf with hf | hf
    · obtain ⟨b, _, rfl⟩ := List.mem_map.mp hf
      simp [Message.absorb, Message.blank, Payload.bytes?]
    · obtain ⟨b, _, rfl⟩ := List.mem_map.mp hf
      simp [Message.absorb, Message.blank, Payload.bytes?]
  lastWins _ _ _ _ _ := Message.part_of_decode? takes

theorem ReceiptsMessage.faithful : Message.Faithful ReceiptsMessage [1] where
  readBack _ h := decode?_encode h
  ordered m := m.laid.ordered
  sparing m f hf := by
    obtain ⟨b, _, rfl⟩ := List.mem_map.mp hf
    simp [Message.absorb, Message.blank, Payload.bytes?]
  lastWins _ _ _ _ _ := Message.part_of_decode? takes

theorem ProofMessage.faithful : Message.Faithful ProofMessage [1, 2] where
  readBack _ h := decode?_encode h
  ordered m := m.laid.ordered
  sparing m f hf := by
    rcases List.mem_append.mp hf with hf | hf
    · obtain ⟨b, _, rfl⟩ := List.mem_map.mp hf
      simp [Message.absorb, Message.blank, Payload.bytes?]
    · obtain ⟨x, _, rfl⟩ := List.mem_map.mp hf
      simp [Message.absorb, Message.blank, Message.field]
  lastWins _ _ _ _ _ := Message.part_of_decode? takes

theorem CodeMessage.faithful : Message.Faithful CodeMessage [] where
  readBack _ h := decode?_encode h
  ordered m := m.laid.ordered
  sparing m f hf := by
    obtain ⟨hne, rfl⟩ := mem_bytesField.mp hf
    simp [Message.absorb, Message.blank, Payload.bytes?, hne]
  lastWins _ _ _ _ _ := Message.part_of_decode? takes

/-! ### Nodes -/

theorem NodeMessage.faithful : Message.Faithful NodeMessage [3] where
  readBack _ h := decode?_encode h
  ordered m := m.laid.ordered
  sparing m f hf := by
    simp only [Message.fields, List.mem_append, mem_bytesField, mem_numberField] at hf
    rcases hf with ((⟨hne, rfl⟩ | ⟨hne, rfl⟩) | hf) | ⟨hne, rfl⟩
    · have htype : m.type ≠ 0 := fun h => hne (by rw [h]; rfl)
      simp [Message.absorb, Message.blank, Payload.number?, type_word, htype]
    · simp [Message.absorb, Message.blank, Payload.bytes?, hne]
    · obtain ⟨b, _, rfl⟩ := List.mem_map.mp hf
      simp [Message.absorb, Message.blank, Payload.bytes?]
    · simp [Message.absorb, Message.blank, Payload.bytes?, hne]
  lastWins _ _ _ _ _ := Message.part_of_decode? takes

/-! ### Parameters of requests -/

theorem HeaderRangeParams.faithful : Message.Faithful HeaderRangeParams [] where
  readBack _ h := decode?_encode h
  ordered m := m.laid.ordered
  sparing m f hf := by
    simp only [Message.fields, List.mem_append, mem_bytesField, mem_numberField] at hf
    rcases hf with (⟨hne, rfl⟩ | ⟨hne, rfl⟩) | ⟨hne, rfl⟩ <;>
    simp [Message.absorb, Message.blank, Payload.bytes?, Payload.number?, hne]
  lastWins _ _ _ _ _ := Message.part_of_decode? takes

theorem BlockParams.faithful : Message.Faithful BlockParams [] where
  readBack _ h := decode?_encode h
  ordered m := m.laid.ordered
  sparing m f hf := by
    simp only [Message.fields, List.mem_append, mem_bytesField, mem_numberField] at hf
    rcases hf with ⟨hne, rfl⟩ | ⟨hne, rfl⟩ <;>
    simp [Message.absorb, Message.blank, Payload.bytes?, Payload.number?, hne]
  lastWins _ _ _ _ _ := Message.part_of_decode? takes

theorem StateParams.faithful : Message.Faithful StateParams [1] where
  readBack _ h := decode?_encode h
  ordered m := m.laid.ordered
  sparing m f hf := by
    simp only [Message.fields, List.mem_append, mem_bytesField] at hf
    rcases hf with (hf | ⟨hne, rfl⟩) | ⟨hne, rfl⟩
    · obtain ⟨x, _, rfl⟩ := List.mem_map.mp hf
      simp [Message.absorb, Message.blank, Message.field]
    · simp [Message.absorb, Message.blank, Payload.bytes?, hne]
    · simp [Message.absorb, Message.blank, Payload.bytes?, hne]
  lastWins _ _ _ _ _ := Message.part_of_decode? takes

theorem CodeParams.faithful : Message.Faithful CodeParams [1] where
  readBack _ h := decode?_encode h
  ordered m := m.laid.ordered
  sparing m f hf := by
    simp only [Message.fields, List.mem_append, mem_bytesField] at hf
    rcases hf with hf | ⟨hne, rfl⟩
    · obtain ⟨x, _, rfl⟩ := List.mem_map.mp hf
      simp [Message.absorb, Message.blank, Message.field]
    · simp [Message.absorb, Message.blank, Payload.bytes?, hne]
  lastWins _ _ _ _ _ := Message.part_of_decode? takes

theorem HelperTrieParams.faithful : Message.Faithful HelperTrieParams [] where
  readBack _ h := decode?_encode h
  ordered m := m.laid.ordered
  sparing m f hf := by
    simp only [Message.fields, List.mem_append, mem_bytesField, mem_numberField] at hf
    rcases hf with (⟨hne, rfl⟩ | ⟨hne, rfl⟩) | ⟨hne, rfl⟩
    · have htrie : m.trie ≠ 0 := fun h => hne (by rw [h]; rfl)
      simp [Message.absorb, Message.blank, Payload.number?, htrie]
    · simp [Message.absorb, Message.blank, Payload.number?, hne]
    · simp [Message.absorb, Message.blank, Payload.bytes?, hne]
  lastWins _ _ _ _ _ := Message.part_of_decode? takes

end Wire

/-! ### Canonical bytes of headers -/

/-- Different headers have different bytes. This holds even where the extra data is too long for the
header to be read back. -/
theorem Header.encode_injective : Function.Injective Header.encode := by
  intro a b h
  have hmeasured : ∀ h : Header,
      Wire.Measured (Wire.Message.fields { h.toMessage with extra := [] }) := fun h => by
    simp [Wire.Message.fields, toMessage, Digest.length_bytes]
  rw [encode, encode, Wire.Message.encode, Wire.Message.encode, Wire.HeaderMessage.fields_eq,
    Wire.HeaderMessage.fields_eq b.toMessage, Wire.encode_append, Wire.encode_append] at h
  obtain ⟨hfields, hextra⟩ := Wire.encode_append_bytesField_inj
    a.toMessage.laid_without_extra b.toMessage.laid_without_extra (by omega) (by omega)
    (hmeasured a) (hmeasured b) h
  have hmessage : Wire.Message.fields a.toMessage = Wire.Message.fields b.toMessage := by
    rw [Wire.HeaderMessage.fields_eq, Wire.HeaderMessage.fields_eq b.toMessage, hfields, hextra]
  have hread := Wire.HeaderMessage.foldlM_fields 100 a.toMessage
  rw [hmessage, Wire.HeaderMessage.foldlM_fields, Option.some.injEq] at hread
  have hheaders := congrArg ofMessage hread
  rw [ofMessage_toMessage, ofMessage_toMessage, Except.ok.injEq] at hheaders
  exact hheaders.symm

namespace Wire

/-- All messages are written and read faithfully, and so are headers: a header is read back from its
canonical bytes, and only from its own. -/
structure FaithfulEncodings : Prop where
  header : Message.Faithful HeaderMessage []
  headerList : Message.Faithful HeaderListMessage [1]
  body : Message.Faithful BodyMessage [1, 2]
  receipts : Message.Faithful ReceiptsMessage [1]
  proof : Message.Faithful ProofMessage [1, 2]
  code : Message.Faithful CodeMessage []
  node : Message.Faithful NodeMessage [3]
  headerRangeParams : Message.Faithful HeaderRangeParams []
  blockParams : Message.Faithful BlockParams []
  stateParams : Message.Faithful StateParams [1]
  codeParams : Message.Faithful CodeParams [1]
  helperTrieParams : Message.Faithful HelperTrieParams []
  headerReadBack (h : Header) : h.extra.length < 2 ^ 64 → Header.decode h.encode = .ok h
  headerInjective (a b : Header) : a.encode = b.encode → a = b

/-- All messages that parties exchange are coded faithfully. -/
theorem encodings_faithful : FaithfulEncodings where
  header := HeaderMessage.faithful
  headerList := HeaderListMessage.faithful
  body := BodyMessage.faithful
  receipts := ReceiptsMessage.faithful
  proof := ProofMessage.faithful
  code := CodeMessage.faithful
  node := NodeMessage.faithful
  headerRangeParams := HeaderRangeParams.faithful
  blockParams := BlockParams.faithful
  stateParams := StateParams.faithful
  codeParams := CodeParams.faithful
  helperTrieParams := HelperTrieParams.faithful
  headerReadBack _ h := Header.decode_encode h
  headerInjective _ _ h := Header.encode_injective h

/-- Values that are easily lost: a type number that is negative, children that are empty, and a
header and a block that are there without anything in them. -/
theorem encodings_faithful_of_sparse_values :
    let node : NodeMessage := ⟨-1, [], [[], [5], []], []⟩
    let proof : ProofMessage := ⟨[[]], some Message.blank⟩
    let state : StateParams := ⟨some Message.blank, [], []⟩
    Message.decode? (Message.encode node) = some node ∧
      Message.decode? (Message.encode proof) = some proof ∧
      Message.decode? (Message.encode state) = some state := by
  intro node proof state
  refine ⟨encodings_faithful.node.readBack node ?_, encodings_faithful.proof.readBack proof ?_,
    encodings_faithful.stateParams.readBack state ?_⟩
  · simp [node, Message.fields]
  · exact measured_append.mpr ⟨by simp [proof], measured_some (by decide)⟩
  · exact measured_append.mpr ⟨measured_append.mpr ⟨measured_some (by decide), by simp [state]⟩,
      by simp [state]⟩

end Wire

end LightClient
