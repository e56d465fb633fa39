/-
Module: LightClient.Proofs.Header
Purpose: A header is read back from its canonical bytes, so that its hash commits to all of it.
Main exports: Header.ofMessage_ok, Header.decode_encode, Header.encode_inj,
  Header.eq_or_collision
-/
import LightClient.Header
import LightClient.Proofs.Digest
import LightClient.Proofs.Wire.Messages

namespace LightClient

namespace Header

@[simp] theorem digestField_bytes (name : String) (d : Digest) :
    digestField name d.bytes = .ok d := by
  simp [digestField]

/-- The message of a header holds the header. -/
theorem ofMessage_toMessage (h : Header) : ofMessage h.toMessage = .ok h := by
  simp [ofMessage, toMessage, Bind.bind, Except.bind]

/-- A field holds a digest if it has the bytes of one. -/
theorem digestField_ok {name : String} {bs : Bytes} {d : Digest} :
    digestField name bs = .ok d ↔ bs = d.bytes := by
  unfold digestField
  constructor
  · intro h
    split at h
    next e he =>
      cases h
      exact (Digest.bytes_of_ofBytes? he).symm
    next => cases h
  · rintro rfl
    rw [Digest.ofBytes?_bytes]

/-- A header is read out of its own message and out of no other one. -/
theorem ofMessage_ok {m : Wire.HeaderMessage} {h : Header} :
    ofMessage m = .ok h ↔ m = h.toMessage := by
  constructor
  · intro hm
    unfold ofMessage at hm
    simp only [Bind.bind, Except.bind] at hm
    split at hm
    · cases hm
    next hparent =>
      split at hm
      · cases hm
      next hstate =>
        split at hm
        · cases hm
        next htransactions =>
          split at hm
          · cases hm
          next hreceipts =>
            split at hm
            · cases hm
            next hommers =>
              cases hm
              cases m
              rw [toMessage, ← digestField_ok.mp hparent, ← digestField_ok.mp hstate,
                ← digestField_ok.mp htransactions, ← digestField_ok.mp hreceipts,
                ← digestField_ok.mp hommers]
  · rintro rfl
    exact ofMessage_toMessage h

/-- A header whose extra data has a length that fits a word can be written. -/
theorem writable_toMessage {h : Header} (hextra : h.extra.length < 2 ^ 64) :
    ∀ f ∈ Wire.Message.fields h.toMessage, f.Writable := by
  refine h.toMessage.laid.writable (by omega) ?_
  simpa [Wire.Message.fields, toMessage, Digest.length_bytes] using hextra

/-- A header is read back from its canonical bytes. -/
theorem decode_encode {h : Header} (hextra : h.extra.length < 2 ^ 64) :
    decode h.encode = .ok h := by
  have hmessage : Wire.Message.decode? h.encode = some h.toMessage :=
    Wire.Message.decode?_encode (writable_toMessage hextra) (Wire.HeaderMessage.foldlM_fields _ _)
  rw [decode, hmessage]
  exact ofMessage_toMessage h

/-- Different headers have different bytes. -/
theorem encode_inj {a b : Header} (ha : a.extra.length < 2 ^ 64) (hb : b.extra.length < 2 ^ 64)
    (h : a.encode = b.encode) : a = b := by
  have hdecode : decode a.encode = decode b.encode := congrArg decode h
  rw [decode_encode ha, decode_encode hb] at hdecode
  exact Except.ok.inj hdecode

/-- Headers with one hash are equal, or their bytes collide. -/
theorem eq_or_collision {a b : Header} {strings : List Bytes} (ha : a.extra.length < 2 ^ 64)
    (hb : b.extra.length < 2 ^ 64) (hamem : a.encode ∈ strings) (hbmem : b.encode ∈ strings)
    (h : a.hash = b.hash) : a = b ∨ Collision strings :=
  (Collision.eq_or hamem hbmem h).imp_left (encode_inj ha hb)

/-- A header that is read out of a message has the extra data of the message. -/
theorem extra_of_ofMessage {m : Wire.HeaderMessage} {h : Header} (hm : ofMessage m = .ok h) :
    h.extra = m.extra := by
  rw [ofMessage_ok.mp hm]
  rfl

end Header

end LightClient
