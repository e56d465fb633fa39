/-
Module: LightClient.Digest
Purpose: The 32-byte digests that name headers, trie nodes, code and every trusted root.
Main exports: Digest, sha256, Digest.ofBytes?, Digest.text, Digest.brief
-/
import LightClient.Digest.Sha256

namespace LightClient

/-- A 32-byte digest. -/
structure Digest where
  bytes : Bytes
  length_bytes : bytes.length = 32
  deriving DecidableEq

/-- The SHA-256 digest of a byte string. -/
def sha256 (data : Bytes) : Digest :=
  ⟨Sha256.hash data, Sha256.length_hash data⟩

namespace Digest

/-- The digest of 32 zero bytes, which stands for "no parent". -/
def zero : Digest :=
  ⟨List.replicate 32 0, rfl⟩

instance : Inhabited Digest := ⟨zero⟩

/-- Reads a byte string as a digest; only a string of exactly 32 bytes is one. -/
def ofBytes? (bs : Bytes) : Option Digest :=
  if h : bs.length = 32 then some ⟨bs, h⟩ else none

/-- The full text of a digest: `0x` and 64 hexadecimal digits. -/
def text (d : Digest) : String :=
  "0x" ++ Bytes.toHex d.bytes

/-- A short text for logs: the first four bytes are enough to tell digests apart. -/
def brief (d : Digest) : String :=
  "Hash(0x" ++ Bytes.toHex (d.bytes.take 4) ++ "..)"

/-- The bytes of a digest give it back. -/
@[simp] theorem ofBytes?_bytes (d : Digest) : ofBytes? d.bytes = some d := by
  simp [ofBytes?, d.length_bytes]

/-- Bytes that give a digest are its bytes. -/
theorem bytes_of_ofBytes? {bs : Bytes} {d : Digest} (h : ofBytes? bs = some d) : d.bytes = bs := by
  unfold ofBytes? at h
  split at h
  · cases h
    rfl
  · cases h

end Digest

end LightClient
