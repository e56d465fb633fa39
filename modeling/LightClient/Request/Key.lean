/-
Module: LightClient.Request.Key
Purpose: The key under which equal requests share one retrieval and one stored answer.
Main exports: RequestKey, Request.canonical, Request.key
-/
import LightClient.Request

namespace LightClient

/-- The kind of a request and the digest of its canonical bytes. -/
structure RequestKey where
  kind : RequestKind
  digest : Digest
  deriving DecidableEq

namespace RequestKey

def text (k : RequestKey) : String :=
  k.kind.title ++ ":" ++ k.digest.brief

end RequestKey

namespace Request

/-- A word in eight bytes. -/
def word (v : UInt64) : Bytes :=
  Bytes.bigEndian 8 v.toNat

/-- A byte string after its length in four bytes; longer strings keep the low bits of it. -/
def sized (b : Bytes) : Bytes :=
  Bytes.bigEndian 4 b.length ++ b

/-- Every part of a request, one after the other, behind the tag of its kind. -/
def canonical (r : Request) : Bytes :=
  r.kind.tag :: match r with
    | headerRange anchor anchorNumber count => anchor.bytes ++ word anchorNumber ++ word count
    | body blockHash number transactionsRoot ommersHash =>
      blockHash.bytes ++ word number ++ transactionsRoot.bytes ++ ommersHash.bytes
    | receipts blockHash number receiptsRoot =>
      blockHash.bytes ++ word number ++ receiptsRoot.bytes
    | stateProof blockHash number root key =>
      blockHash.bytes ++ word number ++ root.bytes ++ sized key
    | code blockHash number codeHash => blockHash.bytes ++ word number ++ codeHash.bytes
    | helperTrieProof trie index root key head =>
      Bytes.bigEndian 4 trie.wire.toNat ++ word index ++ root.bytes ++ sized key ++ word head

def key (r : Request) : RequestKey :=
  ⟨r.kind, sha256 r.canonical⟩

end Request

end LightClient
