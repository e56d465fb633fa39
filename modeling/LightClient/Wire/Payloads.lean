/-
Module: LightClient.Wire.Payloads
Purpose: The messages that requests and replies carry, each with its field numbers.
Main exports: Wire.HeaderMessage, Wire.HeaderListMessage, Wire.BodyMessage, Wire.ReceiptsMessage,
  Wire.ProofMessage, Wire.CodeMessage, Wire.NodeMessage, Wire.HeaderRangeParams, Wire.BlockParams,
  Wire.StateParams, Wire.CodeParams, Wire.HelperTrieParams
-/
import LightClient.Wire.Message

namespace LightClient

namespace Wire

/-- A block header whose digests have not been checked for their length. -/
structure HeaderMessage where
  parentHash : Bytes
  number : UInt64
  stateRoot : Bytes
  transactionsRoot : Bytes
  receiptsRoot : Bytes
  ommersHash : Bytes
  extra : Bytes
  deriving Repr, DecidableEq

instance : Message HeaderMessage where
  blank := ⟨[], 0, [], [], [], [], []⟩
  fields m :=
    bytesField 1 m.parentHash ++ numberField 2 m.number ++ bytesField 3 m.stateRoot ++
      bytesField 4 m.transactionsRoot ++ bytesField 5 m.receiptsRoot ++
      bytesField 6 m.ommersHash ++ bytesField 7 m.extra
  absorb _ m f :=
    match f.number with
    | 1 => f.payload.bytes?.map fun b => { m with parentHash := b }
    | 2 => f.payload.number?.map fun v => { m with number := v }
    | 3 => f.payload.bytes?.map fun b => { m with stateRoot := b }
    | 4 => f.payload.bytes?.map fun b => { m with transactionsRoot := b }
    | 5 => f.payload.bytes?.map fun b => { m with receiptsRoot := b }
    | 6 => f.payload.bytes?.map fun b => { m with ommersHash := b }
    | 7 => f.payload.bytes?.map fun b => { m with extra := b }
    | _ => some m

/-- The reply to a header range request, headers in ascending order. -/
structure HeaderListMessage where
  headers : List HeaderMessage
  deriving Repr, DecidableEq

instance : Message HeaderListMessage where
  blank := ⟨[]⟩
  fields m := m.headers.map (Message.field 1)
  absorb depth m f :=
    match f.number with
    | 1 => (Message.nested? depth Message.blank f.payload).map fun h => ⟨m.headers ++ [h]⟩
    | _ => some m

/-- The reply to a body request. -/
structure BodyMessage where
  transactions : List Bytes
  ommers : List Bytes
  deriving Repr, DecidableEq

instance : Message BodyMessage where
  blank := ⟨[], []⟩
  fields m := bytesFields 1 m.transactions ++ bytesFields 2 m.ommers
  absorb _ m f :=
    match f.number with
    | 1 => f.payload.bytes?.map fun b => { m with transactions := m.transactions ++ [b] }
    | 2 => f.payload.bytes?.map fun b => { m with ommers := m.ommers ++ [b] }
    | _ => some m

structure ReceiptsMessage where
  receipts : List Bytes
  deriving Repr, DecidableEq

instance : Message ReceiptsMessage where
  blank := ⟨[]⟩
  fields m := bytesFields 1 m.receipts
  absorb _ m f :=
    match f.number with
    | 1 => f.payload.bytes?.map fun b => ⟨m.receipts ++ [b]⟩
    | _ => some m

/-- The reply to a proof request: trie nodes in any order, and the header that a proof of a
canonical hash speaks about. -/
structure ProofMessage where
  nodes : List Bytes
  header : Option HeaderMessage
  deriving Repr, DecidableEq

instance : Message ProofMessage where
  blank := ⟨[], none⟩
  fields m := bytesFields 1 m.nodes ++ m.header.toList.map (Message.field 2)
  absorb depth m f :=
    match f.number with
    | 1 => f.payload.bytes?.map fun b => { m with nodes := m.nodes ++ [b] }
    | 2 =>
      (Message.nested? depth (m.header.getD Message.blank) f.payload).map fun h =>
        { m with header := some h }
    | _ => some m

structure CodeMessage where
  code : Bytes
  deriving Repr, DecidableEq

instance : Message CodeMessage where
  blank := ⟨[]⟩
  fields m := bytesField 1 m.code
  absorb _ m f :=
    match f.number with
    | 1 => f.payload.bytes?.map fun b => ⟨b⟩
    | _ => some m

/-- The layouts of a trie node. -/
inductive NodeType where
  | unspecified
  | leaf
  | extension
  | branch
  deriving Repr, DecidableEq

namespace NodeType

/-- The number that stands for a layout. -/
def number : NodeType → Int32
  | unspecified => 0
  | leaf => 1
  | extension => 2
  | branch => 3

/-- The layout a number stands for; an unknown number stands for none in particular. -/
def ofNumber (n : Int32) : NodeType :=
  if n = 1 then leaf else if n = 2 then extension else if n = 3 then branch else unspecified

def title : NodeType → String
  | unspecified => "Unspecified"
  | leaf => "Leaf"
  | extension => "Extension"
  | branch => "Branch"

end NodeType

/-- A trie node before its layout rules have been checked. -/
structure NodeMessage where
  type : Int32
  path : Bytes
  children : List Bytes
  value : Bytes
  deriving DecidableEq

instance : Message NodeMessage where
  blank := ⟨0, [], [], []⟩
  fields m :=
    numberField 1 m.type.toInt64.toUInt64 ++ bytesField 2 m.path ++ bytesFields 3 m.children ++
      bytesField 4 m.value
  absorb _ m f :=
    match f.number with
    | 1 => f.payload.number?.map fun v => { m with type := v.toUInt32.toInt32 }
    | 2 => f.payload.bytes?.map fun b => { m with path := b }
    | 3 => f.payload.bytes?.map fun b => { m with children := m.children ++ [b] }
    | 4 => f.payload.bytes?.map fun b => { m with value := b }
    | _ => some m

structure HeaderRangeParams where
  anchor : Bytes
  anchorNumber : UInt64
  count : UInt64
  deriving Repr, DecidableEq

instance : Message HeaderRangeParams where
  blank := ⟨[], 0, 0⟩
  fields m := bytesField 1 m.anchor ++ numberField 2 m.anchorNumber ++ numberField 3 m.count
  absorb _ m f :=
    match f.number with
    | 1 => f.payload.bytes?.map fun b => { m with anchor := b }
    | 2 => f.payload.number?.map fun v => { m with anchorNumber := v }
    | 3 => f.payload.number?.map fun v => { m with count := v }
    | _ => some m

/-- The parameters of a request for the data of one block. -/
structure BlockParams where
  blockHash : Bytes
  blockNumber : UInt64
  deriving Repr, DecidableEq

instance : Message BlockParams where
  blank := ⟨[], 0⟩
  fields m := bytesField 1 m.blockHash ++ numberField 2 m.blockNumber
  absorb _ m f :=
    match f.number with
    | 1 => f.payload.bytes?.map fun b => { m with blockHash := b }
    | 2 => f.payload.number?.map fun v => { m with blockNumber := v }
    | _ => some m

structure StateParams where
  block : Option BlockParams
  root : Bytes
  key : Bytes
  deriving Repr, DecidableEq

instance : Message StateParams where
  blank := ⟨none, [], []⟩
  fields m := m.block.toList.map (Message.field 1) ++ bytesField 2 m.root ++ bytesField 3 m.key
  absorb depth m f :=
    match f.number with
    | 1 =>
      (Message.nested? depth (m.block.getD Message.blank) f.payload).map fun b =>
        { m with block := some b }
    | 2 => f.payload.bytes?.map fun b => { m with root := b }
    | 3 => f.payload.bytes?.map fun b => { m with key := b }
    | _ => some m

structure CodeParams where
  block : Option BlockParams
  codeHash : Bytes
  deriving Repr, DecidableEq

instance : Message CodeParams where
  blank := ⟨none, []⟩
  fields m := m.block.toList.map (Message.field 1) ++ bytesField 2 m.codeHash
  absorb depth m f :=
    match f.number with
    | 1 =>
      (Message.nested? depth (m.block.getD Message.blank) f.payload).map fun b =>
        { m with block := some b }
    | 2 => f.payload.bytes?.map fun b => { m with codeHash := b }
    | _ => some m

structure HelperTrieParams where
  trie : UInt32
  sectionIndex : UInt64
  key : Bytes
  deriving Repr, DecidableEq

instance : Message HelperTrieParams where
  blank := ⟨0, 0, []⟩
  fields m :=
    numberField 1 m.trie.toUInt64 ++ numberField 2 m.sectionIndex ++ bytesField 3 m.key
  absorb _ m f :=
    match f.number with
    | 1 => f.payload.number?.map fun v => { m with trie := v.toUInt32 }
    | 2 => f.payload.number?.map fun v => { m with sectionIndex := v }
    | 3 => f.payload.bytes?.map fun b => { m with key := b }
    | _ => some m

end Wire

end LightClient
